/-
Step limits. A limit only cuts an evaluation short: under a limit `l` an evaluation ends as it does
without one if that takes no more than `l` operations, and otherwise, also where it would not end at
all, with the limit as its failure, at step `l`. So under a limit every evaluation ends, its count of
operations stays within the limit at every state on the way, and a larger limit changes nothing but
evaluations that a smaller one has cut short.
-/
import StackLang.Proofs.Composition

namespace StackLang

variable {R : Type}

/-! ## Cutting evaluations short -/

/-- The verdict under a limit `l`, given the one without a limit, if there is one. -/
def Verdict.within (l : Nat) : Option (Verdict R) → Verdict R
  | some (.ok o) => if o.steps ≤ l then .ok o else .error ⟨.stepLimit l, l⟩
  | some (.error e) => .error (if e.step < l then e else ⟨.stepLimit l, l⟩)
  | none => .error ⟨.stepLimit l, l⟩

namespace Verdict

theorem within_ok (l : Nat) (o : Outcome R) :
    within l (some (.ok o)) = if o.steps ≤ l then .ok o else .error ⟨.stepLimit l, l⟩ := rfl

theorem within_error (l : Nat) (e : EvalError) :
    within l (some (.error e) : Option (Verdict R)) = .error (if e.step < l then e else ⟨.stepLimit l, l⟩) := rfl

/-- A verdict that is not the limit's is the one without a limit, and a larger limit leaves it. -/
theorem within_mono {l b : Nat} (hb : l ≤ b) {w : Option (Verdict R)}
    (hl : within l w ≠ .error ⟨.stepLimit l, l⟩) : w = some (within l w) ∧ within b w = within l w := by
  cases w with
  | none => exact absurd rfl hl
  | some v =>
    cases v with
    | ok o =>
      rw [within_ok] at hl
      by_cases ho : o.steps ≤ l
      · rw [within_ok, within_ok, if_pos ho, if_pos (by omega)]; exact ⟨rfl, rfl⟩
      · rw [if_neg ho] at hl; exact absurd rfl hl
    | error e =>
      rw [within_error] at hl
      by_cases he : e.step < l
      · rw [within_error, within_error, if_pos he, if_pos (by omega)]; exact ⟨rfl, rfl⟩
      · rw [if_neg he] at hl; exact absurd rfl hl

end Verdict

namespace Tree

variable {limit : Option Nat} {t : Tree R} {s : Stack} {n l : Nat}

/-- The count never goes back: an evaluation ends with no smaller a count than it starts with. -/
theorem Ends.count_le {v : Verdict R} (h : t.Ends limit s n v) :
    (∀ o, v = .ok o → n ≤ o.steps) ∧ (∀ e, v = .error e → n ≤ e.step) := by
  induction h with
  | finished r s n => exact ⟨by rintro _ ⟨⟩; exact le_refl n, by rintro _ ⟨⟩⟩
  | exceeded hl => exact ⟨by rintro _ ⟨⟩, by rintro _ ⟨⟩; exact le_refl _⟩
  | failed hl hx => exact ⟨by rintro _ ⟨⟩, by rintro _ ⟨⟩; exact le_refl _⟩
  | executed hl hx _ ih =>
    refine ⟨fun o ho => ?_, fun e he => ?_⟩
    · have := ih.1 o ho; omega
    · have := ih.2 e he; omega

/-- What is still suspended after `l` operations is cut short by the limit `l`. -/
theorem within_suspended (op : Operation) (next : Stack → Tree R) (s : Stack) (l : Nat) :
    Verdict.within l ((suspended op next).run none s l) = .error ⟨.stepLimit l, l⟩ := by
  cases hr : (suspended op next).run none s l with
  | none => rfl
  | some v =>
    cases v with
    | ok o =>
      have hlt : l < o.steps := by
        rw [run, root_suspended] at hr
        simp only [limitReached] at hr
        split at hr
        · cases hr
        · exact (ends_of_run hr).count_le.1 o rfl
      exact if_neg (by omega)
    | error e =>
      have hle : l ≤ e.step := (ends_of_run hr).count_le.2 e rfl
      exact congrArg Except.error (if_neg (by omega))

/-- An evaluation under a limit is the one without a limit, cut short. -/
theorem run_some (t : Tree R) (s : Stack) (hn : n ≤ l) :
    t.run (some l) s n = some (Verdict.within l (t.run none s n)) := by
  -- on the operations that the limit still permits; at none the limit decides alone
  induction hd : l - n generalizing t s n with
  | zero =>
    obtain rfl : n = l := by omega
    cases t with
    | done r => rw [run, run, root_done]; exact congrArg some (if_pos (le_refl n)).symm
    | suspended op next =>
      rw [within_suspended, run, root_suspended, limitReached_some, if_pos (le_refl n)]
  | succ d ih =>
    cases t with
    | done r => rw [run, run, root_done]; exact congrArg some (if_pos hn).symm
    | suspended op next =>
      rw [run, run, root_suspended, limitReached_some, if_neg (by omega)]
      simp only [limitReached]
      cases op.execute s with
      | error failure => exact congrArg (some ∘ Except.error) (if_pos (show n < l by omega)).symm
      | ok after => exact ih (next after) after (by omega) (by omega)

end Tree

/-! ## Counting on the way -/

namespace Config

variable {l : Nat} {c c' : Config R}

theorem Advances.steps (h : c.Advances (some l) c') : c'.steps = c.steps + 1 ∧ c'.steps ≤ l := by
  obtain ⟨op, rest, after, -, hl, -, rfl⟩ := h.executed
  exact ⟨rfl, lt_of_limitReached_eq_none hl⟩

/-- A counter of 64 bits follows the count as long as the limit fits into it. -/
theorem Advances.counter (h : c.Advances (some l) c') (hl : l < UInt64.size) :
    c'.steps = (UInt64.ofNat c.steps + 1).toNat := by
  obtain ⟨hs, hle⟩ := h.steps
  rw [UInt64.toNat_add, UInt64.toNat_ofNat', UInt64.toNat_one]
  unfold UInt64.size at hl
  omega

theorem Reaches.steps_le (h : c.Reaches (some l) c') (hc : c.steps ≤ l) : c'.steps ≤ l := by
  induction h with
  | refl => exact hc
  | tail _ h _ => exact h.steps.2

theorem Ends.attempted_le {events : List Event} {v : Verdict R} (h : c.Ends (some l) events v) (hc : c.steps ≤ l) :
    c.steps + (attempted events).length ≤ l := by
  induction h with
  | finished r s n => exact hc
  | exceeded hl => exact hc
  | failed hl hx =>
    rw [attempted_failed]
    exact lt_of_limitReached_eq_none hl
  | executed hl hx _ ih =>
    have hle := ih (lt_of_limitReached_eq_none hl)
    rw [attempted_executed, List.length_cons]
    dsimp only at hle ⊢
    omega

end Config

/-! ## Evaluations under a limit -/

namespace Interpreter

theorem runOn_limited (initial s : Stack) (p : Program R) (l : Nat) :
    ((mk initial (some l)).runOn s p).2 = some (Verdict.within l ((startingAt initial).runOn s p).2) := by
  rw [runOn_eq_denote, runOn_eq_denote]
  exact Tree.run_some p.denote s (Nat.zero_le l)

theorem attempted_limited (initial s : Stack) (p : Program R) (l : Nat) :
    (attempted ((mk initial (some l)).runOn s p).1.toList).length ≤ l := by
  obtain ⟨events, h⟩ := ends_of_runOn (runOn_limited initial s p l)
  have hle := h.attempted_le (Nat.zero_le l)
  rw [runOn_of_ends h]
  dsimp only [Config.start] at hle ⊢
  omega

/-- A step limit only cuts evaluations short. Where an evaluation without a limit succeeds, fails or does not
end, the one under the limit `l` has the same verdict or, from `l` operations on, that of the limit. Hence
under a limit every evaluation ends after at most `l` operations, no state on the way counts more, so
that a counter of 64 bits does not wrap, a verdict other than the limit's is that under every larger
limit and without one, and a program that is done needs no operation. -/
theorem runOn_limit (initial s : Stack) (p : Program R) (l : Nat) :
    (∀ o, ((startingAt initial).runOn s p).2 = some (.ok o) →
      ((mk initial (some l)).runOn s p).2 = some (if o.steps ≤ l then .ok o else .error ⟨.stepLimit l, l⟩)) ∧
    (∀ e, ((startingAt initial).runOn s p).2 = some (.error e) →
      ((mk initial (some l)).runOn s p).2 = some (.error (if e.step < l then e else ⟨.stepLimit l, l⟩))) ∧
    (((startingAt initial).runOn s p).2 = none →
      ((mk initial (some l)).runOn s p).2 = some (.error ⟨.stepLimit l, l⟩)) ∧
    (∃ v, ((mk initial (some l)).runOn s p).2 = some v) ∧
    (attempted ((mk initial (some l)).runOn s p).1.toList).length ≤ l ∧
    (∀ c, (Config.start p s).Reaches (some l) c → c.steps ≤ l) ∧
    (l < UInt64.size → ∀ c c', (Config.start p s).Reaches (some l) c → c.Advances (some l) c' →
      c'.steps = (UInt64.ofNat c.steps + 1).toNat) ∧
    (∀ v, ((mk initial (some l)).runOn s p).2 = some v → (∀ l' n, v ≠ .error ⟨.stepLimit l', n⟩) →
      ((startingAt initial).runOn s p).2 = some v ∧
      ∀ b, l ≤ b → ((mk initial (some b)).runOn s p).2 = some v) ∧
    (∀ r : R, ((mk initial (some 0)).runOn s (.done r)).2 = some (.ok ⟨r, s, 0⟩)) := by
  refine ⟨fun o h => ?_, fun e h => ?_, fun h => ?_, ⟨_, runOn_limited initial s p l⟩, attempted_limited initial s p l,
    fun c h => h.steps_le (Nat.zero_le l), fun hl c c' _ h => h.counter hl, fun v h hv => ?_, fun r => ?_⟩
  · rw [runOn_limited, h]; rfl
  · rw [runOn_limited, h]; rfl
  · rw [runOn_limited, h]; rfl
  · rw [runOn_limited, Option.some.injEq] at h
    subst h
    refine ⟨(Verdict.within_mono (le_refl l) (hv l l)).1, fun b hb => ?_⟩
    rw [runOn_limited, (Verdict.within_mono hb (hv l l)).2]
  · exact congrArg Prod.snd (runOn_of_ends (.finished r s 0))

open Program in
/-- Two operations under the limits two and one; a failure of the third operation under the limits three
and two; an evaluation that does not end; a verdict under one limit that is the same under a larger one;
and the first transition under the largest limit of 64 bits. -/
theorem runOn_limit_at_the_bound :
    let twice := sequence [push (.int 1), dup]
    let outcome : Outcome Stack := ⟨.ofList [.int 1, .int 1], .ofList [.int 1, .int 1], 2⟩
    let failing := sequence [push (.int 1), pop, pop]
    let error : EvalError := ⟨.underflow "pop" 1 0, 2⟩
    (((startingAt .empty).runOn .empty twice).2 = some (.ok outcome) ∧
      ((mk .empty (some 2)).runOn .empty twice).2 = some (.ok outcome) ∧
      ((mk .empty (some 1)).runOn .empty twice).2 = some (.error ⟨.stepLimit 1, 1⟩)) ∧
    (((startingAt .empty).runOn .empty failing).2 = some (.error error) ∧
      ((mk .empty (some 3)).runOn .empty failing).2 = some (.error error) ∧
      ((mk .empty (some 2)).runOn .empty failing).2 = some (.error ⟨.stepLimit 2, 2⟩)) ∧
    (((startingAt .empty).runOn .empty (forever (.int 1))).2 = none ∧
      ((mk .empty (some 5)).runOn .empty (forever (.int 1))).2 = some (.error ⟨.stepLimit 5, 5⟩)) ∧
    ((∀ l n, (.ok outcome : Verdict Stack) ≠ .error ⟨.stepLimit l, n⟩) ∧
      ((mk .empty (some 7)).runOn .empty twice).2 = some (.ok outcome)) ∧
    (UInt64.size - 1 < UInt64.size ∧
      (Config.start dup (.ofList [.int 1])).Advances (some (UInt64.size - 1)) ⟨.done outcome.stack, outcome.stack, 1⟩ ∧
      1 = (UInt64.ofNat 0 + 1).toNat) := by
  intro twice outcome failing error
  have ho : ((startingAt .empty).runOn .empty twice).2 = some (.ok outcome) :=
    congrArg Prod.snd (runOn_of_ends (.executed rfl rfl (.executed rfl rfl (.finished _ _ _))))
  have he : ((startingAt .empty).runOn .empty failing).2 = some (.error error) :=
    congrArg Prod.snd (runOn_of_ends (.executed rfl rfl (.executed rfl rfl (.failed rfl rfl))))
  have hn : ((startingAt .empty).runOn .empty (forever (.int 1))).2 = none := runOn_forever rfl .empty (.int 1)
  have hv : ∀ l n, (.ok outcome : Verdict Stack) ≠ .error ⟨.stepLimit l, n⟩ := by rintro _ _ ⟨⟩
  have h2 := (runOn_limit .empty .empty twice 2).1 outcome ho
  obtain ⟨-, -, -, -, -, -, -, hlarger, -⟩ := runOn_limit .empty .empty twice 2
  obtain ⟨-, -, -, -, -, -, hcounter, -, -⟩ := runOn_limit .empty (.ofList [.int 1]) dup (UInt64.size - 1)
  refine ⟨⟨ho, h2, (runOn_limit .empty .empty twice 1).1 outcome ho⟩,
    ⟨he, (runOn_limit .empty .empty failing 3).2.1 error he, (runOn_limit .empty .empty failing 2).2.1 error he⟩,
    ⟨hn, (runOn_limit .empty .empty (forever (.int 1)) 5).2.2.1 hn⟩,
    ⟨hv, (hlarger _ h2 hv).2 7 (by decide)⟩, by decide, rfl, ?_⟩
  exact hcounter (by decide) _ ⟨.done outcome.stack, outcome.stack, 1⟩ .refl rfl

end Interpreter

end StackLang
