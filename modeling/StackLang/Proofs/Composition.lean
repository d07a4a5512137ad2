/-
Evaluating one program after another. A program followed by `f` of its result is evaluated by
evaluating the program, and on success `f` of its value from its live stack with the operations that
the limit still permits; the count of operations goes on. The value and the live stack are two
different things: `f` is given the one, and the operations that follow work on the other.

Two facts about trees carry this. A tree on top of others ends as it ends alone, or goes on where it
ends (`run_bind`); and an evaluation that starts at a count `n` is one that starts at zero under a
limit smaller by `n`, its counts shifted (`run_after`).
-/
import StackLang.Proofs.Denotation

namespace StackLang

variable {R S : Type}

/-! ## Limits and counts -/

section Limit

variable {limit : Option Nat} {l n m : Nat}

theorem limitReached_some : limitReached (some l) n = if l ≤ n then some l else none := rfl

theorem eq_of_limitReached (h : limitReached limit n = some l) : limit = some l := by
  cases limit with
  | none => cases h
  | some b =>
    rw [limitReached_some] at h
    split at h
    · exact h
    · cases h

theorem lt_of_limitReached_eq_none (h : limitReached (some l) n = none) : n < l := by
  rw [limitReached_some] at h
  split at h
  · cases h
  · omega

/-- A limit is reached at `n + m` operations when the rest of it is reached at `m`. -/
theorem limitReached_sub :
    limitReached (limit.map (· - n)) m = (limitReached limit (n + m)).map (· - n) := by
  cases limit with
  | none => rfl
  | some b =>
    rw [Option.map_some, limitReached_some, limitReached_some]
    by_cases h : b ≤ n + m
    · rw [if_pos h, if_pos (by omega)]; rfl
    · rw [if_neg h, if_neg (by omega)]; rfl

end Limit

theorem Operation.combine_ne_stepLimit (op : Operation) (f : Number → Number → Number) (s : Stack) (l : Nat) :
    op.combine f s ≠ .error (.stepLimit l) := by
  unfold combine
  intro h
  repeat' split at h
  all_goals cases h

/-- The limit is not a failure of operations. -/
theorem Operation.execute_ne_stepLimit (op : Operation) (s : Stack) (l : Nat) :
    op.execute s ≠ .error (.stepLimit l) := by
  cases op with
  | push v => intro h; cases h
  | add => exact combine_ne_stepLimit .add Number.add s l
  | mul => exact combine_ne_stepLimit .mul Number.mul s l
  | pop | dup | swap | apply t =>
    simp only [execute]
    split <;> (intro h; cases h)

/-- The failure under another limit: a step limit is reported as that one. -/
def Failure.under (limit : Option Nat) : Failure → Failure
  | .stepLimit l => .stepLimit (limit.getD l)
  | failure => failure

/-- The verdict of an evaluation as that of a longer one under `limit`, which had executed `n` operations
when it came to this part. -/
def Verdict.after (limit : Option Nat) (n : Nat) : Verdict R → Verdict R
  | .ok o => .ok { o with steps := n + o.steps }
  | .error e => .error ⟨e.failure.under limit, n + e.step⟩

theorem Operation.under_of_execute {op : Operation} {s : Stack} {failure : Failure}
    (h : op.execute s = .error failure) (limit : Option Nat) : failure.under limit = failure := by
  cases failure with
  | stepLimit l => exact absurd h (op.execute_ne_stepLimit s l)
  | underflow operation required found => rfl
  | typeMismatch operation found depth => rfl
  | transform name depth fault => rfl

namespace Tree

variable {limit : Option Nat} {t : Tree R} {s : Stack} {n m : Nat}

/-- An evaluation that ends under what is left of a limit ends under the whole limit. -/
theorem Ends.after {v : Verdict R} (h : t.Ends (limit.map (· - n)) s m v) :
    t.Ends limit s (n + m) (Verdict.after limit n v) := by
  induction h with
  | finished r s m => exact .finished r s (n + m)
  | exceeded hl =>
    rw [limitReached_sub, Option.map_eq_some_iff] at hl
    obtain ⟨b, hb, rfl⟩ := hl
    -- what is left of the limit was reported; `after` reports the limit itself
    cases eq_of_limitReached hb
    exact .exceeded hb
  | failed hl hx =>
    rw [limitReached_sub, Option.map_eq_none_iff] at hl
    rw [Verdict.after, Operation.under_of_execute hx]
    exact .failed hl hx
  | executed hl hx _ ih =>
    rw [limitReached_sub, Option.map_eq_none_iff] at hl
    exact .executed hl hx ih

/-- An evaluation that ends under the whole of a limit ends under what is left of it. -/
theorem Ends.before {v : Verdict R} (h : t.Ends limit s (n + m) v) :
    ∃ w, t.Ends (limit.map (· - n)) s m w := by
  generalize hk : n + m = k at h
  induction h generalizing m with
  | finished r s k => exact ⟨_, .finished r s m⟩
  | exceeded hl =>
    subst hk
    exact ⟨_, .exceeded (by rw [limitReached_sub, hl]; rfl)⟩
  | failed hl hx =>
    subst hk
    exact ⟨_, .failed (by rw [limitReached_sub, hl]; rfl) hx⟩
  | executed hl hx _ ih =>
    subst hk
    obtain ⟨w, hw⟩ := ih (m := m + 1) rfl
    exact ⟨w, .executed (by rw [limitReached_sub, hl]; rfl) hx hw⟩

/-- Starting at a count is starting at zero under a smaller limit. -/
theorem run_after (limit : Option Nat) (t : Tree R) (s : Stack) (n : Nat) :
    t.run limit s n = (t.run (limit.map (· - n)) s 0).map (Verdict.after limit n) := by
  cases hr : t.run (limit.map (· - n)) s 0 with
  | some v => exact run_of_ends (ends_of_run hr).after
  | none =>
    rw [run_eq_none_iff] at hr
    rw [Option.map_none, run_eq_none_iff]
    intro v h
    obtain ⟨w, hw⟩ := Ends.before (n := n) (m := 0) h
    exact hr w hw

/-! ## One tree on top of others -/

theorem Ends.bind_error {e : EvalError} (h : t.Ends limit s n (.error e)) (k : R → Tree S) :
    (t.bind k).Ends limit s n (.error e) := by
  generalize hv : (Except.error e : Verdict R) = v at h
  induction h with
  | finished r s n => cases hv
  | exceeded hl => cases hv; rw [bind_suspended]; exact .exceeded hl
  | failed hl hx => cases hv; rw [bind_suspended]; exact .failed hl hx
  | executed hl hx _ ih => rw [bind_suspended]; exact .executed hl hx (ih hv)

theorem Ends.run_bind {o : Outcome R} (h : t.Ends limit s n (.ok o)) (k : R → Tree S) :
    (t.bind k).run limit s n = (k o.value).run limit o.stack o.steps := by
  generalize hv : (Except.ok o : Verdict R) = v at h
  induction h with
  | finished r s n => cases hv; rw [bind_done]
  | exceeded hl => cases hv
  | failed hl hx => cases hv
  | executed hl hx _ ih =>
    rw [bind_suspended, run, root_suspended]
    simp only [hl, hx]
    exact ih hv

theorem Ends.of_bind {k : R → Tree S} {v : Verdict S} (h : (t.bind k).Ends limit s n v) :
    ∃ w, t.Ends limit s n w := by
  generalize hu : t.bind k = u at h
  -- a derivation for the composed tree may go on below a result of `t`; there `t` has ended already
  induction h generalizing t with
  | finished b s n =>
    cases t with
    | done r => exact ⟨_, .finished r s n⟩
    | suspended op next => rw [bind_suspended] at hu; exact absurd hu.symm done_ne_suspended
  | exceeded hl =>
    cases t with
    | done r => exact ⟨_, .finished r _ _⟩
    | suspended op next => exact ⟨_, .exceeded hl⟩
  | failed hl hx =>
    cases t with
    | done r => exact ⟨_, .finished r _ _⟩
    | suspended op next =>
      rw [bind_suspended] at hu
      obtain ⟨rfl, -⟩ := suspended_inj hu
      exact ⟨_, .failed hl hx⟩
  | executed hl hx _ ih =>
    cases t with
    | done r => exact ⟨_, .finished r _ _⟩
    | suspended op next =>
      rw [bind_suspended] at hu
      obtain ⟨rfl, rfl⟩ := suspended_inj hu
      obtain ⟨w, hw⟩ := ih rfl
      exact ⟨w, .executed hl hx hw⟩

/-- A tree on top of others: a failure is the end, and a result goes on below. -/
theorem run_bind (limit : Option Nat) (t : Tree R) (k : R → Tree S) (s : Stack) (n : Nat) :
    (t.bind k).run limit s n = (t.run limit s n).bind fun
      | .ok o => (k o.value).run limit o.stack o.steps
      | .error e => some (.error e) := by
  cases hr : t.run limit s n with
  | some v =>
    cases v with
    | ok o => exact (ends_of_run hr).run_bind k
    | error e => exact run_of_ends ((ends_of_run hr).bind_error k)
  | none =>
    rw [run_eq_none_iff] at hr
    rw [Option.bind_none, run_eq_none_iff]
    intro v h
    obtain ⟨w, hw⟩ := h.of_bind
    exact hr w hw

/-- Under a limit no more operations are executed than it permits. -/
theorem Ends.steps_le {l : Nat} {o : Outcome R} (h : t.Ends (some l) s n (.ok o)) (hn : n ≤ l) : o.steps ≤ l := by
  generalize hv : (Except.ok o : Verdict R) = v at h
  induction h with
  | finished r s n => cases hv; exact hn
  | exceeded hl => cases hv
  | failed hl hx => cases hv
  | executed hl hx _ ih => exact ih (lt_of_limitReached_eq_none hl) hv

end Tree

/-! ## Evaluating one program after another -/

namespace Interpreter

/-- The interpreter with what is left of its limit after `n` operations. -/
def remaining (i : Interpreter) (n : Nat) : Interpreter := { i with maxSteps := i.maxSteps.map (· - n) }

theorem runOn_remaining (i : Interpreter) (s : Stack) (p : Program R) (n : Nat) :
    ((i.remaining n).runOn s p).2.map (Verdict.after i.maxSteps n) = p.denote.run i.maxSteps s n := by
  rw [runOn_eq_denote, Tree.run_after i.maxSteps]
  rfl

/-- What follows an evaluation: after a failure nothing, and otherwise the rest. -/
theorem runOn_bind (i : Interpreter) (s : Stack) (p : Program R) (f : R → Program S) :
    (i.runOn s (p.bind f)).2 = (i.runOn s p).2.bind fun
      | .ok o => ((i.remaining o.steps).runOn o.stack (f o.value)).2.map (Verdict.after i.maxSteps o.steps)
      | .error e => some (.error e) := by
  simp only [runOn_remaining]
  rw [runOn_eq_denote, runOn_eq_denote, Program.denote_bind, Tree.run_bind]

theorem steps_le_of_runOn {i : Interpreter} {s : Stack} {p : Program R} {o : Outcome R}
    (h : (i.runOn s p).2 = some (.ok o)) {l : Nat} (hl : i.maxSteps = some l) : o.steps ≤ l := by
  rw [runOn_eq_denote, hl] at h
  exact (Tree.ends_of_run h).steps_le (Nat.zero_le l)

/-- Evaluation is compositional: a program followed by `f` fails as the program alone does, goes on with
`f` of the program's value from its live stack under what is left of the limit, and does not end if the
program does not. -/
theorem runOn_compositional (i : Interpreter) (s : Stack) (p : Program R) (f : R → Program S) :
    (∀ e, (i.runOn s p).2 = some (.error e) → (i.runOn s (p.bind f)).2 = some (.error e)) ∧
    (∀ o, (i.runOn s p).2 = some (.ok o) →
      (∀ l, i.maxSteps = some l → o.steps ≤ l) ∧
      (i.runOn s (p.bind f)).2 =
        ((i.remaining o.steps).runOn o.stack (f o.value)).2.map (Verdict.after i.maxSteps o.steps)) ∧
    ((i.runOn s p).2 = none → (i.runOn s (p.bind f)).2 = none) := by
  refine ⟨fun e h => ?_, fun o h => ⟨fun l hl => steps_le_of_runOn h hl, ?_⟩, fun h => ?_⟩
  · rw [runOn_bind, h]; rfl
  · rw [runOn_bind, h]; rfl
  · rw [runOn_bind, h]; rfl

open Program in
/-- A failure; a limit reached where the first program ends, whose value is not its live stack; and a
program that never ends. -/
theorem runOn_compositional_each_way :
    ((default.runOn .empty pop).2 = some (.error ⟨.underflow "pop" 1 0, 0⟩) ∧
      (default.runOn .empty (pop.bind fun _ => dup)).2 = some (.error ⟨.underflow "pop" 1 0, 0⟩)) ∧
    ((runOn ⟨.empty, some 1⟩ .empty ((push (.int 1)).map fun _ => (7 : Int64))).2 =
        some (.ok ⟨7, .ofList [.int 1], 1⟩) ∧
      (runOn ⟨.empty, some 1⟩ .empty (((push (.int 1)).map fun _ => (7 : Int64)).bind fun n => push (.int n))).2 =
        some (.error ⟨.stepLimit 1, 1⟩)) ∧
    ((default.runOn .empty (forever (.int 1))).2 = none ∧
      (default.runOn .empty ((forever (.int 1)).bind fun _ => dup)).2 = none) := by
  refine ⟨?_, ?_, ?_⟩
  · have hp : (default.runOn .empty pop).2 = some (.error ⟨.underflow "pop" 1 0, 0⟩) :=
      congrArg Prod.snd (runOn_of_ends (.failed rfl rfl))
    exact ⟨hp, (runOn_compositional default .empty pop fun _ => dup).1 _ hp⟩
  · have hp : (runOn ⟨.empty, some 1⟩ .empty ((push (.int 1)).map fun _ => (7 : Int64))).2 =
        some (.ok ⟨7, .ofList [.int 1], 1⟩) := congrArg Prod.snd (runOn_of_ends (.executed rfl rfl (.finished _ _ _)))
    have hq : (runOn ⟨.empty, some 0⟩ (.ofList [.int 1]) (push (.int 7))).2 = some (.error ⟨.stepLimit 0, 0⟩) :=
      congrArg Prod.snd (runOn_of_ends (.exceeded rfl))
    obtain ⟨-, h⟩ := (runOn_compositional ⟨.empty, some 1⟩ .empty _ fun n => push (.int n)).2.1 _ hp
    refine ⟨hp, h.trans ?_⟩
    exact congrArg (Option.map (Verdict.after (some 1) 1)) hq
  · have hp : (default.runOn .empty (forever (.int 1))).2 = none := runOn_forever rfl .empty (.int 1)
    exact ⟨hp, (runOn_compositional default .empty (forever (.int 1)) fun _ => dup).2.2 hp⟩

end Interpreter

end StackLang
