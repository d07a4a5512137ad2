/-
Sequences. Without a limit, programs one after the other are evaluated in turn, each from the live
stack that the one before it leaves: the first that fails or does not end decides, and if all succeed,
their counts add up and the last one's value and live stack are those of the sequence. The values in
between are forgotten, so that sequences of sequences may be flattened; only a last sequence without
programs still shows, by its value.
-/
import StackLang.Proofs.Composition

namespace StackLang

variable {R S T : Type}

/-! ## Forgetting results -/

/-- The verdict without its value: the live stack and the count of operations, or the error. -/
def Verdict.effect (v : Verdict R) : Except EvalError (Stack × Nat) := v.map fun o => (o.stack, o.steps)

theorem Verdict.exists_of_effect_ok {v : Option (Verdict R)} {s : Stack} {n : Nat}
    (h : v.map Verdict.effect = some (.ok (s, n))) : ∃ r, v = some (.ok ⟨r, s, n⟩) := by
  obtain ⟨w, rfl, hw⟩ := Option.map_eq_some_iff.1 h
  cases w with
  | ok o => cases hw; exact ⟨o.value, rfl⟩
  | error e => cases hw

theorem Verdict.eq_of_effect_error {v : Option (Verdict R)} {e : EvalError}
    (h : v.map Verdict.effect = some (.error e)) : v = some (.error e) := by
  obtain ⟨w, rfl, hw⟩ := Option.map_eq_some_iff.1 h
  cases w with
  | ok o => cases hw
  | error e => cases hw; rfl

namespace Tree

variable {limit : Option Nat} {t : Tree R} {u : Tree S} {s : Stack} {n : Nat}

theorem run_done (limit : Option Nat) (r : R) (s : Stack) (n : Nat) : (done r).run limit s n = some (.ok ⟨r, s, n⟩) := by
  rw [run, root_done]

theorem map_bind (t : Tree R) (k : R → Tree S) (f : S → T) : (t.bind k).map f = t.bind fun r => (k r).map f := by
  rw [map_eq_bind, bind_assoc]
  exact bind_congr t fun r => (map_eq_bind (k r) f).symm

theorem bind_map (t : Tree R) (f : R → S) (k : S → Tree T) : (t.map f).bind k = t.bind fun r => k (f r) := by
  rw [map_eq_bind, bind_assoc]
  exact bind_congr t fun r => bind_done (f r) k

/-- Replacing the results of a tree replaces the value of its verdict. -/
theorem run_map (limit : Option Nat) (t : Tree R) (f : R → S) (s : Stack) (n : Nat) :
    (t.map f).run limit s n = (t.run limit s n).map fun v => v.map fun o => ⟨f o.value, o.stack, o.steps⟩ := by
  rw [map_eq_bind, run_bind]
  cases t.run limit s n with
  | none => rfl
  | some v =>
    cases v with
    | ok o => exact run_done limit (f o.value) o.stack o.steps
    | error e => rfl

/-- The tree without its results. -/
def skeleton (t : Tree R) : Tree Unit := t.map fun _ => ()

theorem skeleton_bind (t : Tree R) (k : R → Tree S) : (t.bind k).skeleton = t.bind fun r => (k r).skeleton :=
  map_bind t k _

theorem effect_run (limit : Option Nat) (t : Tree R) (s : Stack) (n : Nat) :
    (t.run limit s n).map Verdict.effect = (t.skeleton.run limit s n).map Verdict.effect := by
  rw [skeleton, run_map, Option.map_map]
  congr 1
  funext v
  cases v with
  | ok o => rfl
  | error e => rfl

/-- Trees that differ in their results only have the same verdicts apart from the values. -/
theorem effect_congr (h : t.skeleton = u.skeleton) :
    (t.run limit s n).map Verdict.effect = (u.run limit s n).map Verdict.effect := by
  rw [effect_run, h, ← effect_run]

/-- What follows a tree and does not look at its results sees its skeleton only. -/
theorem bind_const_congr (h : t.skeleton = u.skeleton) (v : Tree T) : (t.bind fun _ => v) = u.bind fun _ => v := by
  have hs : ∀ {Q : Type} (t : Tree Q), (t.bind fun _ => v) = t.skeleton.bind fun _ => v :=
    fun t => (bind_map t _ fun _ => v).symm
  rw [hs t, h, ← hs u]

end Tree

/-! ## Programs in turn -/

namespace Program

/-- The tree of programs in turn, where `r` is the result if there are none. -/
def inTurn : List (Program Stack) → Stack → Tree Stack
  | [], r => .done r
  | p :: ps, _ => p.denote.bind (inTurn ps)

theorem denote_foldl_inTurn (ps : List (Program Stack)) (p : Program Stack) :
    (ps.foldl andThen p).denote = p.denote.bind (inTurn ps) := by
  induction ps generalizing p with
  | nil => exact (Tree.bind_done_right _).symm
  | cons q ps ih => rw [List.foldl_cons, ih, denote_andThen, Tree.bind_assoc]; rfl

theorem denote_sequence_inTurn (ps : List (Program Stack)) : (sequence ps).denote = inTurn ps .empty := by
  rw [sequence, denote_foldl_inTurn, denote_done, Tree.bind_done]

theorem inTurn_append (ps qs : List (Program Stack)) (r : Stack) :
    inTurn (ps ++ qs) r = (inTurn ps r).bind (inTurn qs) := by
  induction ps generalizing r with
  | nil => exact (Tree.bind_done _ _).symm
  | cons p ps ih =>
    rw [List.cons_append, inTurn, inTurn, Tree.bind_assoc]
    exact Tree.bind_congr _ ih

/-- Only where there is no program does the result before it show. -/
theorem inTurn_of_ne_nil {ps : List (Program Stack)} (h : ps ≠ []) (r r' : Stack) : inTurn ps r = inTurn ps r' := by
  cases ps with
  | nil => exact absurd rfl h
  | cons p ps => rfl

theorem skeleton_inTurn (ps : List (Program Stack)) (r r' : Stack) :
    (inTurn ps r).skeleton = (inTurn ps r').skeleton := by
  cases ps with
  | nil => rw [inTurn, inTurn, Tree.skeleton, Tree.skeleton, Tree.map_done, Tree.map_done]
  | cons p ps => rfl

/-! ## Flattening -/

/-- A program in front that comes to programs in turn, apart from the results, may be replaced by them. -/
theorem skeleton_inTurn_cons {p : Program Stack} {ps as bs : List (Program Stack)}
    (hp : p.denote.skeleton = (inTurn as .empty).skeleton) (hps : ∀ r, (inTurn ps r).skeleton = (inTurn bs r).skeleton)
    (r : Stack) : (inTurn (p :: ps) r).skeleton = (inTurn (as ++ bs) r).skeleton := by
  have hr : ∀ t, (inTurn bs t).skeleton = (inTurn bs r).skeleton := fun t => skeleton_inTurn bs t r
  rw [inTurn_append, inTurn, Tree.skeleton_bind, Tree.skeleton_bind]
  rw [Tree.bind_congr _ fun t => (hps t).trans (hr t), Tree.bind_congr _ hr]
  exact Tree.bind_const_congr (hp.trans (skeleton_inTurn as .empty r)) _

/-- Sequences in turn differ from their programs in turn by their results only. -/
theorem skeleton_flatten (pss : List (List (Program Stack))) (r : Stack) :
    (inTurn (pss.map sequence) r).skeleton = (inTurn pss.flatten r).skeleton := by
  induction pss generalizing r with
  | nil => rfl
  | cons ps pss ih =>
    rw [List.map_cons, List.flatten_cons]
    exact skeleton_inTurn_cons (by rw [denote_sequence_inTurn]) ih r

/-- Behind the others, a sequence has its result from its last program, or is the empty stack. -/
theorem denote_sequences_concat (pss : List (List (Program Stack))) (ps : List (Program Stack)) :
    (sequence ((pss ++ [ps]).map sequence)).denote = (inTurn pss.flatten .empty).bind fun _ => inTurn ps .empty := by
  have hs : inTurn [sequence ps] = fun _ => inTurn ps .empty := by
    funext r
    rw [inTurn, denote_sequence_inTurn]
    exact Tree.bind_done_right _
  rw [denote_sequence_inTurn, List.map_append, inTurn_append, List.map_singleton, hs]
  exact Tree.bind_const_congr (skeleton_flatten pss .empty) _

theorem denote_flatten {pss : List (List (Program Stack))} (h : pss.getLast? ≠ some []) :
    (sequence (pss.map sequence)).denote = (sequence pss.flatten).denote := by
  cases pss using List.reverseRecOn with
  | nil => rfl
  | append_singleton pss ps _ =>
    have hps : ps ≠ [] := by rintro rfl; exact h List.getLast?_concat
    rw [denote_sequences_concat, denote_sequence_inTurn, List.flatten_append, List.flatten_singleton, inTurn_append]
    exact Tree.bind_congr _ fun r => inTurn_of_ne_nil hps .empty r

end Program

/-! ## Evaluating programs in turn -/

theorem Failure.under_none (failure : Failure) : failure.under none = failure := by
  cases failure with
  | stepLimit l | underflow operation required found | typeMismatch operation found depth
  | transform name depth fault => rfl

namespace Interpreter

/-- The programs of a list succeed in turn, with these outcomes: the first from the given stack, and each
of the others from the live stack that the one before it leaves. -/
inductive Threads (i : Interpreter) : Stack → List (Program Stack) → List (Outcome Stack) → Prop where
  | nil (s : Stack) : Threads i s [] []
  | cons {s : Stack} {p : Program Stack} {ps : List (Program Stack)} {o : Outcome Stack} {os : List (Outcome Stack)}
      (hp : (i.runOn s p).2 = some (.ok o)) (hps : Threads i o.stack ps os) : Threads i s (p :: ps) (o :: os)

/-- The stack that the last of some outcomes leaves, and `s` if there are none. -/
def lastStack (s : Stack) (os : List (Outcome Stack)) : Stack := (os.map Outcome.stack).getLastD s

/-- The value of the last of some outcomes, and `r` if there are none. -/
def lastValue (r : Stack) (os : List (Outcome Stack)) : Stack := (os.map Outcome.value).getLastD r

/-- The operations of some evaluations together. -/
def totalSteps (os : List (Outcome Stack)) : Nat := os.foldr (fun o n => o.steps + n) 0

@[simp] theorem lastStack_cons (s : Stack) (o : Outcome Stack) (os : List (Outcome Stack)) :
    lastStack s (o :: os) = lastStack o.stack os := List.getLastD_cons

@[simp] theorem lastValue_cons (r : Stack) (o : Outcome Stack) (os : List (Outcome Stack)) :
    lastValue r (o :: os) = lastValue o.value os := List.getLastD_cons

@[simp] theorem totalSteps_cons (o : Outcome Stack) (os : List (Outcome Stack)) :
    totalSteps (o :: os) = o.steps + totalSteps os := rfl

/-- How programs in turn end, or that they do not: all succeed, and then the last one's value and stack are
what is left; or one of them is reached, by those before it succeeding in turn, which fails, or which does
not end. -/
inductive Concludes (i : Interpreter) (s : Stack) : List (Program Stack) → Option (Verdict Stack) → Prop where
  | succeeded {ps : List (Program Stack)} {os : List (Outcome Stack)} (h : i.Threads s ps os) :
      Concludes i s ps (some (.ok ⟨lastValue .empty os, lastStack s os, totalSteps os⟩))
  | failed {pre post : List (Program Stack)} {p : Program Stack} {os : List (Outcome Stack)} {e : EvalError}
      (h : i.Threads s pre os) (hp : (i.runOn (lastStack s os) p).2 = some (.error e)) :
      Concludes i s (pre ++ p :: post) (some (.error ⟨e.failure, totalSteps os + e.step⟩))
  | endless {pre post : List (Program Stack)} {p : Program Stack} {os : List (Outcome Stack)}
      (h : i.Threads s pre os) (hp : (i.runOn (lastStack s os) p).2 = none) : Concludes i s (pre ++ p :: post) none

variable {i : Interpreter} {s : Stack} {ps : List (Program Stack)} {os : List (Outcome Stack)}
  {v : Option (Verdict Stack)}

/-- A program that succeeds in front of the others leaves the conclusion to them. -/
theorem Concludes.cons {p : Program Stack} {o : Outcome Stack} (hp : (i.runOn s p).2 = some (.ok o))
    (h : i.Concludes o.stack ps v) : ∃ w, i.Concludes s (p :: ps) w := by
  cases h with
  | succeeded h => exact ⟨_, .succeeded (.cons hp h)⟩
  | failed h hq => exact ⟨_, .failed (.cons hp h) (by rw [lastStack_cons]; exact hq)⟩
  | endless h hq => exact ⟨_, .endless (.cons hp h) (by rw [lastStack_cons]; exact hq)⟩

theorem exists_concludes (i : Interpreter) (s : Stack) (ps : List (Program Stack)) : ∃ v, i.Concludes s ps v := by
  induction ps generalizing s with
  | nil => exact ⟨_, .succeeded (.nil s)⟩
  | cons p ps ih =>
    cases hp : (i.runOn s p).2 with
    | none => exact ⟨_, .endless (.nil s) hp⟩
    | some v =>
      cases v with
      | error e => exact ⟨_, .failed (.nil s) hp⟩
      | ok o =>
        obtain ⟨w, hw⟩ := ih o.stack
        exact hw.cons hp

section Unlimited

variable (hi : i.maxSteps = none)
include hi

/-- Without a limit, an evaluation that starts at a count differs by the count only. -/
theorem run_denote (s : Stack) (p : Program R) (n : Nat) :
    p.denote.run none s n = (i.runOn s p).2.map (Verdict.after none n) := by
  rw [runOn_eq_denote, hi, Tree.run_after]
  rfl

/-- Programs that succeed in turn leave the rest to what comes after them. -/
theorem Threads.run_append (h : i.Threads s ps os) (qs : List (Program Stack)) (r : Stack) (n : Nat) :
    (Program.inTurn (ps ++ qs) r).run none s n =
      (Program.inTurn qs (lastValue r os)).run none (lastStack s os) (n + totalSteps os) := by
  induction h generalizing r n with
  | nil s => rfl
  | @cons s p ps o os hp _ ih =>
    rw [List.cons_append, Program.inTurn, Tree.run_bind, run_denote hi, hp]
    refine (ih o.value (n + o.steps)).trans ?_
    rw [lastValue_cons, lastStack_cons, totalSteps_cons, Nat.add_assoc]

theorem Threads.runOn_sequence (h : i.Threads s ps os) (qs : List (Program Stack)) :
    (i.runOn s (.sequence (ps ++ qs))).2 =
      (Program.inTurn qs (lastValue .empty os)).run none (lastStack s os) (totalSteps os) := by
  rw [runOn_eq_denote, hi, Program.denote_sequence_inTurn, h.run_append hi, Nat.zero_add]

theorem Concludes.runOn_sequence (h : i.Concludes s ps v) : (i.runOn s (.sequence ps)).2 = v := by
  cases h with
  | succeeded h =>
    have hr := h.runOn_sequence hi []
    rw [List.append_nil, Program.inTurn, Tree.run_done] at hr
    exact hr
  | failed h hp =>
    rw [h.runOn_sequence hi, Program.inTurn, Tree.run_bind, run_denote hi, hp, Option.map_some, Verdict.after,
      Failure.under_none]
    rfl
  | endless h hp =>
    rw [h.runOn_sequence hi, Program.inTurn, Tree.run_bind, run_denote hi, hp]
    rfl

/-- A program that fails in front of others decides. -/
theorem runOn_of_error {p : Program Stack} {e : EvalError} (hp : (i.runOn s p).2 = some (.error e))
    (ps : List (Program Stack)) : (i.runOn s (.sequence (p :: ps))).2 = some (.error e) := by
  have h : i.Concludes s (p :: ps) (some (.error ⟨e.failure, 0 + e.step⟩)) := .failed (.nil s) hp
  rw [h.runOn_sequence hi, Nat.zero_add]

theorem concludes_iff : (i.runOn s (.sequence ps)).2 = v ↔ i.Concludes s ps v := by
  constructor
  · rintro rfl
    obtain ⟨v, h⟩ := i.exists_concludes s ps
    rw [h.runOn_sequence hi]; exact h
  · exact Concludes.runOn_sequence hi

end Unlimited

theorem effect_flatten (i : Interpreter) (s : Stack) (pss : List (List (Program Stack))) :
    (i.runOn s (.sequence (pss.map .sequence))).2.map Verdict.effect =
      (i.runOn s (.sequence pss.flatten)).2.map Verdict.effect := by
  rw [runOn_eq_denote, runOn_eq_denote, Program.denote_sequence_inTurn, Program.denote_sequence_inTurn]
  exact Tree.effect_congr (Program.skeleton_flatten pss .empty)

theorem value_sequences_nil {pss : List (List (Program Stack))} (h : pss.getLast? = some []) {o : Outcome Stack}
    (ho : (i.runOn s (.sequence (pss.map .sequence))).2 = some (.ok o)) : o.value = .empty := by
  obtain ⟨pss, rfl⟩ := List.getLast?_eq_some_iff.1 h
  rw [runOn_eq_denote, Program.denote_sequences_concat, Program.inTurn, ← Tree.map_eq_bind, Tree.run_map] at ho
  obtain ⟨v, -, hv⟩ := Option.map_eq_some_iff.1 ho
  cases v with
  | ok o' => cases hv; rfl
  | error e => cases hv

/-- Sequences thread the live stack and forget the values in between. Without a limit, a sequence comes to
what its programs come to in turn: it fails or does not end where the first one so reached does, the
operations of those before it added, and else has the value and the stack of the last one and all
operations. The sequence of some sequences and that of all their programs have the same stack, count and
errors, and the same value unless the last sequence is empty, which results in the empty stack. -/
theorem sequence_threads (initial s : Stack) :
    (∀ ps v, ((startingAt initial).runOn s (.sequence ps)).2 = v ↔ (startingAt initial).Concludes s ps v) ∧
    ((startingAt initial).runOn s (.sequence [])).2 = some (.ok ⟨.empty, s, 0⟩) ∧
    ∀ (i : Interpreter) (pss : List (List (Program Stack))),
      (i.runOn s (.sequence (pss.map .sequence))).2.map Verdict.effect =
        (i.runOn s (.sequence pss.flatten)).2.map Verdict.effect ∧
      (pss.getLast? ≠ some [] →
        (i.runOn s (.sequence (pss.map .sequence))).2 = (i.runOn s (.sequence pss.flatten)).2) ∧
      (pss.getLast? = some [] → ∀ o, (i.runOn s (.sequence (pss.map .sequence))).2 = some (.ok o) →
        o.value = .empty) := by
  refine ⟨fun ps v => concludes_iff rfl, Concludes.runOn_sequence rfl (.succeeded (.nil s)), fun i pss => ?_⟩
  exact ⟨i.effect_flatten s pss, fun h => i.runOn_congr s (Program.denote_flatten h), fun h o => value_sequences_nil h⟩

open Program in
/-- A failure of the second program, which itself has come to its second operation; three sequences, one of
them without programs, against their programs; and a sequence without programs at the end. -/
theorem sequence_threads_groups :
    ((startingAt .empty).runOn .empty (.sequence [push (.int 1), .sequence [pop, pop], dup])).2 =
      some (.error ⟨.underflow "pop" 1 0, 2⟩) ∧
    ([[push (.int 1), dup], [], [add]].getLast? ≠ some [] ∧
      (default.runOn .empty (.sequence ([[push (.int 1), dup], [], [add]].map .sequence))).2 =
        (default.runOn .empty (.sequence [push (.int 1), dup, add])).2) ∧
    ([[push (.int 1)], []].getLast? = some [] ∧ ∃ o : Outcome Stack,
      (default.runOn .empty (.sequence ([[push (.int 1)], []].map .sequence))).2 = some (.ok o) ∧
      o.stack = .ofList [.int 1] ∧ o.value = .empty) := by
  obtain ⟨hiff, -, hgroups⟩ := sequence_threads .empty .empty
  refine ⟨?_, ⟨?_, ?_⟩, rfl, ?_⟩
  · have h1 : ((startingAt .empty).runOn .empty (push (.int 1))).2 = some (.ok ⟨.ofList [.int 1], .ofList [.int 1], 1⟩) :=
      congrArg Prod.snd (runOn_of_ends (.executed rfl rfl (.finished _ _ _)))
    have h2 : ((startingAt .empty).runOn (.ofList [.int 1]) (.sequence [pop, pop])).2 =
        some (.error ⟨.underflow "pop" 1 0, 1⟩) :=
      congrArg Prod.snd (runOn_of_ends (.executed rfl rfl (.failed rfl rfl)))
    exact (hiff _ _).2 (.failed (.cons h1 (.nil _)) h2)
  · rintro ⟨⟩
  · exact (hgroups default [[push (.int 1), dup], [], [add]]).2.1 (by rintro ⟨⟩)
  · have h : (default.runOn .empty (.sequence ([[push (.int 1)], []].map .sequence))).2 =
        some (.ok ⟨.empty, .ofList [.int 1], 1⟩) :=
      congrArg Prod.snd (runOn_of_ends (.executed rfl rfl (.finished _ _ _)))
    exact ⟨_, h, rfl, (hgroups default [[push (.int 1)], []]).2.2 rfl _ h⟩

end Interpreter

end StackLang
