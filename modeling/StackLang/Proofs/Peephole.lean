/-
Replacing a few operations of a sequence by fewer ones. What stands between two programs of a sequence
counts by its effect alone, the stack it leaves and the operations it takes, or its error: its value is
forgotten. So a detour, which has the same effect on the stack it is given as a shorter way but for some
operations more, may be replaced by the shorter way between any two programs, and only the count of
operations tells. Pushing and popping a value, duplicating and popping the top, and swapping twice are
detours for doing nothing; swapping before a sum or a product is one for the sum or product alone, also
where an operand is no number. A stack that is too short for the detour stops it at its first operation.
-/
import StackLang.Proofs.Commutation
import StackLang.Proofs.Expression

namespace StackLang

variable {R : Type}

/-! ## Later counts -/

/-- The verdict with `k` operations more. -/
def Verdict.delayed (k : Nat) : Verdict R → Verdict R
  | .ok o => .ok { o with steps := o.steps + k }
  | .error e => .error { e with step := e.step + k }

theorem Verdict.after_none (n : Nat) (v : Verdict R) : v.after none n = v.delayed n := by
  cases v with
  | ok o => rw [after, delayed, Nat.add_comm]
  | error e => rw [after, delayed, Failure.under_none, Nat.add_comm]

theorem Verdict.delayed_delayed (k n : Nat) (v : Verdict R) : (v.delayed n).delayed k = v.delayed (n + k) := by
  cases v with
  | ok o => rw [delayed, delayed, delayed, Nat.add_assoc]
  | error e => rw [delayed, delayed, delayed, Nat.add_assoc]

namespace Interpreter

variable {i : Interpreter} {s : Stack} {p q : Program Stack} {xs ys : List (Program Stack)} {o : Outcome Stack} {k : Nat}

/-! ## Between two programs -/

/-- What a sequence comes to that has the given programs between two others. -/
def between (i : Interpreter) (s : Stack) (p : Program Stack) (xs : List (Program Stack)) (q : Program Stack) :
    Option (Verdict Stack) := (i.runOn s (.sequence (p :: xs ++ [q]))).2

/-- What comes of a program behind others of which only the effect is known. -/
def concluding (i : Interpreter) (q : Program Stack) : Except EvalError (Stack × Nat) → Option (Verdict Stack)
  | .ok (t, n) => (i.runOn t q).2.map (Verdict.delayed n)
  | .error e => some (.error e)

/-- Evaluating the first programs from a stack has the effect of evaluating the second ones, with `k` operations
more. -/
def Detour (i : Interpreter) (s : Stack) (k : Nat) (xs ys : List (Program Stack)) : Prop :=
  (i.runOn s (.sequence xs)).2.map Verdict.effect =
    (i.runOn s (.sequence ys)).2.map fun v => (v.delayed k).effect

theorem runOn_grouped (i : Interpreter) (s : Stack) (p q : Program Stack) (xs : List (Program Stack)) :
    (i.runOn s (.sequence [p, .sequence xs, q])).2 = i.between s p xs q := by
  have hlast : [[p], xs, [q]].getLast? ≠ some [] := by rintro ⟨⟩
  have hflat : [[p], xs, [q]].flatten = p :: xs ++ [q] := by
    simp only [List.flatten_cons, List.flatten_nil, List.append_nil, List.cons_append, List.nil_append]
  have hd := Program.denote_flatten hlast
  rw [hflat] at hd
  exact i.runOn_congr s hd

section Unlimited

variable (hi : i.maxSteps = none)
include hi

theorem run_denote_delayed (s : Stack) (p : Program R) (n : Nat) :
    p.denote.run none s n = (i.runOn s p).2.map (Verdict.delayed n) := by
  rw [run_denote hi]
  congr 1
  funext v
  exact v.after_none n

/-- Between two programs, programs count by their effect alone. -/
theorem between_eq (hp : (i.runOn s p).2 = some (.ok o)) (xs : List (Program Stack)) (q : Program Stack) :
    i.between s p xs q =
      ((i.runOn o.stack (.sequence xs)).2.map fun v => (v.delayed o.steps).effect).bind (i.concluding q) := by
  have hseq := (Threads.cons hp (.nil o.stack)).runOn_sequence hi (xs ++ [q])
  have hq : ∀ r, Program.inTurn [q] r = q.denote := fun r => Tree.bind_done_right _
  have hxs : ((Program.inTurn xs o.value).run none o.stack o.steps).map Verdict.effect =
      (i.runOn o.stack (.sequence xs)).2.map fun v => (v.delayed o.steps).effect := by
    rw [Tree.effect_congr (Program.skeleton_inTurn xs o.value .empty), ← Program.denote_sequence_inTurn,
      run_denote_delayed hi, Option.map_map]
    rfl
  refine hseq.trans ?_
  rw [← hxs, Option.bind_map, Program.inTurn_append, Tree.run_bind]
  congr 1
  funext v
  cases v with
  | error e => rfl
  | ok o' =>
    dsimp only
    rw [hq, run_denote_delayed hi]
    rfl

/-- Between two programs, a detour may be replaced by the shorter way. -/
theorem Detour.between_eq (h : i.Detour o.stack k xs ys) (hp : (i.runOn s p).2 = some (.ok o)) (q : Program Stack) :
    i.between s p xs q = (i.between s p ys q).map (Verdict.delayed k) := by
  rw [Interpreter.between_eq hi hp, Interpreter.between_eq hi hp]
  unfold Detour at h
  cases hy : (i.runOn o.stack (.sequence ys)).2 with
  | none =>
    rw [hy, Option.map_none, Option.map_eq_none_iff] at h
    rw [h]
    rfl
  | some v =>
    rw [hy] at h
    cases v with
    | ok o' =>
      obtain ⟨r, hx⟩ := Verdict.exists_of_effect_ok h
      have hn : o'.steps + k + o.steps = o'.steps + o.steps + k := by omega
      rw [hx]
      show (i.runOn o'.stack q).2.map (Verdict.delayed (o'.steps + k + o.steps)) =
        ((i.runOn o'.stack q).2.map (Verdict.delayed (o'.steps + o.steps))).map (Verdict.delayed k)
      rw [Option.map_map, hn]
      congr 1
      funext w
      exact (w.delayed_delayed k _).symm
    | error e =>
      have hn : e.step + k + o.steps = e.step + o.steps + k := by omega
      rw [Verdict.eq_of_effect_error h]
      show (some (.error ⟨e.failure, e.step + k + o.steps⟩) : Option (Verdict Stack)) =
        some (.error ⟨e.failure, e.step + o.steps + k⟩)
      rw [hn]

/-- Where the first operation between two programs finds the stack too short, the evaluation ends. -/
theorem between_underflow (op : Operation) (hp : (i.runOn s p).2 = some (.ok o))
    (h : o.stack.size < op.requiredDepth) (xs : List (Program Stack)) (q : Program Stack) :
    i.between s p (.suspend op :: xs) q = some (.error ⟨op.underflow o.stack.size, o.steps⟩) := by
  have hx := runOn_of_error hi (runOn_suspend_error hi (Operation.execute_of_size_lt h)) xs
  rw [between_eq hi hp, hx]
  show (some (.error ⟨_, 0 + o.steps⟩) : Option (Verdict Stack)) = _
  rw [Nat.zero_add]

theorem runOn_nil (s : Stack) : (i.runOn s (.sequence [])).2 = some (.ok ⟨.empty, s, 0⟩) :=
  Concludes.runOn_sequence hi (.succeeded (.nil s))

theorem between_nil (hp : (i.runOn s p).2 = some (.ok o)) (q : Program Stack) :
    i.between s p [] q = (i.runOn o.stack q).2.map (Verdict.delayed o.steps) := by
  rw [between_eq hi hp, runOn_nil hi]
  show (i.runOn o.stack q).2.map (Verdict.delayed (0 + o.steps)) = _
  rw [Nat.zero_add]

/-! ## Detours -/

/-- An operation that undoes another makes a detour of both. -/
theorem detour_undone {op op' : Operation} {t : Stack} (h : op.execute s = .ok t) (h' : op'.execute t = .ok s) :
    i.Detour s 2 [.suspend op, .suspend op'] [] := by
  rw [Detour, runOn_pair hi h h', runOn_nil hi]
  rfl

/-- An operation that the next one does not notice makes a detour. -/
theorem detour_unnoticed {op op' : Operation} {t : Stack} (h : op.execute s = .ok t)
    (h' : op'.execute t = op'.execute s) : i.Detour s 1 [.suspend op, .suspend op'] [.suspend op'] := by
  unfold Detour
  cases hx : op'.execute s with
  | ok u =>
    have hshort : (i.runOn s (.sequence [.suspend op'])).2 = some (.ok ⟨u, u, 1⟩) := runOn_suspend hi hx
    rw [runOn_pair hi h (h'.trans hx), hshort]
    rfl
  | error failure =>
    have hshort : (i.runOn s (.sequence [.suspend op'])).2 = some (.error ⟨failure, 0⟩) := runOn_suspend_error hi hx
    rw [runOn_pair_error hi h (h'.trans hx), hshort]
    rfl

theorem detour_push_pop (s : Stack) (v : Value) : i.Detour s 2 [.push v, .pop] [] :=
  detour_undone hi (Operation.execute_push s v) (Operation.execute_pop_push s v)

theorem detour_dup_pop (h : 1 ≤ s.size) : i.Detour s 2 [.dup, .pop] [] := by
  obtain ⟨r, v, rfl⟩ := Stack.exists_push h
  exact detour_undone hi (Operation.execute_dup_push r v) (Operation.execute_pop_push (r.push v) v)

theorem detour_swap_swap (h : 2 ≤ s.size) : i.Detour s 2 [.swap, .swap] [] := by
  obtain ⟨r, w, v, rfl⟩ := Stack.exists_push_push h
  exact detour_undone hi (Operation.execute_swap_push r v w) (Operation.execute_swap_push r w v)

/-- Sums and products do not notice a swap: numbers commute, and a value that is no number is blamed for being
a text, whichever of the two it is. -/
theorem detour_swap_arith (a : Arith) (h : 2 ≤ s.size) : i.Detour s 1 [.swap, a.program] [a.program] := by
  obtain ⟨r, w, v, rfl⟩ := Stack.exists_push_push h
  have hcomm : a.operation.execute ((r.push v).push w) = a.operation.execute ((r.push w).push v) := by
    cases a with
    | plus => exact Operation.combine_swap Number.add_comm r v w
    | times => exact Operation.combine_swap Number.mul_comm r v w
  rw [a.program_eq]
  exact detour_unnoticed hi (Operation.execute_swap_push r v w) hcomm

end Unlimited

/-- Peephole rewrites are sound between any two programs. If the first program fails, what comes after it does
not matter. If it succeeds, pushing and popping a value, duplicating and popping the top of a stack that has
one, and swapping the top two values twice may be left out: the value, the live stack and the failure stay,
and there are two operations fewer. Swapping before a sum or a product may be left out likewise, one
operation fewer, whether the values are numbers or not. On a stack too short for them, these end the
evaluation at their first operation, where without them it goes on with the last program, or ends at the
sum or product. Nor does it matter whether they are a sequence of their own. -/
theorem runOn_peephole {i : Interpreter} (hi : i.maxSteps = none) (s : Stack) (p q : Program Stack) :
    (∀ e, (i.runOn s p).2 = some (.error e) → ∀ xs, i.between s p xs q = some (.error e)) ∧
    (∀ o, (i.runOn s p).2 = some (.ok o) →
      i.between s p [] q = (i.runOn o.stack q).2.map (Verdict.delayed o.steps) ∧
      (∀ v, i.between s p [.push v, .pop] q = (i.between s p [] q).map (Verdict.delayed 2)) ∧
      (1 ≤ o.stack.size → i.between s p [.dup, .pop] q = (i.between s p [] q).map (Verdict.delayed 2)) ∧
      (2 ≤ o.stack.size →
        i.between s p [.swap, .swap] q = (i.between s p [] q).map (Verdict.delayed 2) ∧
        i.between s p [.swap, .add] q = (i.between s p [.add] q).map (Verdict.delayed 1) ∧
        i.between s p [.swap, .mul] q = (i.between s p [.mul] q).map (Verdict.delayed 1)) ∧
      (o.stack.size < 1 → i.between s p [.dup, .pop] q = some (.error ⟨.underflow "dup" 1 o.stack.size, o.steps⟩)) ∧
      (o.stack.size < 2 →
        (∀ x, i.between s p [.swap, x] q = some (.error ⟨.underflow "swap" 2 o.stack.size, o.steps⟩)) ∧
        i.between s p [.add] q = some (.error ⟨.underflow "add" 2 o.stack.size, o.steps⟩) ∧
        i.between s p [.mul] q = some (.error ⟨.underflow "mul" 2 o.stack.size, o.steps⟩))) ∧
    ∀ xs, (i.runOn s (.sequence [p, .sequence xs, q])).2 = i.between s p xs q := by
  refine ⟨fun e hp xs => runOn_of_error hi hp (xs ++ [q]), fun o hp => ?_, i.runOn_grouped s p q⟩
  refine ⟨between_nil hi hp q, fun v => (detour_push_pop hi o.stack v).between_eq hi hp q,
    fun h => (detour_dup_pop hi h).between_eq hi hp q, fun h => ⟨?_, ?_, ?_⟩,
    fun h => between_underflow hi .dup hp h [.pop] q, fun h => ⟨fun x => ?_, ?_, ?_⟩⟩
  · exact (detour_swap_swap hi h).between_eq hi hp q
  · exact (detour_swap_arith hi .plus h).between_eq hi hp q
  · exact (detour_swap_arith hi .times h).between_eq hi hp q
  · exact between_underflow hi .swap hp h [x] q
  · exact between_underflow hi .add hp h [] q
  · exact between_underflow hi .mul hp h [] q

open Program in
/-- A program that fails; one that leaves a text and a number, with a detour for a sum that fails, one for doing
nothing and one that uses the values in turn; and a stack without values. -/
theorem runOn_peephole_each_way :
    let p := sequence [push (.str "x"), push (.int 2)]
    ((default.runOn .empty pop).2 = some (.error ⟨.underflow "pop" 1 0, 0⟩) ∧
      default.between .empty pop [push (.int 1), pop] dup = default.between .empty pop [] dup) ∧
    ((default.runOn .empty p).2 = some (.ok ⟨.ofList [.int 2, .str "x"], .ofList [.int 2, .str "x"], 2⟩) ∧
      default.between .empty p [swap, add] dup = some (.error ⟨.typeMismatch "add" .str 2, 3⟩) ∧
      default.between .empty p [add] dup = some (.error ⟨.typeMismatch "add" .str 2, 2⟩) ∧
      default.between .empty p [swap, swap] pop = some (.ok ⟨.ofList [.str "x"], .ofList [.str "x"], 5⟩) ∧
      default.between .empty p [dup, pop] pop = default.between .empty p [push (.int 7), pop] pop) ∧
    default.between .empty (.done .empty) [dup, pop] (push (.int 1)) = some (.error ⟨.underflow "dup" 1 0, 0⟩) := by
  intro p
  refine ⟨?_, ?_, ?_⟩
  · have hp : (default.runOn .empty pop).2 = some (.error ⟨.underflow "pop" 1 0, 0⟩) :=
      congrArg Prod.snd (runOn_of_ends (.failed rfl rfl))
    obtain ⟨herror, -, -⟩ := runOn_peephole (i := default) rfl .empty pop dup
    exact ⟨hp, (herror _ hp _).trans (herror _ hp _).symm⟩
  · have hp : (default.runOn .empty p).2 = some (.ok ⟨.ofList [.int 2, .str "x"], .ofList [.int 2, .str "x"], 2⟩) :=
      congrArg Prod.snd (runOn_of_ends (.executed rfl rfl (.executed rfl rfl (.finished _ _ _))))
    have hadd : default.between .empty p [add] dup = some (.error ⟨.typeMismatch "add" .str 2, 2⟩) :=
      congrArg Prod.snd (runOn_of_ends (.executed rfl rfl (.executed rfl rfl (.failed rfl rfl))))
    have hpop : default.between .empty p [] pop = some (.ok ⟨.ofList [.str "x"], .ofList [.str "x"], 3⟩) :=
      congrArg Prod.snd (runOn_of_ends
        (.executed rfl rfl (.executed rfl rfl (.executed rfl rfl (.finished _ _ _)))))
    have hsum := (runOn_peephole (i := default) rfl .empty p dup).2.1 _ hp
    obtain ⟨-, hpush, hdup, htwo, -, -⟩ := (runOn_peephole (i := default) rfl .empty p pop).2.1 _ hp
    refine ⟨hp, ?_, hadd, ?_, ?_⟩
    · exact (hsum.2.2.2.1 (by decide)).2.1.trans (congrArg (Option.map (Verdict.delayed 1)) hadd)
    · exact (htwo (by decide)).1.trans (congrArg (Option.map (Verdict.delayed 2)) hpop)
    · exact (hdup (by decide)).trans (hpush (.int 7)).symm
  · have hp : (default.runOn .empty (done Stack.empty)).2 = some (.ok ⟨.empty, .empty, 0⟩) :=
      congrArg Prod.snd (runOn_of_ends (.finished _ _ _))
    exact ((runOn_peephole (i := default) rfl .empty (done .empty) (push (.int 1))).2.1 _ hp).2.2.2.2.1 (by decide)

end Interpreter

end StackLang
