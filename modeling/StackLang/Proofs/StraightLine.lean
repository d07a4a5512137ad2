/-
Straight lines of operations. Whatever the binds and branches of a program, the live stack is changed
by the operations it attempts and by nothing else: the straight line of these operations, in order and
with nothing in between, leaves the same stack after the same count, or fails alike. On a straight
line an evaluation is the fold of executing its operations, and its value is the stack they leave.
-/
import StackLang.Proofs.Sequence

namespace StackLang

variable {R : Type}

/-! ## Executing one operation after the other -/

namespace Operation

/-- Executes operations on a stack, one after the other, up to the first that fails. -/
def executeAll (ops : List Operation) (s : Stack) : Except Failure Stack := ops.foldlM (fun t op => op.execute t) s

variable {op : Operation} {ops : List Operation} {s t : Stack} {failure : Failure}

theorem executeAll_cons (h : op.execute s = .ok t) : executeAll (op :: ops) s = executeAll ops t := by
  rw [executeAll, List.foldlM_cons, h]; rfl

theorem executeAll_cons_error (h : op.execute s = .error failure) : executeAll (op :: ops) s = .error failure := by
  rw [executeAll, List.foldlM_cons, h]; rfl

theorem executeAll_concat {u : Stack} (h : executeAll ops s = .ok t) (hop : op.execute t = .ok u) :
    executeAll (ops ++ [op]) s = .ok u := by
  unfold executeAll at h ⊢
  rw [List.foldlM_append, h]
  exact executeAll_cons hop

/-- Operations fail by one of them that fails on what those before it leave. -/
theorem exists_of_executeAll_error (h : executeAll ops s = .error failure) :
    ∃ pre op post t, ops = pre ++ op :: post ∧ executeAll pre s = .ok t ∧ op.execute t = .error failure := by
  induction ops generalizing s with
  | nil => cases h
  | cons op ops ih =>
    cases hx : op.execute s with
    | error f =>
      rw [executeAll_cons_error hx] at h
      cases h; exact ⟨[], op, ops, s, rfl, rfl, hx⟩
    | ok t =>
      rw [executeAll_cons hx] at h
      obtain ⟨pre, op', post, u, rfl, hpre, hf⟩ := ih h
      exact ⟨op :: pre, op', post, u, rfl, (executeAll_cons hx).trans hpre, hf⟩

end Operation

/-! ## Straight lines -/

/-- The program of some operations in order. -/
def Program.straightLine (ops : List Operation) : Program Stack := .sequence (ops.map .suspend)

namespace Interpreter

section Unlimited

variable {i : Interpreter} (hi : i.maxSteps = none) {op : Operation} {ops : List Operation} {s t : Stack}
  {failure : Failure}
include hi

theorem runOn_suspend (h : op.execute s = .ok t) : (i.runOn s (.suspend op)).2 = some (.ok ⟨t, t, 1⟩) :=
  congrArg Prod.snd (runOn_of_ends (.executed (by rw [hi]; rfl) h (.finished t t 1)))

theorem runOn_suspend_error (h : op.execute s = .error failure) :
    (i.runOn s (.suspend op)).2 = some (.error ⟨failure, 0⟩) :=
  congrArg Prod.snd (runOn_of_ends (.failed (by rw [hi]; rfl) h))

/-- Operations that succeed do so in turn as programs, and each has the stack it leaves as its value. -/
theorem threads_suspend (h : Operation.executeAll ops s = .ok t) :
    ∃ os, i.Threads s (ops.map .suspend) os ∧ lastStack s os = t ∧ totalSteps os = ops.length ∧
      ∀ r, lastValue r os = if ops.isEmpty then r else t := by
  induction ops generalizing s with
  | nil => cases h; exact ⟨[], .nil t, rfl, rfl, fun _ => rfl⟩
  | cons op ops ih =>
    cases hx : op.execute s with
    | error f => rw [Operation.executeAll_cons_error hx] at h; cases h
    | ok u =>
      rw [Operation.executeAll_cons hx] at h
      obtain ⟨os, hos, hs, hn, hv⟩ := ih h
      refine ⟨⟨u, u, 1⟩ :: os, .cons (runOn_suspend hi hx) hos, by rw [lastStack_cons, hs], ?_, fun r => ?_⟩
      · rw [totalSteps_cons, hn, List.length_cons, Nat.add_comm]
      · rw [lastValue_cons, hv]
        -- the last operation's value is the stack it leaves, whether others follow or not
        cases ops with
        | nil => cases h; rfl
        | cons op' ops => rfl

theorem runOn_straightLine_ok (h : Operation.executeAll ops s = .ok t) :
    (i.runOn s (.straightLine ops)).2 = some (.ok ⟨if ops.isEmpty then .empty else t, t, ops.length⟩) := by
  obtain ⟨os, hos, hs, hn, hv⟩ := threads_suspend hi h
  have hr := Concludes.runOn_sequence hi (.succeeded hos)
  rw [hs, hn, hv] at hr
  exact hr

theorem runOn_straightLine_error {pre : List Operation} (h : Operation.executeAll pre s = .ok t)
    (hx : op.execute t = .error failure) (post : List Operation) :
    (i.runOn s (.straightLine (pre ++ op :: post))).2 = some (.error ⟨failure, pre.length⟩) := by
  obtain ⟨os, hos, rfl, hn, -⟩ := threads_suspend hi h
  rw [Program.straightLine, List.map_append, List.map_cons, ← hn]
  exact Concludes.runOn_sequence hi (.failed hos (runOn_suspend_error hi hx))

theorem runOn_pair {op op' : Operation} {t u : Stack} (h : op.execute s = .ok t) (h' : op'.execute t = .ok u) :
    (i.runOn s (.sequence [.suspend op, .suspend op'])).2 = some (.ok ⟨u, u, 2⟩) := by
  have hx : Operation.executeAll [op, op'] s = .ok u :=
    (Operation.executeAll_cons h).trans (Operation.executeAll_cons h')
  exact runOn_straightLine_ok hi hx

theorem runOn_pair_error {op op' : Operation} {t : Stack} {failure : Failure} (h : op.execute s = .ok t)
    (h' : op'.execute t = .error failure) :
    (i.runOn s (.sequence [.suspend op, .suspend op'])).2 = some (.error ⟨failure, 1⟩) := by
  have hx : Operation.executeAll [op] s = .ok t := Operation.executeAll_cons h
  exact runOn_straightLine_error hi hx h' []

end Unlimited

end Interpreter

/-! ## The operations of an evaluation -/

namespace Config.Ends

variable {limit : Option Nat} {c : Config R} {events : List Event}

/-- The operations that a successful evaluation attempts lead from its first stack to its last. -/
theorem executeAll_ok {o : Outcome R} (h : c.Ends limit events (.ok o)) :
    Operation.executeAll (attempted events) c.stack = .ok o.stack ∧ c.steps + (attempted events).length = o.steps := by
  generalize hv : (Except.ok o : Verdict R) = v at h
  induction h with
  | finished r s n => cases hv; exact ⟨rfl, rfl⟩
  | exceeded hl => cases hv
  | failed hl hx => cases hv
  | executed hl hx _ ih =>
    obtain ⟨he, hn⟩ := ih hv
    rw [attempted_executed, List.length_cons]
    exact ⟨(Operation.executeAll_cons hx).trans he, by dsimp only at hn ⊢; omega⟩

/-- Of the operations that a failed evaluation without a limit attempts, the last one fails, on the stack to
which the others lead. -/
theorem executeAll_error {e : EvalError} (h : c.Ends none events (.error e)) :
    ∃ pre op t, attempted events = pre ++ [op] ∧ Operation.executeAll pre c.stack = .ok t ∧
      op.execute t = .error e.failure ∧ c.steps + pre.length = e.step := by
  generalize hv : (Except.error e : Verdict R) = v at h
  induction h with
  | finished r s n => cases hv
  | exceeded hl => cases hl
  | @failed op rest s n failure hl hx =>
    cases hv
    exact ⟨[], op, s, attempted_failed, rfl, hx, rfl⟩
  | @executed op rest s after n later v hl hx _ ih =>
    obtain ⟨pre, op', t, ha, hpre, hf, hn⟩ := ih hv
    refine ⟨op :: pre, op', t, ?_, (Operation.executeAll_cons hx).trans hpre, hf, ?_⟩
    · rw [attempted_executed, ha, List.cons_append]
    · rw [List.length_cons]; dsimp only at hn ⊢; omega

end Config.Ends

namespace Interpreter

variable {i : Interpreter} {s : Stack} {p : Program R} {log : Array Event}

theorem attempted_of_runOn_ok {o : Outcome R} (h : i.runOn s p = (log, some (.ok o))) :
    Operation.executeAll (attempted log.toList) s = .ok o.stack ∧ (attempted log.toList).length = o.steps := by
  obtain ⟨events, he⟩ := ends_of_runOn (congrArg Prod.snd h)
  rw [runOn_of_ends he] at h
  cases h
  obtain ⟨hx, hn⟩ := he.executeAll_ok
  exact ⟨hx, (Nat.zero_add _).symm.trans hn⟩

theorem attempted_of_runOn_error (hi : i.maxSteps = none) {e : EvalError}
    (h : i.runOn s p = (log, some (.error e))) :
    ∃ pre op t, attempted log.toList = pre ++ [op] ∧ Operation.executeAll pre s = .ok t ∧
      op.execute t = .error e.failure ∧ pre.length = e.step := by
  obtain ⟨events, he⟩ := ends_of_runOn (congrArg Prod.snd h)
  rw [runOn_of_ends he] at h
  cases h
  rw [hi] at he
  obtain ⟨pre, op, t, ha, hpre, hf, hn⟩ := he.executeAll_error
  exact ⟨pre, op, t, ha, hpre, hf, (Nat.zero_add _).symm.trans hn⟩

/-- Every evaluation without a limit that ends is as good as the straight line of the operations it
attempted, which are those it executed and the one that failed, if one did: the line leaves the same
stack after the same count, or has the same error. And on every straight line the evaluation is the fold
of executing its operations: it ends with the stack they leave, which is its value too if there are any,
or with the failure of the first that fails, at its place in the line. -/
theorem runOn_straightLine (initial s : Stack) :
    (∀ {R : Type} (p : Program R) (log : Array Event) (v : Verdict R),
      (startingAt initial).runOn s p = (log, some v) →
        ((startingAt initial).runOn s (.straightLine (attempted log.toList))).2.map Verdict.effect = some v.effect ∧
        (∀ o, v = .ok o → (attempted log.toList).length = o.steps) ∧
        (∀ e, v = .error e → (attempted log.toList).length = e.step + 1)) ∧
    (∀ ops t, Operation.executeAll ops s = .ok t →
      ((startingAt initial).runOn s (.straightLine ops)).2 =
        some (.ok ⟨if ops.isEmpty then .empty else t, t, ops.length⟩)) ∧
    (∀ ops failure, Operation.executeAll ops s = .error failure →
      ∃ pre op post t, ops = pre ++ op :: post ∧ Operation.executeAll pre s = .ok t ∧
        op.execute t = .error failure ∧
        ((startingAt initial).runOn s (.straightLine ops)).2 = some (.error ⟨failure, pre.length⟩)) := by
  refine ⟨fun p log v h => ?_, fun ops t h => runOn_straightLine_ok rfl h, fun ops failure h => ?_⟩
  · cases v with
    | ok o =>
      obtain ⟨hx, hn⟩ := attempted_of_runOn_ok h
      refine ⟨?_, by rintro _ ⟨⟩; exact hn, by rintro _ ⟨⟩⟩
      rw [runOn_straightLine_ok rfl hx, hn]
      rfl
    | error e =>
      obtain ⟨pre, op, t, ha, hpre, hf, hn⟩ := attempted_of_runOn_error rfl h
      rw [ha]
      refine ⟨?_, by rintro _ ⟨⟩, ?_⟩
      · rw [runOn_straightLine_error rfl hpre hf, hn]
        rfl
      · rintro _ ⟨⟩
        rw [List.length_append, hn, List.length_singleton]
  · obtain ⟨pre, op, post, t, rfl, hpre, hf⟩ := Operation.exists_of_executeAll_error h
    exact ⟨pre, op, post, t, rfl, hpre, hf, runOn_straightLine_error rfl hpre hf post⟩

open Program in
/-- A program that looks at the stack and goes on by it, and whose value is a size, against the two
operations it executes; these on their own; and a line whose second operation fails. -/
theorem runOn_straightLine_of_branch :
    let branch := ((push (.int 2)).bind fun s => if s.size = 1 then dup else pop).map Stack.size
    let log : Array Event := #[.executing 0 (.push (.int 2)) 0, .executing 1 .dup 1, .finished 2 2]
    let pair := Stack.ofList [.int 2, .int 2]
    ((startingAt .empty).runOn .empty branch = (log, some (.ok ⟨2, pair, 2⟩)) ∧
      ((startingAt .empty).runOn .empty (straightLine (attempted log.toList))).2.map Verdict.effect =
        some (.ok (pair, 2))) ∧
    (Operation.executeAll [.push (.int 2), .dup] .empty = .ok pair ∧
      ((startingAt .empty).runOn .empty (straightLine [.push (.int 2), .dup])).2 = some (.ok ⟨pair, pair, 2⟩)) ∧
    (Operation.executeAll [.push (.int 2), .swap, .dup] .empty = .error (.underflow "swap" 2 1) ∧
      ∃ k, ((startingAt .empty).runOn .empty (straightLine [.push (.int 2), .swap, .dup])).2 =
        some (.error ⟨.underflow "swap" 2 1, k⟩)) := by
  intro branch log pair
  obtain ⟨hprogram, hline, hfailing⟩ := runOn_straightLine .empty .empty
  have hb : (startingAt .empty).runOn .empty branch = (log, some (.ok ⟨2, pair, 2⟩)) :=
    (runOn_of_ends (.executed rfl rfl (.executed rfl rfl (.finished _ _ _)))).trans rfl
  refine ⟨⟨hb, (hprogram branch log _ hb).1⟩, ⟨rfl, hline _ pair rfl⟩, rfl, ?_⟩
  obtain ⟨pre, op, post, t, -, -, -, h⟩ := hfailing [.push (.int 2), .swap, .dup] (.underflow "swap" 2 1) rfl
  exact ⟨pre.length, h⟩

end Interpreter

end StackLang
