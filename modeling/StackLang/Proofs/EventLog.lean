/-
The log of an evaluation is faithful to it. An evaluation that ends has attempted some operations, each at
its step and on the live stack of that step; the log tells of each in order, with the size of the stack
just before it, and of the transform that is called, if one is; and it closes with one event that says
how the evaluation ended. There is nothing else in it but the remarks of the functions that were
called, and those of a silent program make none.
-/
import StackLang.Proofs.Composition
import StackLang.Proofs.Silence

namespace StackLang

variable {R : Type}

/-! ## Attempts -/

/-- An operation that an evaluation attempts, and the live stack just before it. -/
structure Attempt where
  operation : Operation
  stack : Stack

/-- What is attempted at a state: the operation the program is suspended on, if the limit permits it. -/
def Config.attempt? (limit : Option Nat) (c : Config R) : Option Attempt :=
  match c.program, limitReached limit c.steps with
  | .suspended op _, none => some ⟨op, c.stack⟩
  | _, _ => none

namespace Attempt

/-- The events of an attempt at a step. -/
def events (step : Nat) (a : Attempt) : List Event :=
  .executing step a.operation a.stack.size ::
    match a.operation with
    | .apply t => [.applying t a.stack.size]
    | _ => []

/-- The lines of the log about an attempt at a step. -/
def lines (step : Nat) (a : Attempt) : List String :=
  Event.line "TRACE" "Executing" [("step", Text.Numeral.text step), ("operation", a.operation.render),
      ("depth", Text.Numeral.text a.stack.size)] ::
    match a.operation with
    | .apply t => [Event.line "TRACE" "Applying transform" [("transform", t.describe),
        ("depth", Text.Numeral.text a.stack.size)]]
    | _ => []

theorem map_render_events (step : Nat) (a : Attempt) : (a.events step).map Event.render = a.lines step := by
  obtain ⟨op, s⟩ := a
  cases op with
  | apply t => rfl
  | push v | pop | dup | swap | add | mul => rfl

end Attempt

/-! ## Verdicts -/

namespace Verdict

/-- The number of operations that an evaluation with this verdict has attempted. -/
def attempts : Verdict R → Nat
  | .ok o => o.steps
  | .error ⟨.stepLimit _, step⟩ => step
  | .error ⟨_, step⟩ => step + 1

/-- The event that closes the log of an evaluation with this verdict. -/
def closing : Verdict R → Event
  | .ok o => .finished o.steps o.stack.size
  | .error ⟨.stepLimit l, _⟩ => .limitExceeded l
  | .error ⟨failure, step⟩ => .failed step failure

/-- The last line of the log of an evaluation with this verdict. -/
def closingLine : Verdict R → String
  | .ok o => Event.line "DEBUG" "Evaluation finished" [("steps", Text.Numeral.text o.steps),
      ("depth", Text.Numeral.text o.stack.size)]
  | .error ⟨.stepLimit l, _⟩ => Event.line "DEBUG" "Step limit exceeded" [("limit", Text.Numeral.text l)]
  | .error ⟨failure, step⟩ => Event.line "DEBUG" "Evaluation failed" [("step", Text.Numeral.text step),
      ("error", failure.message)]

theorem render_closing (v : Verdict R) : v.closing.render = v.closingLine := by
  cases v with
  | ok o => rfl
  | error e =>
    obtain ⟨failure, step⟩ := e
    cases failure with
    | underflow operation required found | typeMismatch operation found depth | transform name depth fault
    | stepLimit l => rfl

section Failed

variable {op : Operation} {s : Stack} {failure : Failure} (h : op.execute s = .error failure) (step : Nat)
include h

theorem attempts_of_execute : attempts (.error ⟨failure, step⟩ : Verdict R) = step + 1 := by
  cases failure with
  | underflow operation required found | typeMismatch operation found depth | transform name depth fault => rfl
  | stepLimit l => exact absurd h (op.execute_ne_stepLimit s l)

theorem closing_of_execute : closing (.error ⟨failure, step⟩ : Verdict R) = .failed step failure := by
  cases failure with
  | underflow operation required found | typeMismatch operation found depth | transform name depth fault => rfl
  | stepLimit l => exact absurd h (op.execute_ne_stepLimit s l)

end Failed

end Verdict

/-- The size of the stack that a failure reports: what was found there, or how deep it was. -/
def Failure.depth? : Failure → Option Nat
  | .underflow _ _ found => some found
  | .typeMismatch _ _ depth => some depth
  | .transform _ depth _ => some depth
  | .stepLimit _ => none

/-- The failure of arithmetic reports the size of the stack it was given. -/
theorem Operation.depth?_of_combine {op : Operation} {f : Number → Number → Number} {s : Stack} {failure : Failure}
    (h : op.combine f s = .error failure) : failure.depth? = some s.size := by
  unfold combine at h
  simp only at h
  repeat' split at h
  all_goals cases h
  all_goals rfl

/-- The failure of an operation reports the size of the stack it was given. -/
theorem Operation.depth?_of_execute {op : Operation} {s : Stack} {failure : Failure}
    (h : op.execute s = .error failure) : failure.depth? = some s.size := by
  cases op with
  | push v => cases h
  | add => exact depth?_of_combine h
  | mul => exact depth?_of_combine h
  | pop | dup | swap | apply t =>
    simp only [execute] at h
    split at h
    all_goals cases h
    all_goals rfl

/-! ## Logs -/

/-- Whether an event is a remark of a function that was called. -/
def Event.isRemark : Event → Bool
  | .remark _ => true
  | _ => false

/-- The events of a log without the remarks. -/
def withoutRemarks (events : List Event) : List Event := events.filter fun e => !e.isRemark

/-- The events of some attempts in order, the first of them at the given step. -/
def narrated (step : Nat) (attempts : List Attempt) : List Event :=
  (attempts.zipIdx step).flatMap fun (a, n) => a.events n

theorem narrated_cons (step : Nat) (a : Attempt) (attempts : List Attempt) :
    narrated step (a :: attempts) = a.events step ++ narrated (step + 1) attempts := by
  simp only [narrated, List.zipIdx_cons, List.flatMap_cons]

theorem withoutRemarks_append (l m : List Event) :
    withoutRemarks (l ++ m) = withoutRemarks l ++ withoutRemarks m := List.filter_append ..

theorem withoutRemarks_remarks (texts : List String) : withoutRemarks (texts.map .remark) = [] := by
  unfold withoutRemarks
  rw [List.filter_eq_nil_iff]
  intro e he
  obtain ⟨text, -, rfl⟩ := List.mem_map.1 he
  simp [Event.isRemark]

/-- Apart from the remarks, an operation gives rise to the events of its attempt. -/
theorem withoutRemarks_attempt (step : Nat) (op : Operation) (s : Stack) :
    withoutRemarks (.executing step op s.size :: op.events s) = Attempt.events step ⟨op, s⟩ := by
  cases op with
  | apply t =>
    have hr := withoutRemarks_remarks (t.remark s)
    show .executing step (.apply t) s.size :: .applying t s.size :: withoutRemarks ((t.remark s).map .remark) = _
    rw [hr]; rfl
  | push v | pop | dup | swap | add | mul => rfl

/-- A silent operation makes no remarks. -/
theorem withoutRemarks_executing {op : Operation} (h : op.Silent) (step : Nat) (s : Stack) :
    withoutRemarks (.executing step op s.size :: op.events s) = .executing step op s.size :: op.events s := by
  cases op with
  | apply t => rw [Operation.events, h s]; rfl
  | push v | pop | dup | swap | add | mul => rfl

namespace Config

variable {limit : Option Nat} {c : Config R} {events : List Event} {v : Verdict R}

/-- A silent program makes no remarks on the way. -/
theorem Ends.withoutRemarks_of_silent (h : c.Ends limit events v) (hc : c.program.Silent) :
    withoutRemarks events = events := by
  induction h with
  | finished r s n => rfl
  | exceeded hl => rfl
  | @failed op rest s n failure hl hx =>
    cases hc with
    | suspended hop hrest =>
      rw [withoutRemarks_append, withoutRemarks_executing hop]
      rfl
  | @executed op rest s after n later v hl hx _ ih =>
    cases hc with
    | suspended hop hrest =>
      rw [Queue.remarks_of_silent hrest, List.map_nil, List.append_nil, withoutRemarks_append,
        withoutRemarks_executing hop, ih (Queue.silent_resume hrest after)]

/-- An evaluation that ends has attempted an operation at each state on the way, and its log tells of them
in order and of its end; if it failed otherwise than by the limit, so did the last of these operations. -/
theorem Ends.exists_attempts (h : c.Ends limit events v) : ∃ attempts : List Attempt,
    (∀ n, attempts[n]? = (c.after limit n).bind (attempt? limit)) ∧
    c.steps + attempts.length = v.attempts ∧
    withoutRemarks events = narrated c.steps attempts ++ [v.closing] ∧
    ∀ e, v = .error e → (∀ l, e.failure ≠ .stepLimit l) →
      ∃ a, attempts.getLast? = some a ∧ a.operation.execute a.stack = .error e.failure := by
  induction h with
  | finished r s n =>
    refine ⟨[], fun k => ?_, rfl, rfl, by rintro _ ⟨⟩⟩
    cases k with
    | zero => rfl
    | succ k => rfl
  | @exceeded op rest s n l hl =>
    refine ⟨[], fun k => ?_, rfl, rfl, by rintro _ ⟨⟩ h; exact absurd rfl (h l)⟩
    cases k with
    | zero => simp [after, attempt?, hl]
    | succ k => simp [after, step, hl]
  | @failed op rest s n failure hl hx =>
    refine ⟨[⟨op, s⟩], fun k => ?_, ?_, ?_, by rintro _ ⟨⟩ _; exact ⟨_, rfl, hx⟩⟩
    · cases k with
      | zero => simp [after, attempt?, hl]
      | succ k => simp [after, step, hl, hx]
    · rw [Verdict.attempts_of_execute hx]; rfl
    · rw [withoutRemarks_append, withoutRemarks_attempt, Verdict.closing_of_execute hx]
      simp [narrated, withoutRemarks, Event.isRemark]
  | @executed op rest s t n later v hl hx _ ih =>
    obtain ⟨attempts, hat, hlen, hlog, hlast⟩ := ih
    refine ⟨⟨op, s⟩ :: attempts, fun k => ?_, ?_, ?_, fun e he hne => ?_⟩
    · cases k with
      | zero => simp [after, attempt?, hl]
      | succ k =>
        rw [(advances_of_execute hl hx).after_succ, List.getElem?_cons_succ]
        exact hat k
    · rw [← hlen, List.length_cons]; dsimp only; omega
    · rw [withoutRemarks_append, withoutRemarks_append, withoutRemarks_attempt, withoutRemarks_remarks,
        List.append_nil, hlog, narrated_cons, List.append_assoc]
    · obtain ⟨a, ha, hx⟩ := hlast e he hne
      exact ⟨a, by rw [List.getLast?_cons, ha]; rfl, hx⟩

end Config

namespace Interpreter

/-- The log of an evaluation that ends is faithful to it, from every stack and under every limit. The
operations it attempted are those of the states it came through; without the remarks of the functions that
were called, and hence as a whole if the program is silent, the log consists of the events of these
attempts, from step zero on, and of one event that closes it. The attempts are as many as the verdict
says, and a failure other than the limit's reports the size of the stack before the last of them. -/
theorem log_faithful (i : Interpreter) (s : Stack) (p : Program R) (log : Array Event) (v : Verdict R)
    (h : i.runOn s p = (log, some v)) :
    ∃ attempts : List Attempt,
      (∀ n, attempts[n]? = ((Config.start p s).after i.maxSteps n).bind (Config.attempt? i.maxSteps)) ∧
      attempts.length = v.attempts ∧
      withoutRemarks log.toList = narrated 0 attempts ++ [v.closing] ∧
      (p.Silent → log.toList = narrated 0 attempts ++ [v.closing] ∧
        log.toList.map Event.render = (attempts.zipIdx.flatMap fun (a, n) => a.lines n) ++ [v.closingLine]) ∧
      (∀ e, v = .error e → (∀ l, e.failure ≠ .stepLimit l) →
        ∃ a, attempts.getLast? = some a ∧ e.failure.depth? = some a.stack.size) := by
  obtain ⟨events, he⟩ := ends_of_runOn (congrArg Prod.snd h)
  rw [runOn_of_ends he] at h
  cases h
  obtain ⟨attempts, hat, hlen, hlog, hlast⟩ := he.exists_attempts
  refine ⟨attempts, hat, (Nat.zero_add _).symm.trans hlen, hlog, fun hp => ?_, fun e hv hne => ?_⟩
  · have hevents : events = narrated 0 attempts ++ [v.closing] :=
      (he.withoutRemarks_of_silent hp).symm.trans hlog
    refine ⟨hevents, ?_⟩
    rw [hevents, List.map_append, narrated, List.map_flatMap, List.map_singleton, Verdict.render_closing]
    simp only [Attempt.map_render_events]
  · obtain ⟨a, ha, hx⟩ := hlast e hv hne
    exact ⟨a, ha, Operation.depth?_of_execute hx⟩

open Program in
/-- A result that is mapped, a transform with a function bound to it, and an underflow at the end. -/
theorem log_faithful_failing :
    let t : Transform := .named "same" (.total id)
    let p := sequence [(push (.int 2)).map id, (apply t).bind fun _ => pop, pop]
    let log : Array Event := #[.executing 0 (.push (.int 2)) 0, .executing 1 (.apply t) 1, .applying t 1,
      .executing 2 .pop 1, .executing 3 .pop 0, .failed 3 (.underflow "pop" 1 0)]
    p.Silent ∧ default.runOn .empty p = (log, some (.error ⟨.underflow "pop" 1 0, 3⟩)) ∧
    ∃ attempts : List Attempt, attempts.length = 4 ∧
      log.toList = narrated 0 attempts ++ [.failed 3 (.underflow "pop" 1 0)] ∧
      ∃ a, attempts.getLast? = some a ∧ a.stack.size = 0 := by
  intro t p log
  have hp : p.Silent := by
    have hpush : (push (.int 2)).Silent := .suspend trivial
    refine .sequence fun q hq => ?_
    simp only [List.mem_cons, List.not_mem_nil, or_false] at hq
    rcases hq with rfl | rfl | rfl
    · exact hpush.map id
    · exact .bind (.suspend fun _ => rfl) fun _ => .suspend trivial
    · exact .suspend trivial
  have hr : default.runOn .empty p = (log, some (.error ⟨.underflow "pop" 1 0, 3⟩)) :=
    (runOn_of_ends (.executed rfl rfl (.executed rfl rfl (.executed rfl rfl (.failed rfl rfl))))).trans rfl
  obtain ⟨attempts, -, hlen, -, hlog, hlast⟩ := log_faithful default .empty p log _ hr
  obtain ⟨a, ha, hdepth⟩ := hlast _ rfl (by rintro _ ⟨⟩)
  exact ⟨hp, hr, attempts, hlen, (hlog hp).1, a, ha, (Option.some.inj hdepth).symm⟩

end Interpreter

end StackLang
