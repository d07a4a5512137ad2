/-
The evaluations that end, as a relation: a derivation has one rule for each way in which a transition
can go, and carries the events and the verdict. The loop returns exactly what is derivable, so that
every property of evaluations is an induction with four cases. What happens on the way, also in an
evaluation that does not end, is said by the states it reaches and the operations it attempts.
-/
import Mathlib.Logic.Relation
import StackLang.Evaluation.Interpreter

namespace StackLang

variable {R : Type}

namespace Config

/-- The evaluations that end, with their events and verdicts: by a result, by the limit, by a failure, or
by what follows an operation. -/
inductive Ends (limit : Option Nat) : Config R → List Event → Verdict R → Prop where
  | finished (r : R) (s : Stack) (n : Nat) :
      Ends limit ⟨.done r, s, n⟩ [.finished n s.size] (.ok ⟨r, s, n⟩)
  | exceeded {op : Operation} {rest : Queue Arrow Stack R} {s : Stack} {n l : Nat}
      (hl : limitReached limit n = some l) :
      Ends limit ⟨.suspended op rest, s, n⟩ [.limitExceeded l] (.error ⟨.stepLimit l, n⟩)
  | failed {op : Operation} {rest : Queue Arrow Stack R} {s : Stack} {n : Nat} {failure : Failure}
      (hl : limitReached limit n = none) (hx : op.execute s = .error failure) :
      Ends limit ⟨.suspended op rest, s, n⟩ (.executing n op s.size :: op.events s ++ [.failed n failure])
        (.error ⟨failure, n⟩)
  | executed {op : Operation} {rest : Queue Arrow Stack R} {s after : Stack} {n : Nat} {later : List Event}
      {v : Verdict R} (hl : limitReached limit n = none) (hx : op.execute s = .ok after)
      (h : Ends limit ⟨rest.resume after, after, n + 1⟩ later v) :
      Ends limit ⟨.suspended op rest, s, n⟩
        (.executing n op s.size :: op.events s ++ (rest.feed after).remarks.map .remark ++ later) v

/-! ## The loop -/

theorem append_append_list (xs : Array Event) (l m : List Event) : xs ++ l ++ m = xs ++ (l ++ m) := by
  apply Array.toList_inj.1
  rw [Array.toList_appendList, Array.toList_appendList, Array.toList_appendList, List.append_assoc]

theorem run_of_ends {limit : Option Nat} {c : Config R} {events : List Event} {v : Verdict R}
    (h : c.Ends limit events v) (log : Array Event) : c.run limit log = some (log ++ events, v) := by
  induction h generalizing log with
  | finished r s n => rw [run]; simp only [step, Array.appendList_eq_append]
  | exceeded hl => rw [run]; simp only [step, hl, Array.appendList_eq_append]
  | failed hl hx => rw [run]; simp only [step, hl, hx, Array.appendList_eq_append]
  | executed hl hx _ ih =>
    rw [run]
    simp only [step, hl, hx, Array.appendList_eq_append]
    exact (ih _).trans (by rw [append_append_list])

theorem ends_of_run {limit : Option Nat} {c : Config R} {log log' : Array Event} {v : Verdict R}
    (h : c.run limit log = some (log', v)) : ∃ events, c.Ends limit events v ∧ log' = log ++ events := by
  -- fixpoint induction: one turn of the loop is one rule, and `ih` speaks for the turns that follow
  refine run.partial_correctness limit
    (fun c log r => ∃ events, c.Ends limit events r.2 ∧ r.1 = log ++ events) ?_ c log (log', v) h
  rintro run ih ⟨p, s, n⟩ log ⟨log', v⟩ h
  cases p with
  | done r => cases h; exact ⟨_, .finished r s n, Array.appendList_eq_append⟩
  | suspended op rest =>
    simp only [step] at h
    cases hl : limitReached limit n with
    | some l =>
      rw [hl] at h
      cases h; exact ⟨_, .exceeded hl, Array.appendList_eq_append⟩
    | none =>
      rw [hl] at h
      cases hx : op.execute s with
      | error failure =>
        rw [hx] at h
        cases h; exact ⟨_, .failed hl hx, Array.appendList_eq_append⟩
      | ok after =>
        rw [hx] at h
        obtain ⟨later, hlater, hlog⟩ := ih _ _ _ h
        rw [Array.appendList_eq_append, append_append_list] at hlog
        exact ⟨_, .executed hl hx hlater, hlog⟩

end Config

/-! ## On the way -/

namespace Config

/-- The evaluation goes on from a state to the next one. -/
def Advances (limit : Option Nat) (c c' : Config R) : Prop := (c.step limit).2 = .running c'

/-- The states that an evaluation comes through. -/
def Reaches (limit : Option Nat) : Config R → Config R → Prop := Relation.ReflTransGen (Advances limit)

/-- An evaluation goes on only by executing an operation that the limit permits. -/
theorem Advances.executed {limit : Option Nat} {c c' : Config R} (h : c.Advances limit c') :
    ∃ op rest after, c.program = .suspended op rest ∧ limitReached limit c.steps = none ∧
      op.execute c.stack = .ok after ∧ c' = ⟨rest.resume after, after, c.steps + 1⟩ := by
  obtain ⟨p, s, n⟩ := c
  unfold Advances at h
  cases p with
  | done r => cases h
  | suspended op rest =>
    simp only [step] at h
    cases hl : limitReached limit n with
    | some l => rw [hl] at h; cases h
    | none =>
      rw [hl] at h
      cases hx : op.execute s with
      | error failure => rw [hx] at h; cases h
      | ok after => rw [hx] at h; cases h; exact ⟨op, rest, after, rfl, rfl, hx, rfl⟩

theorem advances_of_execute {limit : Option Nat} {op : Operation} {rest : Queue Arrow Stack R} {s after : Stack} {n : Nat}
    (hl : limitReached limit n = none) (hx : op.execute s = .ok after) :
    Advances limit ⟨.suspended op rest, s, n⟩ ⟨rest.resume after, after, n + 1⟩ := by
  simp only [Advances, step, hl, hx]
  rfl

/-- An evaluation halts because the program is done, because the limit is reached or because the operation
fails. -/
theorem halted_cases {limit : Option Nat} {c : Config R} {v : Verdict R} (h : (c.step limit).2 = .halted v) :
    (∃ r, c.program = .done r ∧ v = .ok ⟨r, c.stack, c.steps⟩) ∨
    (∃ op rest l, c.program = .suspended op rest ∧ limitReached limit c.steps = some l ∧
      v = .error ⟨.stepLimit l, c.steps⟩) ∨
    (∃ op rest failure, c.program = .suspended op rest ∧ limitReached limit c.steps = none ∧
      op.execute c.stack = .error failure ∧ v = .error ⟨failure, c.steps⟩) := by
  obtain ⟨p, s, n⟩ := c
  cases p with
  | done r => cases h; exact .inl ⟨r, rfl, rfl⟩
  | suspended op rest =>
    simp only [step] at h
    cases hl : limitReached limit n with
    | some l => rw [hl] at h; cases h; exact .inr (.inl ⟨op, rest, l, rfl, rfl, rfl⟩)
    | none =>
      rw [hl] at h
      cases hx : op.execute s with
      | error failure => rw [hx] at h; cases h; exact .inr (.inr ⟨op, rest, failure, rfl, rfl, hx, rfl⟩)
      | ok after => rw [hx] at h; cases h

/-- The state after `n` more operations, if the evaluation gets that far. -/
def after (limit : Option Nat) : Nat → Config R → Option (Config R)
  | 0, c => some c
  | n + 1, c =>
    match (c.step limit).2 with
    | .running next => after limit n next
    | .halted _ => none

section After

variable {limit : Option Nat} {c c' d : Config R} {n : Nat} {v : Verdict R}

theorem Advances.after_succ (h : c.Advances limit c') : c.after limit (n + 1) = c'.after limit n := by
  unfold Advances at h
  simp only [after, h]

theorem after_succ_of_halted (h : (c.step limit).2 = .halted v) : c.after limit (n + 1) = none := by
  simp only [after, h]

theorem exists_advances_of_after (h : c.after limit (n + 1) = some d) :
    ∃ c', c.Advances limit c' ∧ c'.after limit n = some d := by
  cases hs : (c.step limit).2 with
  | running c' => exact ⟨c', hs, (Advances.after_succ hs).symm.trans h⟩
  | halted v => rw [after_succ_of_halted hs] at h; cases h

theorem steps_of_after (h : c.after limit n = some d) : d.steps = c.steps + n := by
  induction n generalizing c with
  | zero => cases h; rfl
  | succ n ih =>
    obtain ⟨c', hc, h⟩ := exists_advances_of_after h
    obtain ⟨op, rest, after, -, -, -, rfl⟩ := hc.executed
    have hd := ih h
    dsimp only at hd
    omega

theorem Ends.exists_after {events : List Event} (h : c.Ends limit events v) :
    ∃ n d, c.after limit n = some d ∧ (d.step limit).2 = .halted v := by
  induction h with
  | finished r s n => exact ⟨0, _, rfl, rfl⟩
  | exceeded hl => exact ⟨0, _, rfl, by simp only [step, hl]⟩
  | failed hl hx => exact ⟨0, _, rfl, by simp only [step, hl, hx]⟩
  | executed hl hx _ ih =>
    obtain ⟨k, d, hk, hd⟩ := ih
    exact ⟨k + 1, d, (advances_of_execute hl hx).after_succ.trans hk, hd⟩

theorem ends_of_after (h : c.after limit n = some d) (hd : (d.step limit).2 = .halted v) :
    ∃ events, c.Ends limit events v := by
  induction n generalizing c with
  | zero =>
    cases h
    obtain ⟨p, s, k⟩ := d
    rcases halted_cases hd with ⟨r, rfl, rfl⟩ | ⟨op, rest, l, rfl, hl, rfl⟩ | ⟨op, rest, failure, rfl, hl, hx, rfl⟩
    · exact ⟨_, .finished r s k⟩
    · exact ⟨_, .exceeded hl⟩
    · exact ⟨_, .failed hl hx⟩
  | succ n ih =>
    obtain ⟨c', hc, h⟩ := exists_advances_of_after h
    obtain ⟨p, s, k⟩ := c
    obtain ⟨op, rest, t, rfl, hl, hx, rfl⟩ := hc.executed
    obtain ⟨later, hlater⟩ := ih h
    exact ⟨_, .executed hl hx hlater⟩

end After

end Config

/-- The operation whose execution an event announces. -/
def Event.operation? : Event → Option Operation
  | .executing _ op _ => some op
  | _ => none

/-- The operations that an evaluation attempted, in order, as its events tell. -/
def attempted (events : List Event) : List Operation := events.filterMap Event.operation?

section Attempted

variable {op : Operation} {s : Stack} {n : Nat} {later : List Event}

theorem attempted_remarks (texts : List String) : attempted (texts.map .remark ++ later) = attempted later := by
  induction texts with
  | nil => rfl
  | cons text texts ih => exact ih

theorem attempted_events : attempted (op.events s ++ later) = attempted later := by
  cases op with
  | apply t => exact attempted_remarks (t.remark s)
  | push v | pop | dup | swap | add | mul => rfl

@[simp] theorem attempted_failed {failure : Failure} :
    attempted (.executing n op s.size :: op.events s ++ [.failed n failure]) = [op] :=
  congrArg (op :: ·) attempted_events

@[simp] theorem attempted_executed (texts : List String) :
    attempted (.executing n op s.size :: op.events s ++ texts.map .remark ++ later) = op :: attempted later := by
  rw [List.append_assoc]
  exact congrArg (op :: ·) (attempted_events.trans (attempted_remarks texts))

end Attempted

/-! ## Interpreters -/

namespace Interpreter

variable {i : Interpreter} {s : Stack} {p : Program R} {v : Verdict R}

theorem runOn_of_ends {events : List Event} (h : (Config.start p s).Ends i.maxSteps events v) :
    i.runOn s p = (events.toArray, some v) := by
  have he : (#[] : Array Event) ++ events = events.toArray :=
    Array.toList_inj.1 (by rw [Array.toList_appendList, List.nil_append])
  unfold runOn
  rw [Config.run_of_ends h, he]

theorem ends_of_runOn (h : (i.runOn s p).2 = some v) :
    ∃ events, (Config.start p s).Ends i.maxSteps events v := by
  unfold runOn at h
  split at h
  · rename_i log verdict hr
    cases h
    obtain ⟨events, he, -⟩ := Config.ends_of_run hr
    exact ⟨events, he⟩
  · cases h

theorem runOn_eq_some_iff :
    (i.runOn s p).2 = some v ↔ ∃ events, (Config.start p s).Ends i.maxSteps events v := by
  constructor
  · exact ends_of_runOn
  · rintro ⟨events, h⟩; rw [runOn_of_ends h]

/-- The verdict of an evaluation is that of the state at which it halts. -/
theorem runOn_eq_some_iff_after : (i.runOn s p).2 = some v ↔
    ∃ n c, (Config.start p s).after i.maxSteps n = some c ∧ (c.step i.maxSteps).2 = .halted v := by
  rw [runOn_eq_some_iff]
  constructor
  · rintro ⟨events, h⟩; exact h.exists_after
  · rintro ⟨n, c, h, hc⟩; exact Config.ends_of_after h hc

end Interpreter

end StackLang
