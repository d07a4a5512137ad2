/-
Executing an operation, by the top of the stack. A stack with fewer values than the operation needs is
an underflow, whatever the values are. On a stack that is deep enough, every operation but the
application of a transform is decided by the one or two values on top: it replaces them and leaves the
rest alone, and it fails only where arithmetic meets a value that is no number.
-/
import StackLang.Operation.Execute
import StackLang.Stack.Lemmas

namespace StackLang

@[simp] theorem Number.toNumber?_toValue (x : Number) : x.toValue.toNumber? = some x := by
  cases x with
  | int n | float x => rfl

/-- Only texts may fail to be numbers. -/
theorem Value.kind_of_toNumber?_eq_none {v : Value} (h : v.toNumber? = none) : v.kind = .str := by
  cases v with
  | int n | float x | bool b => cases h
  | str s => rfl

namespace Operation

/-- Whether an operation applies a transform, and so may do anything to the stack. -/
def isApply : Operation → Bool
  | .apply _ => true
  | _ => false

variable {op : Operation} {f : Number → Number → Number} {s : Stack} {v w : Value} {x y : Number}

/-! ## Arithmetic -/

theorem combine_of_size_lt (h : s.size < 2) : op.combine f s = .error (op.underflow s.size) := by
  unfold combine
  cases s using Stack.topCases with
  | empty => rfl
  | push r v =>
    cases r using Stack.topCases with
    | empty => simp only [Stack.pop?_push, Stack.pop?_empty]
    | push r w => simp only [Stack.size_push] at h; omega

theorem combine_of_numbers (hv : v.toNumber? = some x) (hw : w.toNumber? = some y) :
    op.combine f ((s.push w).push v) = .ok (s.push (f x y).toValue) := by
  simp only [combine, Stack.pop?_push, hv, hw]

/-- Of the two values on top, the first that is no number is blamed; it is a text, whichever it is. -/
theorem combine_of_str (h : v.toNumber? = none ∨ w.toNumber? = none) :
    op.combine f ((s.push w).push v) = .error (.typeMismatch op.name .str (s.size + 2)) := by
  cases hv : v.toNumber? with
  | none =>
    simp only [combine, Stack.pop?_push, hv, Stack.size_push, Value.kind_of_toNumber?_eq_none hv]
  | some x =>
    have hw : w.toNumber? = none := h.resolve_left (by rw [hv]; rintro ⟨⟩)
    simp only [combine, Stack.pop?_push, hv, hw, Stack.size_push, Value.kind_of_toNumber?_eq_none hw]

/-- Where the numbers may be exchanged, so may the values. -/
theorem combine_swap (hf : ∀ x y, f x y = f y x) (s : Stack) (v w : Value) :
    op.combine f ((s.push v).push w) = op.combine f ((s.push w).push v) := by
  by_cases h : v.toNumber? = none ∨ w.toNumber? = none
  · rw [combine_of_str h, combine_of_str h.symm]
  · obtain ⟨hv, hw⟩ := not_or.1 h
    obtain ⟨x, hx⟩ := Option.ne_none_iff_exists'.1 hv
    obtain ⟨y, hy⟩ := Option.ne_none_iff_exists'.1 hw
    rw [combine_of_numbers hx hy, combine_of_numbers hy hx, hf]

/-! ## Every operation -/

@[simp] theorem execute_push (s : Stack) (v : Value) : (Operation.push v).execute s = .ok (s.push v) := rfl

@[simp] theorem execute_pop_push (s : Stack) (v : Value) : Operation.pop.execute (s.push v) = .ok s := by
  simp only [execute, Stack.pop?_push]

@[simp] theorem execute_dup_push (s : Stack) (v : Value) :
    Operation.dup.execute (s.push v) = .ok ((s.push v).push v) := by
  simp only [execute, Stack.dup?_push]

@[simp] theorem execute_swap_push (s : Stack) (v w : Value) :
    Operation.swap.execute ((s.push w).push v) = .ok ((s.push v).push w) := by
  simp only [execute, Stack.swap?_push_push]

theorem execute_add (s : Stack) : Operation.add.execute s = Operation.add.combine Number.add s := rfl

theorem execute_mul (s : Stack) : Operation.mul.execute s = Operation.mul.combine Number.mul s := rfl

/-- A stack too short for an operation is an underflow, before anything else is looked at. -/
theorem execute_of_size_lt (h : s.size < op.requiredDepth) : op.execute s = .error (op.underflow s.size) := by
  cases op with
  | push v => simp [requiredDepth] at h
  | apply t => simp [requiredDepth] at h
  | pop =>
    cases s using Stack.topCases with
    | empty => rfl
    | push r v => simp [requiredDepth] at h
  | dup =>
    cases s using Stack.topCases with
    | empty => rfl
    | push r v => simp [requiredDepth] at h
  | swap => simp only [execute, Stack.swap?_of_size_lt h]
  | add => exact combine_of_size_lt h
  | mul => exact combine_of_size_lt h

theorem requiredDepth_le (h : op.execute s ≠ .error (op.underflow s.size)) : op.requiredDepth ≤ s.size := by
  rcases Nat.lt_or_ge s.size op.requiredDepth with hs | hs
  · exact absurd (execute_of_size_lt hs) h
  · exact hs

end Operation

end StackLang
