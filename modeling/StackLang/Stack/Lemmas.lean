/-
Stacks as lists, the top first: what the operations do to the list of a stack's values. And stacks by
their top: a stack is empty or has a value on top of another stack, and each operation is decided by
the one or two values it finds there.
-/
import StackLang.Stack

namespace StackLang.Stack

theorem toList_eq (s : Stack) : s.toList = s.items.toList.reverse := by
  simp only [toList, Array.toListRev_eq]

@[simp] theorem toList_empty : empty.toList = [] := by
  simp only [toList_eq, empty, List.reverse_nil]

@[simp] theorem toList_ofList (values : List Value) : (ofList values).toList = values := by
  simp only [toList_eq, ofList, List.reverse_reverse]

@[simp] theorem ofList_toList (s : Stack) : ofList s.toList = s := by
  cases s with
  | mk items => simp only [toList_eq, ofList, List.reverse_reverse, Array.toArray_toList]

@[simp] theorem length_toList (s : Stack) : s.toList.length = s.size := by
  simp only [toList_eq, List.length_reverse, Array.length_toList, size]

@[simp] theorem toList_push (s : Stack) (v : Value) : (s.push v).toList = v :: s.toList := by
  simp only [toList_eq, push, Array.toList_push, List.reverse_append, List.reverse_cons,
    List.reverse_nil, List.nil_append, List.cons_append]

theorem get?_eq (s : Stack) (depth : Nat) : s.get? depth = s.toList[depth]? := by
  unfold get?
  rw [toList_eq]
  split
  · rename_i h
    rw [List.getElem?_reverse (by simpa [size] using h), Array.getElem?_toList, Array.length_toList]
    rfl
  · rename_i h
    rw [List.getElem?_eq_none (by simpa [size] using h)]

/-! ## By the top -/

theorem ofList_cons (v : Value) (vs : List Value) : ofList (v :: vs) = (ofList vs).push v := by
  simp only [ofList, push, List.reverse_cons, List.push_toArray]

/-- A stack is empty or has a top. -/
@[elab_as_elim]
theorem topCases {motive : Stack → Prop} (empty : motive .empty) (push : ∀ s v, motive (push s v)) (s : Stack) :
    motive s := by
  rw [← ofList_toList s]
  cases s.toList with
  | nil => exact empty
  | cons v vs => rw [ofList_cons]; exact push (ofList vs) v

@[simp] theorem size_empty : empty.size = 0 := rfl

@[simp] theorem size_push (s : Stack) (v : Value) : (s.push v).size = s.size + 1 := Array.size_push ..

theorem exists_push {s : Stack} (h : 1 ≤ s.size) : ∃ (r : Stack) (v : Value), s = r.push v := by
  cases s using topCases with
  | empty => simp at h
  | push r v => exact ⟨r, v, rfl⟩

theorem exists_push_push {s : Stack} (h : 2 ≤ s.size) : ∃ (r : Stack) (w v : Value), s = (r.push w).push v := by
  obtain ⟨r, v, rfl⟩ := exists_push (by omega : 1 ≤ s.size)
  rw [size_push] at h
  obtain ⟨r, w, rfl⟩ := exists_push (by omega : 1 ≤ r.size)
  exact ⟨r, w, v, rfl⟩

section Push

variable (s : Stack) (v w : Value)

@[simp] theorem pop?_empty : empty.pop? = none := rfl

@[simp] theorem pop?_push : (s.push v).pop? = some (v, s) := by
  simp only [pop?, push, Array.back?_push, Array.pop_push]

@[simp] theorem dup?_empty : empty.dup? = none := rfl

@[simp] theorem dup?_push : (s.push v).dup? = some ((s.push v).push v) := by
  simp only [dup?, push, Array.back?_push]

theorem swap?_of_size_lt {s : Stack} (h : s.size < 2) : s.swap? = none := by
  unfold swap?
  exact dif_neg (by unfold size at h; omega)

@[simp] theorem swap?_push_push : ((s.push w).push v).swap? = some ((s.push v).push w) := by
  unfold swap?
  have h : 2 ≤ ((s.push w).push v).items.size := by simp [push]
  rw [dif_pos h]
  refine congrArg some (congrArg mk (Array.ext (by simp [push]) fun i hi _ => ?_))
  simp only [push, Array.size_swap, Array.size_push] at hi ⊢
  rw [Array.getElem_swap]
  simp only [Array.getElem_push]
  grind

end Push

end StackLang.Stack
