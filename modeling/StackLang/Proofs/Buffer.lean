/-
The buffer of a stack against the list of its values. The buffer has the bottom first; read backwards it is
a list with the top first. Every call on the stack is the plain operation on that list, so that any calls in
turn return the same and leave the same, and whatever is asked of the stack is answered as by the list. The
indices that are computed for it, counted from the end of the buffer, never fall below zero and never leave
the buffer.
-/
import StackLang.Stack.Lemmas

namespace StackLang.Stack

/-- The buffer read backwards: the values, the top first. -/
def values (s : Stack) : List Value := s.items.toList.reverse

theorem values_eq (s : Stack) : s.values = s.toList := s.toList_eq.symm

/-! ## What a stack shows -/

theorem toListRev_eq (s : Stack) : s.toListRev = s.toList.reverse := by
  rw [toList_eq, List.reverse_reverse]
  rfl

theorem isEmpty_eq (s : Stack) : s.isEmpty = s.toList.isEmpty := by
  cases s using topCases with
  | empty => rfl
  | push r v =>
    rw [toList_push]
    exact Array.isEmpty_push

theorem top?_eq (s : Stack) : s.top? = s.toList.head? := by
  cases s using topCases with
  | empty => rfl
  | push r v =>
    rw [toList_push]
    exact Array.back?_push

/-- The text of values, the top first: their literals between brackets, with a comma between each two. -/
def text (vs : List Value) : String := "[" ++ ", ".intercalate (vs.map Value.render) ++ "]"

theorem render_eq (s : Stack) : s.render = text s.toList := by
  have hliterals : (s.toList.map Value.render).map String.toList = s.toList.map Value.literal := by
    rw [List.map_map]
    exact List.map_congr_left fun v _ => String.toList_ofList
  apply String.toList_inj.1
  rw [render, text, String.toList_ofList, String.toList_append, String.toList_append, String.toList_intercalate,
    hliterals]
  rfl

/-! ## Indices -/

/-- The difference of two numbers, if there is one. -/
def difference? (m n : Nat) : Option Nat := if n ≤ m then some (m - n) else none

theorem difference?_of_le {m n : Nat} (h : n ≤ m) : difference? m n = some (m - n) := if_pos h

/-- The value at a depth, by indices that have to exist: there is no result if a difference falls below zero or an
index lies outside of the buffer. -/
def indexedGet? (s : Stack) (depth : Nat) : Option (Option Value) :=
  if depth < s.size then do
    let last ← difference? s.size 1
    let i ← difference? last depth
    let v ← s.items[i]?
    return some v
  else some none

/-- The exchange of the top two values, by indices that have to exist. -/
def indexedSwap? (s : Stack) : Option (Option Stack) :=
  if s.size < 2 then some none
  else do
    let i ← difference? s.size 1
    let j ← difference? s.size 2
    let items ← if h : i < s.items.size ∧ j < s.items.size then some (s.items.swap i j h.1 h.2) else none
    return some ⟨items⟩

theorem indexedGet?_eq (s : Stack) (depth : Nat) : s.indexedGet? depth = some (s.get? depth) := by
  unfold indexedGet? get?
  split
  · rename_i h
    have hi : s.size - 1 - depth < s.items.size := by unfold size at h ⊢; omega
    simp only [difference?_of_le (by omega : 1 ≤ s.size), difference?_of_le (by omega : depth ≤ s.size - 1),
      Array.getElem?_eq_getElem hi, Option.bind_eq_bind, Option.bind_some, Option.pure_def]
  · rfl

theorem indexedSwap?_eq (s : Stack) : s.indexedSwap? = some s.swap? := by
  unfold indexedSwap? swap?
  by_cases h : s.size < 2
  · rw [if_pos h, dif_neg (by unfold size at h; omega)]
  · have hij : s.size - 1 < s.items.size ∧ s.size - 2 < s.items.size := by unfold size at h ⊢; omega
    rw [if_neg h, dif_pos (by unfold size at h; omega)]
    simp only [difference?_of_le (by omega : 1 ≤ s.size), difference?_of_le (by omega : 2 ≤ s.size), dif_pos hij,
      Option.bind_eq_bind, Option.bind_some, Option.pure_def]
    rfl

/-! ## Calls -/

/-- The calls that change a stack. -/
inductive Action where
  | push (v : Value)
  | pop
  | dup
  | swap

/-- What a call on a stack returns, if it returns anything: the value that it takes off, if it is a call that
does, and the stack that it leaves. -/
def Action.onStack : Action → Stack → Option (Option Value × Stack)
  | .push v, s => some (none, s.push v)
  | .pop, s => s.pop?.map fun (v, r) => (some v, r)
  | .dup, s => s.dup?.map fun r => (none, r)
  | .swap, s => s.swap?.map fun r => (none, r)

/-- The same call on a list, the top first. -/
def Action.onList : Action → List Value → Option (Option Value × List Value)
  | .push v, vs => some (none, v :: vs)
  | .pop, v :: vs => some (some v, vs)
  | .dup, v :: vs => some (none, v :: v :: vs)
  | .swap, v :: w :: vs => some (none, w :: v :: vs)
  | .pop, [] | .dup, [] | .swap, [] | .swap, [_] => none

/-- Performs calls in turn, a call that returns nothing leaving the state as it was: what each of them returned, and
the state after the last. -/
def perform {σ : Type} (call : Action → σ → Option (Option Value × σ)) :
    List Action → σ → List (Option (Option Value)) × σ
  | [], s => ([], s)
  | a :: actions, s =>
    match call a s with
    | none => (perform call actions s).map (none :: ·) id
    | some (answer, r) => (perform call actions r).map (some answer :: ·) id

/-- One call on a stack is the call on its list. -/
theorem Action.onStack_eq (a : Action) (s : Stack) :
    (a.onStack s).map (Prod.map id toList) = a.onList s.toList := by
  cases s using topCases with
  | empty =>
    cases a with
    | push v => simp [onStack, onList]
    | pop | dup | swap => rfl
  | push r v =>
    cases a with
    | push w => simp [onStack, onList]
    | pop => simp [onStack, onList]
    | dup => simp [onStack, onList]
    | swap =>
      cases r using topCases with
      | empty => rfl
      | push r w => simp [onStack, onList]

/-- Calls in turn on a stack are the calls on its list. -/
theorem perform_eq (actions : List Action) (s : Stack) :
    (perform Action.onStack actions s).map id toList = perform Action.onList actions s.toList := by
  induction actions generalizing s with
  | nil => rfl
  | cons a actions ih =>
    have hstep := a.onStack_eq s
    simp only [perform]
    cases h : a.onStack s with
    | none =>
      rw [h] at hstep
      rw [← hstep]
      simp only [Option.map_none, ← ih]
      rfl
    | some result =>
      obtain ⟨answer, r⟩ := result
      rw [h] at hstep
      rw [← hstep]
      simp only [Option.map_some, Prod.map_apply, id_eq, ← ih]
      rfl

theorem pop?_eq_none_iff {s : Stack} : s.pop? = none ↔ s.toList = [] := by
  cases s using topCases with
  | empty => simp
  | push r v => simp

theorem dup?_eq_none_iff {s : Stack} : s.dup? = none ↔ s.toList = [] := by
  cases s using topCases with
  | empty => simp
  | push r v => simp

theorem swap?_eq_none_iff {s : Stack} : s.swap? = none ↔ s.toList.length < 2 := by
  rw [length_toList]
  constructor
  · intro h
    rcases Nat.lt_or_ge s.size 2 with hs | hs
    · exact hs
    · obtain ⟨r, w, v, rfl⟩ := exists_push_push hs
      simp at h
  · exact swap?_of_size_lt

/-- A stack answers for a list of values, the top first: its buffer read backwards is the list, what is asked of the
stack is answered as by the list, calls are refused where the list is too short, and all indices exist. -/
structure Represents (s : Stack) (vs : List Value) : Prop where
  values : s.values = vs
  size : s.size = vs.length
  isEmpty : s.isEmpty = vs.isEmpty
  top : s.top? = vs.head?
  get : ∀ depth, s.get? depth = vs[depth]?
  toList : s.toList = vs
  toListRev : s.toListRev = vs.reverse
  render : s.render = text vs
  pop : s.pop? = none ↔ vs = []
  dup : s.dup? = none ↔ vs = []
  swap : s.swap? = none ↔ vs.length < 2
  indexedGet : ∀ depth, s.indexedGet? depth = some (s.get? depth)
  indexedSwap : s.indexedSwap? = some s.swap?

theorem represents_toList (s : Stack) : s.Represents s.toList where
  values := s.values_eq
  size := s.length_toList.symm
  isEmpty := s.isEmpty_eq
  top := s.top?_eq
  get := s.get?_eq
  toList := rfl
  toListRev := s.toListRev_eq
  render := s.render_eq
  pop := pop?_eq_none_iff
  dup := dup?_eq_none_iff
  swap := swap?_eq_none_iff
  indexedGet := s.indexedGet?_eq
  indexedSwap := s.indexedSwap?_eq

/-- From the stack of any values, any calls in turn return what they return on the list of the values, and after
them, and so after each of them, the stack answers for the list that they leave. A stack is built from its
values again, and the values are those it was built from. -/
theorem simulates_list :
    (∀ (xs : List Value) (actions : List Action),
      (perform Action.onStack actions (ofList xs)).1 = (perform Action.onList actions xs).1 ∧
      (perform Action.onStack actions (ofList xs)).2.Represents (perform Action.onList actions xs).2) ∧
    (∀ s, ofList s.toList = s) ∧ ∀ xs, (ofList xs).toList = xs := by
  refine ⟨fun xs actions => ?_, ofList_toList, toList_ofList⟩
  have h := perform_eq actions (ofList xs)
  rw [toList_ofList] at h
  rw [← h]
  exact ⟨rfl, represents_toList _⟩

example : perform Action.onStack [.swap, .dup, .pop, .pop, .pop] (ofList [.int 1]) =
    ([none, some none, some (some (.int 1)), some (some (.int 1)), none], .empty) := by decide

end StackLang.Stack
