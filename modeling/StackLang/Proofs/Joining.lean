/-
Joining queues, whichever way is taken. A queue is read as the list of its arrows in order, each with the
types it goes between. There are four ways to join two queues: an empty one gives way to the other, on
either side; the second may be copied to the end of the first; and the first may be copied to the start of
the second, from its last arrow to its first. Emptiness, length and who else holds the queues decide which
way it is, and none of it shows in the result: it is always the arrows of the first queue followed by those
of the second.
-/
import StackLang.Proofs.Resume

namespace StackLang

variable {F : Type → Type → Type 1} {A B C : Type}

/-! ## Queues as lists -/

/-- An arrow and the types it goes between. -/
structure Link (F : Type → Type → Type 1) : Type 1 where
  {source : Type}
  {target : Type}
  arrow : F source target

/-- The arrows of a chain in order. -/
def Chain.toList {A B : Type} : Chain F A B → List (Link F)
  | .nil => []
  | .cons f c => ⟨f⟩ :: c.toList

/-- The arrows of a rear in order. -/
def Rear.toList {A B : Type} : Rear F B A → List (Link F)
  | .nil => []
  | .snoc r f => r.toList ++ [⟨f⟩]

/-- The arrows of a queue in order. -/
def Queue.toList : Queue F A C → List (Link F)
  | .mk _ front rear => front.toList ++ rear.toList

namespace Chain

theorem toList_append (c : Chain F A B) (d : Chain F B C) : (c.append d).toList = c.toList ++ d.toList := by
  induction c with
  | nil => rfl
  | cons f c ih => rw [append, toList, toList, ih, List.cons_append]

theorem length_toList (c : Chain F A B) : c.toList.length = c.length := by
  induction c with
  | nil => rfl
  | cons f c ih => rw [toList, length, List.length_cons, ih]

end Chain

theorem Rear.toList_toChain (r : Rear F B A) (c : Chain F B C) : (r.toChain c).toList = r.toList ++ c.toList := by
  induction r generalizing C with
  | nil => rfl
  | snoc r f ih => rw [toChain, ih, toList, Chain.toList, List.append_assoc, List.singleton_append]

namespace Queue

/-- The list of a queue is that of its chain, wherever the arrows stand. -/
theorem toList_toChain (q : Queue F A C) : q.toChain.toList = q.toList := by
  cases q with
  | mk hold front rear =>
    rw [toChain, toList, Chain.toList_append, Rear.toList_toChain, Chain.toList, List.append_nil]

theorem toList_held (hold : Hold) (q : Queue F A C) : (q.held hold).toList = q.toList := by
  rw [← toList_toChain, toChain_held, toList_toChain]

theorem length_toList (q : Queue F A C) : q.toList.length = q.length := by
  rw [← toList_toChain, Chain.length_toList, length_toChain]

/-! ## Joined queues -/

/-- The first queue is extended if it is held by nobody else and the second is, or if both are held alike and it
is the longer one. -/
theorem extendsFront_iff (front : Queue F A B) (back : Queue F B C) :
    front.extendsFront back = true ↔
      (front.hold = .unique ∧ back.hold = .shared) ∨ (front.hold = back.hold ∧ back.length < front.length) := by
  unfold extendsFront
  cases front.hold with
  | unique =>
    cases back.hold with
    | unique => simp [isShorter_iff]
    | shared => simp
  | shared =>
    cases back.hold with
    | unique => simp
    | shared => simp [isShorter_iff]

theorem Joins.toList_eq {front : Queue F A B} {back : Queue F B C} {q : Queue F A C} (h : Joins front back q) :
    q.toList = front.toList ++ back.toList := by
  rw [← toList_toChain, h.toChain_eq, Chain.toList_append, toList_toChain, toList_toChain]

/-- Joining two queues is concatenation on every path. Whoever else holds them, the arrows of the result are
those of the first queue in order and then those of the second in order, and as many as both have. The path
that is taken is one of four, each of which has this result on all queues it may be taken on: an empty queue
gives way to the other, the second is copied to the end of the first, or the first is copied to the start of
the second in reverse order. -/
theorem splice_concatenates (front : Queue F A B) (back : Queue F B C) :
    (∀ frontHold backHold,
      let q := (front.held frontHold).splice (back.held backHold)
      q.toList = front.toList ++ back.toList ∧ q.length = front.length + back.length ∧
      Joins (front.held frontHold) (back.held backHold) q) ∧
    ∀ q, Joins front back q →
      q.toList = front.toList ++ back.toList ∧ q.toChain = front.toChain.append back.toChain := by
  refine ⟨fun frontHold backHold => ?_, fun q h => ⟨h.toList_eq, h.toChain_eq⟩⟩
  intro q
  have h : Joins (front.held frontHold) (back.held backHold) q := joins_splice _ _
  have hlist : q.toList = front.toList ++ back.toList := by rw [h.toList_eq, toList_held, toList_held]
  refine ⟨hlist, ?_, h⟩
  rw [← length_toList, hlist, List.length_append, length_toList, length_toList]

/-- Two arrows and one: the first queue copied in reverse order to the start of the second, which happens if
only the first is held elsewhere, and the second copied to the end of the first, which happens if nobody else
holds them. -/
theorem splice_concatenates_two_and_one :
    let step (n : Int64) : Arrow Stack Stack := .next (.push (.int n))
    let front := (empty.pushBack (step 1)).pushBack (step 2)
    let back := empty.pushBack (step 3)
    (front.held .shared).splice back = front.extendBack back ∧ front.splice back = front.extendFront back ∧
    (Joins front back (front.extendBack back) ∧
      (front.extendBack back).toList = [⟨step 1⟩, ⟨step 2⟩, ⟨step 3⟩]) ∧
    (Joins front back (front.extendFront back) ∧
      (front.extendFront back).toList = (front.extendBack back).toList) := by
  intro step front back
  obtain ⟨-, hjoins⟩ := splice_concatenates front back
  have hback : Joins front back (front.extendBack back) := .extendBack front back
  have hfront : Joins front back (front.extendFront back) := .extendFront front back
  refine ⟨rfl, rfl, ⟨hback, (hjoins _ hback).1⟩, hfront, ?_⟩
  exact (hjoins _ hfront).1.trans (hjoins _ hback).1.symm

end Queue

end StackLang
