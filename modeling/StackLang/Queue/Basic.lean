/-
Queues of arrows that fit together. An arrow of a family `F` goes from one type to another, and a
queue from `A` to `C` holds arrows of which the first starts at `A`, each starts where the one before
it ends, and the last ends at `C`; the empty queue goes from a type to itself. Arrows are added at
either end in constant time: the front is a chain that starts with the first arrow, the rear one
that ends with the last. A queue may be in use in several places; whoever adds an arrow then goes on
with a queue of their own.
-/

namespace StackLang

/-- Arrows from `A` to `C`, the first one outermost. -/
inductive Chain (F : Type → Type → Type 1) : Type → Type → Type 1 where
  | nil {A : Type} : Chain F A A
  | cons {A B C : Type} (first : F A B) (rest : Chain F B C) : Chain F A C

/-- Arrows to `C` from `A`, the last one outermost. The end comes first among the indices. -/
inductive Rear (F : Type → Type → Type 1) : Type → Type → Type 1 where
  | nil {A : Type} : Rear F A A
  | snoc {A B C : Type} (before : Rear F B A) (last : F B C) : Rear F C A

/-- Whether a queue is also in use elsewhere. -/
inductive Hold where
  | unique
  | shared
  deriving DecidableEq, Repr

/-- A queue of arrows from `A` to `C`: those of the front, followed by those of the rear. -/
inductive Queue (F : Type → Type → Type 1) : Type → Type → Type 1 where
  | mk {A B C : Type} (hold : Hold) (front : Chain F A B) (rear : Rear F C B) : Queue F A C

variable {F : Type → Type → Type 1}

namespace Chain

/-- The arrows of one chain followed by those of another. -/
def append {A B C : Type} : Chain F A B → Chain F B C → Chain F A C
  | .nil, d => d
  | .cons f c, d => .cons f (c.append d)

/-- The number of arrows. -/
def length {A B : Type} : Chain F A B → Nat
  | .nil => 0
  | .cons _ c => c.length + 1

/-- The number of arrows, counted on from `n`. -/
def lengthFrom {A B : Type} (n : Nat) : Chain F A B → Nat
  | .nil => n
  | .cons _ c => c.lengthFrom (n + 1)

/-- How many arrows there are too few to make `n`. -/
def missing {A B : Type} : Nat → Chain F A B → Nat
  | 0, _ => 0
  | n + 1, .nil => n + 1
  | n + 1, .cons _ c => c.missing n

/-- The arrows of a rear followed by those of a chain, as a rear. -/
def toRear {A B C : Type} : Rear F B A → Chain F B C → Rear F C A
  | r, .nil => r
  | r, .cons f c => toRear (.snoc r f) c

end Chain

namespace Rear

/-- The arrows of a rear followed by those of a chain, as a chain. -/
def toChain {A B C : Type} : Rear F B A → Chain F B C → Chain F A C
  | .nil, c => c
  | .snoc r f, c => r.toChain (.cons f c)

/-- The number of arrows, counted on from `n`. -/
def lengthFrom {A B : Type} (n : Nat) : Rear F B A → Nat
  | .nil => n
  | .snoc r _ => r.lengthFrom (n + 1)

/-- How many arrows there are too few to make `n`. -/
def missing {A B : Type} : Nat → Rear F B A → Nat
  | 0, _ => 0
  | n + 1, .nil => n + 1
  | n + 1, .snoc r _ => r.missing n

end Rear

namespace Queue

variable {A B C : Type}

/-- The queue without arrows. -/
def empty : Queue F A A := .mk .unique .nil .nil

/-- Whether the queue is also in use elsewhere. -/
def hold : Queue F A C → Hold
  | .mk hold _ _ => hold

/-- The queue, held in the given way. -/
def held (hold : Hold) : Queue F A C → Queue F A C
  | .mk _ front rear => .mk hold front rear

/-- The arrows of a queue in order. -/
def toChain : Queue F A C → Chain F A C
  | .mk _ front rear => front.append (rear.toChain .nil)

/-- The number of arrows. -/
def length : Queue F A C → Nat
  | .mk _ front rear => rear.lengthFrom (front.lengthFrom 0)

/-- Whether there are fewer than `n` arrows. Counting goes no further than it has to. -/
def isShorter (n : Nat) : Queue F A C → Bool
  | .mk _ front rear => 0 < rear.missing (front.missing n)

/-- Whether there are no arrows. -/
def isEmpty : Queue F A C → Bool
  | .mk _ .nil .nil => true
  | _ => false

/-- Adds an arrow at the end. -/
def pushBack : Queue F A B → F B C → Queue F A C
  | .mk _ front rear, f => .mk .unique front (.snoc rear f)

/-- Adds an arrow at the start. -/
def pushFront : F A B → Queue F B C → Queue F A C
  | f, .mk _ front rear => .mk .unique (.cons f front) rear

end Queue

end StackLang
