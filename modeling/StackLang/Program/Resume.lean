/-
Resuming a suspended program. A value is fed to the first arrow, its result to the second, and so on
until an arrow suspends; then the queue of that program is spliced in front of the arrows that are
left. If no arrow suspends, the program is done with the result of the last one.
-/
import StackLang.Program.Basic
import StackLang.Queue.Splice

namespace StackLang

/-- What feeding a value to a chain comes to: the result of the last arrow, or the first program that
suspends, with the arrows behind it. -/
inductive Feed (R : Type) : Type 1 where
  | finished (result : R)
  | paused {B : Type} (operation : Operation) (inner : Queue Arrow Stack B) (rest : Chain Arrow B R)

/-- What resuming a program comes to: the remarks of the functions that are called on the way, in order, and
the program that is left. -/
structure Resumption (R : Type) where
  remarks : List String
  program : Program R

/-- Feeds a value to the arrows of a chain, one after the other. The remarks of the arrows that are called
are added to those of `said`, which has the latest first. -/
def Chain.feed {A B : Type} : List String → Chain Arrow A B → A → List String × Feed B
  | said, .nil, a => (said, .finished a)
  | said, .cons f rest, a =>
    let said := (f.remarks a).reverse ++ said
    match f.run a with
    | .done b => rest.feed said b
    | .suspended op inner => (said, .paused op inner rest)

namespace Queue

variable {A R : Type}

/-- Feeds a value to the arrows of a queue. Once an arrow is taken from it, the queue is nobody else's. -/
def feed : Queue Arrow A R → A → Resumption R
  | .mk _ front rear, a =>
    match front.feed [] a with
    | (said, .paused op inner rest) => ⟨said.reverse, .suspended op (inner.splice (.mk .unique rest rear))⟩
    | (said, .finished b) =>
      -- the rear is turned into a chain only when the front is used up
      match (rear.toChain .nil).feed said b with
      | (said, .paused op inner rest) => ⟨said.reverse, .suspended op (inner.splice (.mk .unique rest .nil))⟩
      | (said, .finished r) => ⟨said.reverse, .done r⟩

/-- The rest of a program after its operation left the stack `s`. -/
def resume (q : Queue Arrow Stack R) (s : Stack) : Program R := (q.feed s).program

end Queue

end StackLang
