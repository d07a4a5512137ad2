/-
Joining two queues. The arrows of one are copied into the other: at the end of the first queue, or at
the start of the second in reverse order. A queue that nobody else holds is the one to extend; if
that does not decide, the longer one is. Every way gives the arrows of the first queue followed by
those of the second.
-/
import StackLang.Queue.Basic

namespace StackLang

namespace Queue

variable {F : Type → Type → Type 1}

/-- Adds the arrows of a chain at the end, one by one. -/
def pushChain {A B C : Type} : Queue F A B → Chain F B C → Queue F A C
  | q, .nil => q
  | q, .cons f c => (q.pushBack f).pushChain c

/-- Adds the arrows of a rear at the start, the last one first. -/
def pushRear {A B C : Type} : Rear F B A → Queue F B C → Queue F A C
  | .nil, q => q
  | .snoc r f, q => pushRear r (q.pushFront f)

variable {A B C : Type}

/-- Copies the second queue to the end of the first. -/
def extendFront (front : Queue F A B) : Queue F B C → Queue F A C
  | .mk _ chain rear => (front.pushChain chain).pushChain (rear.toChain .nil)

/-- Copies the first queue to the start of the second, in reverse order. -/
def extendBack : Queue F A B → Queue F B C → Queue F A C
  | .mk _ chain rear, back => pushRear (Chain.toRear .nil chain) (pushRear rear back)

/-- Whether the first of two queues is the one to extend. -/
def extendsFront (front : Queue F A B) (back : Queue F B C) : Bool :=
  match front.hold, back.hold with
  | .unique, .shared => true
  | .shared, .unique => false
  | _, _ => back.isShorter front.length

/-- The arrows of the first queue followed by those of the second. -/
def splice (front : Queue F A B) (back : Queue F B C) : Queue F A C :=
  match front with
  | .mk _ .nil .nil => back
  | front =>
    match back with
    | .mk _ .nil .nil => front
    | back => if front.extendsFront back then front.extendFront back else front.extendBack back

end Queue

end StackLang
