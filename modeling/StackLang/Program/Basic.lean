/-
Programs as data. A program is done with a result, or suspended on an operation; the queue behind the
operation turns the stack that it leaves into the rest of the program. Building a program executes
nothing. `map`, `bind` and `andThen` add one arrow to the queue of a suspended program; on a program
that is done the first two call their function at once and the last is just the next program.
-/
import StackLang.Operation.Basic
import StackLang.Queue.Basic

namespace StackLang

mutual

/-- A program with a result of type `R`. -/
inductive Program : Type → Type 1 where
  /-- There is nothing left to execute. -/
  | done {R : Type} (result : R) : Program R
  /-- An operation to execute, and the arrows from the stack it leaves to the result. -/
  | suspended {R : Type} (operation : Operation) (rest : Queue Arrow Stack R) : Program R

/-- One part of what remains: it takes what the part before it produced. -/
inductive Arrow : Type → Type → Type 1 where
  /-- Calls a function, with its remarks for the evaluation log. -/
  | call {A B : Type} (remark : A → List String) (k : A → Program B) : Arrow A B
  /-- Goes on with a program, whatever came before. -/
  | next {A B : Type} (program : Program B) : Arrow A B
  /-- Takes another turn of a loop. -/
  | loop {A B : Type} (body : A → Turn A B) : Arrow A B

/-- The decision of a loop: it stops with a result, or it executes an operation and goes on with what
the queue makes of the stack. -/
inductive Turn : Type → Type → Type 1 where
  | stop {A B : Type} (result : B) : Turn A B
  | again {A B : Type} (operation : Operation) (rest : Queue Arrow Stack A) : Turn A B

end

variable {A B R S : Type}

/-- A copy of a program. The queue behind its operation is then in use elsewhere too. -/
def Program.share : Program R → Program R
  | .done r => .done r
  | .suspended op rest => .suspended op (rest.held .shared)

/-- What an arrow makes of a value. A program that it goes on with stays where it is, to be copied each time. -/
def Arrow.run : Arrow A B → A → Program B
  | .call _ k, a => k a
  | .next p, _ => p.share
  | .loop body, a =>
    match body a with
    | .stop b => .done b
    | .again op rest => .suspended op (rest.pushBack (.loop body))

/-- What the evaluation log says when an arrow is called. -/
def Arrow.remarks : Arrow A B → A → List String
  | .call remark _, a => remark a
  | .next _, _ => []
  | .loop _, _ => []

/-- A turn that runs a program; if that is done already, the loop stops with `f` of its result. -/
def Turn.ofProgram (f : A → B) : Program A → Turn A B
  | .done a => .stop (f a)
  | .suspended op rest => .again op rest

namespace Program

/-! ## One operation -/

/-- The program of one operation; its result is the stack the operation leaves. -/
def suspend (op : Operation) : Program Stack := .suspended op .empty

/-- Puts a value on the stack. -/
def push (v : Value) : Program Stack := suspend (.push v)

/-- Removes the top value. -/
def pop : Program Stack := suspend .pop

/-- Duplicates the top value. -/
def dup : Program Stack := suspend .dup

/-- Exchanges the top two values. -/
def swap : Program Stack := suspend .swap

/-- Replaces the top two values by their sum. -/
def add : Program Stack := suspend .add

/-- Replaces the top two values by their product. -/
def mul : Program Stack := suspend .mul

/-- Applies a transform to the whole stack. -/
def apply (t : Transform) : Program Stack := suspend (.apply t)

/-! ## Composition -/

/-- Goes on with `k` of the result; the evaluation log says `remark` of it when `k` is called. -/
def bindRemarking (p : Program R) (remark : R → List String) (k : R → Program S) : Program S :=
  match p with
  | .done r => k r
  | .suspended op rest => .suspended op (rest.pushBack (.call remark k))

/-- Goes on with `k` of the result. -/
def bind (p : Program R) (k : R → Program S) : Program S := p.bindRemarking (fun _ => []) k

/-- Replaces the result by `f` of it; the evaluation log says `remark` of it when `f` is called. -/
def mapRemarking (p : Program R) (remark : R → List String) (f : R → S) : Program S :=
  match p with
  | .done r => .done (f r)
  | .suspended op rest => .suspended op (rest.pushBack (.call remark fun r => .done (f r)))

/-- Replaces the result by `f` of it. -/
def map (p : Program R) (f : R → S) : Program S := p.mapRemarking (fun _ => []) f

/-- Goes on with another program and forgets the result. -/
def andThen (p : Program R) (next : Program S) : Program S :=
  match p with
  | .done _ => next
  | .suspended op rest => .suspended op (rest.pushBack (.next next))

/-- One program after the other; the result is that of the last, and the empty stack for none. -/
def sequence (programs : List (Program Stack)) : Program Stack :=
  programs.foldl andThen (.done .empty)

/-- Runs a loop from a start. -/
def iterate (body : R → Turn R S) (start : R) : Program S := (Arrow.loop body).run start

instance : Monad Program where
  pure := .done
  bind := bind
  map f p := p.map f

/-! ## Observation -/

/-- Whether nothing is left to execute. -/
def isDone : Program R → Bool
  | .done _ => true
  | .suspended .. => false

/-- The operation a program is suspended on. -/
def operation? : Program R → Option Operation
  | .done _ => none
  | .suspended op _ => some op

/-- The number of arrows behind the operation. -/
def pending : Program R → Nat
  | .done _ => 0
  | .suspended _ rest => rest.length

/-- The description of a program, given that of its result. -/
def describeWith (describeResult : R → String) : Program R → String
  | .done r => "Done(" ++ describeResult r ++ ")"
  | .suspended op rest =>
    "Suspended(" ++ op.describe ++ ", Continuation(" ++ Text.Numeral.text rest.length ++
      " pending))"

/-- The description of a program that results in a stack. -/
def describe (p : Program Stack) : String := p.describeWith Stack.render

end Program

end StackLang
