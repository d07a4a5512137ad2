/-
Programs without types between their arrows. A value travels in a box that knows its type, and taking it
out as a value of another type fails. A queue is a plain list of arrows, and a continuation is a queue
with the type of its result written on it: adding an arrow writes another type on it, and nothing checks
either. Functions that return programs go by name, since such a function may lead back to itself, at
once or through others; a table says what the names stand for. Composition, resuming and evaluation are
those of programs, except that they may come to a box with a value of the wrong type.
-/
import StackLang.Proofs.Run

namespace StackLang.Untyped

variable {N : Type 1} {R S : Type}

/-! ## Boxes -/

/-- A value together with its type. -/
structure Boxed : Type 1 where
  {type : Type}
  value : type

namespace Boxed

open Classical in
/-- The value of a box as an `R`, if an `R` was put into it. -/
noncomputable def unbox (R : Type) (b : Boxed) : Option R := if h : b.type = R then some (cast h b.value) else none

@[simp] theorem unbox_mk (r : R) : unbox R ⟨r⟩ = some r := dif_pos rfl

theorem unbox_of_ne {b : Boxed} (h : b.type ≠ R) : unbox R b = none := dif_neg h

end Boxed

/-! ## Programs -/

mutual

/-- A program of which only the data is left. -/
inductive Step (N : Type 1) : Type 1 where
  | done (result : Boxed)
  | suspended (operation : Operation) (arrows : List (Arrow N))

/-- One part of what remains: it takes what the part before it produced, in a box. -/
inductive Arrow (N : Type 1) : Type 1 where
  /-- Opens the box and makes another value of what is in it. -/
  | map {R S : Type} (f : R → S)
  /-- Opens the box and goes on with the program that a function returns. -/
  | bind (f : N)
  /-- Goes on with a program, whatever came before. -/
  | next (program : Step N)

end

/-- A queue that is taken to end at `R`. -/
structure Continuation (N : Type 1) (R : Type) : Type 1 where
  arrows : List (Arrow N)

/-- A program that is taken to result in an `R`. -/
inductive Program (N : Type 1) (R : Type) : Type 1 where
  | done (result : R)
  | suspended (operation : Operation) (rest : Continuation N R)

/-- The data of a program. -/
def Step.ofProgram : Program N R → Step N
  | .done r => .done ⟨r⟩
  | .suspended op k => .suspended op k.arrows

namespace Continuation

/-- Results in the stack itself. -/
def identity : Continuation N Stack := ⟨[]⟩

/-- Adds an arrow at the end and takes the queue to end at any other type. -/
def push (k : Continuation N R) (f : Arrow N) : Continuation N S := ⟨k.arrows ++ [f]⟩

end Continuation

namespace Program

/-- The program of one operation; its result is the stack the operation leaves. -/
def suspend (op : Operation) : Program N Stack := .suspended op .identity

/-- Replaces the result by `f` of it. -/
def map (p : Program N R) (f : R → S) : Program N S :=
  match p with
  | .done r => .done (f r)
  | .suspended op k => .suspended op (k.push (.map f))

/-- Goes on with another program and forgets the result. -/
def andThen (p : Program N R) (next : Program N S) : Program N S :=
  match p with
  | .done _ => next
  | .suspended op k => .suspended op (k.push (.next (.ofProgram next)))

/-- One program after the other; the result is that of the last, and the empty stack for none. -/
def sequence (programs : List (Program N Stack)) : Program N Stack := programs.foldl andThen (.done .empty)

end Program

/-- A state of an evaluation: what is left, the live stack and the operations executed. -/
structure Config (N : Type 1) (R : Type) : Type 1 where
  program : Program N R
  stack : Stack
  steps : Nat

/-- The start of an evaluation. -/
def Config.start (p : Program N R) (s : Stack) : Config N R := ⟨p, s, 0⟩

/-- What one transition comes to. -/
inductive Progress (N : Type 1) (R : Type) : Type 1 where
  | running (config : Config N R)
  | halted (verdict : Verdict R)
  /-- A box held a value of the wrong type. -/
  | mistyped

/-! ## Functions that return programs -/

/-- Functions by name: what each takes, what the programs it returns result in, and the programs. -/
structure Functions where
  Name : Type 1
  source : Name → Type
  target : Name → Type
  call : (f : Name) → source f → Program Name (target f)

namespace Functions

variable (F : Functions)

/-- Goes on with what a function makes of the result. -/
def bind (f : F.Name) (p : Program F.Name (F.source f)) : Program F.Name (F.target f) :=
  match p with
  | .done r => F.call f r
  | .suspended op k => .suspended op (k.push (.bind f))

/-- What an arrow makes of a box, if it can open it. -/
noncomputable def run : Arrow F.Name → Boxed → Option (Step F.Name)
  | .map (R := R) f, b => (b.unbox R).map fun r => .done ⟨f r⟩
  | .bind f, b => (b.unbox (F.source f)).map fun r => .ofProgram (F.call f r)
  | .next p, _ => some p

/-- Feeds a box to the arrows of a queue, one after the other, until one suspends. Then its queue goes in
front of the arrows that are left. -/
noncomputable def feed : List (Arrow F.Name) → Boxed → Option (Step F.Name)
  | [], b => some (.done b)
  | f :: rest, b =>
    match F.run f b with
    | none => none
    | some (.done r) => feed rest r
    | some (.suspended op inner) => some (.suspended op (inner ++ rest))

/-- The rest of a program after its operation left the stack `s`. -/
noncomputable def resume (k : Continuation F.Name R) (s : Stack) : Option (Program F.Name R) :=
  match F.feed k.arrows ⟨s⟩ with
  | none => none
  | some (.done b) => (b.unbox R).map .done
  | some (.suspended op arrows) => some (.suspended op ⟨arrows⟩)

/-- One transition of an evaluation. -/
noncomputable def step (limit : Option Nat) : Config F.Name R → Progress F.Name R
  | ⟨.done r, s, n⟩ => .halted (.ok ⟨r, s, n⟩)
  | ⟨.suspended op k, s, n⟩ =>
    match limitReached limit n with
    | some l => .halted (.error ⟨.stepLimit l, n⟩)
    | none =>
      match op.execute s with
      | .error failure => .halted (.error ⟨failure, n⟩)
      | .ok t =>
        match F.resume k t with
        | none => .mistyped
        | some p => .running ⟨p, t, n + 1⟩

/-- The states that an evaluation comes through. -/
def Reaches (limit : Option Nat) : Config F.Name R → Config F.Name R → Prop :=
  Relation.ReflTransGen fun c c' => F.step limit c = .running c'

end Functions

end StackLang.Untyped
