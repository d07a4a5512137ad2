/-
Forgetting the types of programs. Erasing a program keeps its operations, its functions and the order of
its arrows, and puts every value that travels between two arrows into a box. The functions that it calls
go by themselves: a name is a function, and calling it erases the program that it returns. No box is in
the way, so an evaluation of the erased program goes step by step with that of the program.
-/
import StackLang.Proofs.Resume
import StackLang.Proofs.Untyped.Typing

namespace StackLang

variable {A B C R S : Type}

/-! ## Erasing -/

/-- A function that returns programs. -/
structure Callee : Type 1 where
  {source target : Type}
  run : source → Program target

mutual

/-- The program without the types between its arrows. -/
noncomputable def Program.erase : {R : Type} → Program R → Untyped.Program Callee R
  | _, .done r => .done r
  | _, .suspended op rest => .suspended op ⟨rest.erase⟩

/-- The arrows of a suspended program without their types. -/
noncomputable def Queue.erase : {R : Type} → Queue Arrow Stack R → List (Untyped.Arrow Callee)
  | _, .mk _ front rear => front.erase ++ rear.erase

/-- The arrows of a chain without their types. -/
noncomputable def Chain.erase : {A B : Type} → Chain Arrow A B → List (Untyped.Arrow Callee)
  | _, _, .nil => []
  | _, _, .cons f c => f.erase :: c.erase

/-- The arrows of a rear without their types, in order. -/
noncomputable def Rear.erase : {A B : Type} → Rear Arrow B A → List (Untyped.Arrow Callee)
  | _, _, .nil => []
  | _, _, .snoc r f => r.erase ++ [f.erase]

/-- The arrow between boxes. -/
noncomputable def Arrow.erase : {A B : Type} → Arrow A B → Untyped.Arrow Callee
  | _, _, .call _ k => .bind ⟨k⟩
  | _, _, .next p => .next (.ofProgram p.erase)
  | _, _, .loop body => .bind ⟨Program.iterate body⟩

end

/-- The functions that programs call. -/
noncomputable abbrev Callee.functions : Untyped.Functions where
  Name := Callee
  source := Callee.source
  target := Callee.target
  call f r := (f.run r).erase

/-! ## Queues -/

theorem Chain.erase_append (c : Chain Arrow A B) (d : Chain Arrow B C) :
    (c.append d).erase = c.erase ++ d.erase := by
  induction c with
  | nil => rw [append, erase, List.nil_append]
  | cons f c ih => rw [append, erase, erase, ih, List.cons_append]

theorem Rear.erase_toChain (r : Rear Arrow B A) (c : Chain Arrow B C) :
    (r.toChain c).erase = r.erase ++ c.erase := by
  induction r generalizing C with
  | nil => rw [toChain, erase, List.nil_append]
  | snoc r f ih => rw [toChain, ih, erase, Chain.erase, List.append_assoc]; rfl

/-- The erased arrows of a queue are those of its chain, wherever they stand. -/
theorem Queue.erase_toChain (q : Queue Arrow Stack R) : q.toChain.erase = q.erase := by
  cases q with
  | mk hold front rear =>
    rw [toChain, erase, Chain.erase_append, Rear.erase_toChain, Chain.erase, List.append_nil]

/-- Joining queues erases to putting one list behind the other, whoever holds the queues. -/
theorem Queue.erase_splice (front : Queue Arrow Stack A) (back : Queue Arrow A B) :
    (front.splice back).erase = front.erase ++ back.toChain.erase := by
  rw [← erase_toChain, toChain_splice, Chain.erase_append, erase_toChain]

/-- The data of a program with its arrows in order. -/
noncomputable def View.erase : View R → Untyped.Step Callee
  | .done r => .done ⟨r⟩
  | .suspended op c => .suspended op c.erase

theorem Program.erase_view (p : Program R) : p.view.erase = .ofProgram p.erase := by
  cases p with
  | done r => rw [view, View.erase, erase, Untyped.Step.ofProgram]
  | suspended op rest => rw [view, View.erase, erase, Untyped.Step.ofProgram, Queue.erase_toChain]

/-! ## Resuming -/

open Callee (functions)

/-- An arrow opens the boxes that it is given and makes of them what it makes of the values in them. -/
theorem Arrow.run_erase (f : Arrow A B) (a : A) : functions.run f.erase ⟨a⟩ = some (.ofProgram (f.run a).erase) := by
  cases f with
  | call remark k => exact congrArg (Option.map _) (Untyped.Boxed.unbox_mk a)
  | next p =>
    rw [erase, run, ← Program.erase_view p.share, Program.view_share, Program.erase_view]
    rfl
  | loop body => exact congrArg (Option.map _) (Untyped.Boxed.unbox_mk a)

theorem Chain.feed_erase (c : Chain Arrow A B) (a : A) : functions.feed c.erase ⟨a⟩ = some (c.fed a).erase := by
  induction c with
  | nil => rw [erase]; rfl
  | cons f c ih =>
    rw [erase, Untyped.Functions.feed, Arrow.run_erase, ← Program.erase_view, fed_cons]
    cases (f.run a).view with
    | done b => exact ih b
    | suspended op rest => rw [View.append, View.erase, View.erase, erase_append]

theorem Queue.resume_erase (q : Queue Arrow Stack R) (s : Stack) :
    functions.resume ⟨q.erase⟩ s = some (q.resume s).erase := by
  rw [Untyped.Functions.resume, ← erase_toChain, Chain.feed_erase, ← view_resume, Program.erase_view]
  cases q.resume s with
  | done r => rw [Program.erase]; exact congrArg (Option.map _) (Untyped.Boxed.unbox_mk r)
  | suspended op rest => rw [Program.erase]; rfl

/-! ## Evaluation -/

/-- The state with its program erased. -/
noncomputable def Config.erase (c : Config R) : Untyped.Config Callee R := ⟨c.program.erase, c.stack, c.steps⟩

/-- What a transition comes to, with its program erased. -/
noncomputable def Progress.erase : Progress R → Untyped.Progress Callee R
  | .running c => .running c.erase
  | .halted v => .halted v

/-- Evaluations go step by step with and without types. -/
theorem Config.step_erase (limit : Option Nat) (c : Config R) :
    functions.step limit c.erase = (c.step limit).2.erase := by
  obtain ⟨p, s, n⟩ := c
  rw [erase]
  cases p with
  | done r => rw [Program.erase]; rfl
  | suspended op rest =>
    rw [Program.erase, Untyped.Functions.step, step]
    cases limitReached limit n with
    | some l => rfl
    | none =>
      dsimp only
      cases op.execute s with
      | error failure => rfl
      | ok t => dsimp only; rw [Queue.resume_erase]; rfl

/-! ## The programs that can be had -/

mutual

/-- An erased program can be had: its arrows are added to its operation one after the other. -/
theorem Program.erase_obtainable : {R : Type} → (p : Program R) → functions.Obtainable p.erase
  | _, .done r => by rw [Program.erase]; exact .done r
  | _, .suspended op rest => by
    rw [Program.erase]
    exact rest.erase_obtainable op

theorem Queue.erase_obtainable : {R : Type} → (q : Queue Arrow Stack R) → (op : Operation) →
    functions.Obtainable (R := R) (.suspended op ⟨q.erase⟩)
  | _, .mk _ front rear, op => by
    rw [Queue.erase]
    have h := front.erase_obtainable (k := ⟨[]⟩) (.suspend op)
    exact rear.erase_obtainable h

theorem Chain.erase_obtainable : {A B : Type} → (c : Chain Arrow A B) →
    {op : Operation} → {k : Untyped.Continuation Callee A} → functions.Obtainable (.suspended op k) →
    functions.Obtainable (R := B) (.suspended op ⟨k.arrows ++ c.erase⟩)
  | _, _, .nil, _, k, h => by
    rw [Chain.erase, List.append_nil]
    exact h
  | _, _, .cons f c, _, k, h => by
    have hc := c.erase_obtainable (f.erase_obtainable h)
    rw [List.append_assoc] at hc
    rw [Chain.erase]
    exact hc

theorem Rear.erase_obtainable : {A B : Type} → (r : Rear Arrow B A) →
    {op : Operation} → {k : Untyped.Continuation Callee A} → functions.Obtainable (.suspended op k) →
    functions.Obtainable (R := B) (.suspended op ⟨k.arrows ++ r.erase⟩)
  | _, _, .nil, _, k, h => by
    rw [Rear.erase, List.append_nil]
    exact h
  | _, _, .snoc r f, _, k, h => by
    have hf := f.erase_obtainable (r.erase_obtainable h)
    rw [List.append_assoc] at hf
    rw [Rear.erase]
    exact hf

theorem Arrow.erase_obtainable : {A B : Type} → (f : Arrow A B) →
    {op : Operation} → {k : Untyped.Continuation Callee A} → functions.Obtainable (.suspended op k) →
    functions.Obtainable (R := B) (.suspended op ⟨k.arrows ++ [f.erase]⟩)
  | _, _, .call _ g, _, _, h => by
    rw [Arrow.erase]
    -- the program before it is suspended, so the function is not called yet
    exact .bind (F := functions) (f := ⟨g⟩) h (by rintro _ ⟨⟩)
  | _, _, .next p, _, _, h => by
    rw [Arrow.erase]
    exact .andThen h p.erase_obtainable
  | _, _, .loop body, _, _, h => by
    rw [Arrow.erase]
    exact .bind (F := functions) (f := ⟨Program.iterate body⟩) h (by rintro _ ⟨⟩)

end

theorem Callee.functions_closed : functions.Closed := fun f r => (f.run r).erase_obtainable

namespace Untyped

/-- No box is ever opened at the wrong type. Whatever the functions are, if they return programs that can be
had: such a program is well-typed, resuming it with any stack succeeds and leaves such a program again,
no state that an evaluation of it reaches, from any stack and under any limit, comes to a box that it cannot
open, and an arrow makes something of each value of the type that it takes. A queue without arrows is
well-typed only as one that results in stacks, and taken for another one it cannot be resumed. Erased
programs can be had, and so can those that the functions they call return; evaluations go step by step
with and without types, and queues are joined alike, whoever holds them. -/
theorem boxes_open :
    (∀ F : Functions, F.Closed →
      (∀ {R : Type} {p : Program F.Name R}, F.Obtainable p →
        F.WellTyped p ∧
        (∀ op k, p = .suspended op k → ∀ s, ∃ q, F.resume k s = some q ∧ F.Obtainable q) ∧
        (∀ limit s c, F.Reaches limit (.start p s) c → F.WellTyped c.program ∧ F.step limit c ≠ .mistyped)) ∧
      (∀ {A B : Type} {f : Arrow F.Name}, F.Goes f A B → ∀ a : A, ∃ q, F.run f ⟨a⟩ = some q ∧ F.Results q B)) ∧
    (∀ (F : Functions) (R : Type),
      (∀ op, F.WellTyped (.suspended op ⟨[]⟩ : Program F.Name R) ↔ R = Stack) ∧
      (R ≠ Stack → ∀ s, F.resume (⟨[]⟩ : Continuation F.Name R) s = none)) ∧
    functions.Closed ∧
    (∀ {R : Type} (p : StackLang.Program R), functions.Obtainable p.erase) ∧
    (∀ {R : Type} (limit : Option Nat) (c : StackLang.Config R),
      functions.step limit c.erase = (c.step limit).2.erase) ∧
    (∀ {A B : Type} (front : Queue StackLang.Arrow Stack A) (back : Queue StackLang.Arrow A B),
      (front.splice back).erase = front.erase ++ back.toChain.erase) := by
  refine ⟨fun F hF => ⟨fun {R p} h => ⟨h.wellTyped, ?_, fun limit s c hc => ?_⟩, fun {A B f} h a => ?_⟩,
    fun F R => ⟨fun op => Functions.fits_nil_iff.trans eq_comm, Functions.resume_mislabelled⟩,
    Callee.functions_closed, fun p => p.erase_obtainable, fun limit c => c.step_erase limit, Queue.erase_splice⟩
  · rintro op k rfl s
    exact h.exists_resume hF s
  · have ht := hc.wellTyped hF h.wellTyped
    exact ⟨ht, (ht.step hF).1⟩
  · exact h.run [] a fun g r _ => (hF g r).wellTyped

/-- A function that calls itself on the size of the stack and adds one to what comes of that. -/
def sizes : Functions where
  Name := PUnit
  source _ := Nat
  target _ := Nat
  call f n := .suspended (.push (.int (Int64.ofNat n))) ⟨[.map Stack.size, .bind f, .map Nat.succ]⟩

theorem sizes_closed : sizes.Closed := fun f n =>
  .map (.bind (F := sizes) (f := f) (.map (.suspend (.push (.int (Int64.ofNat n)))) Stack.size) (by rintro _ ⟨⟩))
    Nat.succ

/-- The function never ends, and its queue grows: the state after one operation has one more arrow. -/
theorem boxes_open_sizes :
    let p := sizes.call ⟨⟩ (0 : Nat)
    let c : Config PUnit Nat := ⟨.suspended (.push (.int 1))
      ⟨[.map Stack.size, .bind ⟨⟩, .map Nat.succ, .map Nat.succ]⟩, .ofList [.int 0], 1⟩
    sizes.Closed ∧ sizes.Obtainable p ∧ sizes.WellTyped p ∧ sizes.Reaches none (.start p .empty) c ∧
    sizes.WellTyped c.program ∧ sizes.step none c ≠ .mistyped := by
  intro p c
  have hp := sizes_closed ⟨⟩ (0 : Nat)
  have hc : sizes.Reaches none (.start p .empty) c := by
    refine .single ?_
    simp only [p, Config.start, Functions.step, Functions.resume, Functions.feed, Functions.run, sizes,
      Boxed.unbox_mk, Option.map_some]
    rfl
  obtain ⟨ht, -, hs⟩ := (boxes_open.1 sizes sizes_closed).1 hp
  exact ⟨sizes_closed, hp, ht, hc, hs none .empty c hc⟩

end Untyped

end StackLang
