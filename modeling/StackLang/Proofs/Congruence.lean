/-
Observational equivalence, and that it is a congruence. Two programs are equivalent when no
evaluation tells them apart, from whatever stack and under whatever limit; their queues may differ.
Since a program followed by another is evaluated through its verdicts alone, nothing of how a
program was built gets out, and equivalent programs may take each other's place wherever programs
are composed, also in a function that is called only when an evaluation gets there.
-/
import StackLang.Proofs.Composition
import StackLang.Proofs.Laws

namespace StackLang

variable {H R S : Type}

/-- Whether all evaluations of two programs have the same verdict, or both none. -/
def Program.Equivalent (p q : Program R) : Prop :=
  ∀ (i : Interpreter) (s : Stack), (i.runOn s p).2 = (i.runOn s q).2

namespace Program.Equivalent

variable {p q : Program R}

theorem refl (p : Program R) : p.Equivalent p := fun _ _ => rfl

theorem symm (h : p.Equivalent q) : q.Equivalent p := fun i s => (h i s).symm

theorem trans {r : Program R} (h : p.Equivalent q) (h' : q.Equivalent r) : p.Equivalent r :=
  fun i s => (h i s).trans (h' i s)

theorem of_denote (h : p.denote = q.denote) : p.Equivalent q := fun i s => i.runOn_congr s h

/-- The evaluation of what follows depends on the verdict of the first program only. -/
theorem bind (h : p.Equivalent q) {f g : R → Program S} (hf : ∀ r, (f r).Equivalent (g r)) :
    (p.bind f).Equivalent (q.bind g) := by
  intro i s
  rw [Interpreter.runOn_bind, Interpreter.runOn_bind, h i s]
  congr 1
  funext v
  cases v with
  | ok o => dsimp only; rw [hf o.value (i.remaining o.steps) o.stack]
  | error e => rfl

theorem map (h : p.Equivalent q) (f : R → S) : (p.map f).Equivalent (q.map f) := by
  have hb : ∀ p : Program R, (p.map f).Equivalent (p.bind fun r => .done (f r)) := fun p =>
    of_denote (by simp only [denote_map, denote_bind, denote_done, Tree.map_eq_bind])
  exact (hb p).trans ((h.bind fun r => refl _).trans (hb q).symm)

theorem andThen (h : p.Equivalent q) {p' q' : Program S} (h' : p'.Equivalent q') :
    (p.andThen p').Equivalent (q.andThen q') := by
  have hb : ∀ (p : Program R) (p' : Program S), (p.andThen p').Equivalent (p.bind fun _ => p') := fun p p' =>
    of_denote (by simp only [denote_andThen, denote_bind])
  exact (hb p p').trans ((h.bind fun _ => h').trans (hb q q').symm)

theorem foldl_andThen {ps qs : List (Program Stack)} (hs : List.Forall₂ Equivalent ps qs) {p q : Program Stack}
    (h : p.Equivalent q) : (ps.foldl Program.andThen p).Equivalent (qs.foldl Program.andThen q) := by
  induction hs generalizing p q with
  | nil => exact h
  | cons hp _ ih => exact ih (h.andThen hp)

theorem sequence {ps qs : List (Program Stack)} (hs : List.Forall₂ Equivalent ps qs) :
    (sequence ps).Equivalent (sequence qs) := foldl_andThen hs (refl _)

end Program.Equivalent

/-! ## Contexts -/

/-- Programs with holes for a program that results in an `H`: any nesting of compositions, with the holes
anywhere, also in what a function returns. -/
inductive Context (H : Type) : Type → Type 1 where
  | hole : Context H H
  | program {R : Type} (p : Program R) : Context H R
  | map {R S : Type} (c : Context H R) (f : R → S) : Context H S
  | bind {R S : Type} (c : Context H R) (k : R → Context H S) : Context H S
  | andThen {R S : Type} (c : Context H R) (next : Context H S) : Context H S
  | sequence (cs : List (Context H Stack)) : Context H Stack

namespace Context

mutual

/-- The program that results from putting a program into the holes. -/
def fill (x : Program H) : {R : Type} → Context H R → Program R
  | _, .hole => x
  | _, .program p => p
  | _, .map c f => (c.fill x).map f
  | _, .bind c k => (c.fill x).bind fun r => (k r).fill x
  | _, .andThen c next => (c.fill x).andThen (next.fill x)
  | _, .sequence cs => .sequence (fillAll x cs)

/-- The programs that result from putting a program into the holes. -/
def fillAll (x : Program H) : List (Context H Stack) → List (Program Stack)
  | [] => []
  | c :: cs => c.fill x :: fillAll x cs

end

mutual

theorem fill_equivalent {p q : Program H} (h : p.Equivalent q) :
    {R : Type} → (c : Context H R) → (c.fill p).Equivalent (c.fill q)
  | _, .hole => by rw [fill, fill]; exact h
  | _, .program r => by rw [fill, fill]; exact .refl r
  | _, .map c f => by rw [fill, fill]; exact (fill_equivalent h c).map f
  | _, .bind c k => by rw [fill, fill]; exact (fill_equivalent h c).bind fun r => fill_equivalent h (k r)
  | _, .andThen c next => by rw [fill, fill]; exact (fill_equivalent h c).andThen (fill_equivalent h next)
  | _, .sequence cs => by rw [fill, fill]; exact .sequence (fillAll_equivalent h cs)

theorem fillAll_equivalent {p q : Program H} (h : p.Equivalent q) :
    (cs : List (Context H Stack)) → List.Forall₂ Program.Equivalent (fillAll p cs) (fillAll q cs)
  | [] => by rw [fillAll, fillAll]; exact .nil
  | c :: cs => by rw [fillAll, fillAll]; exact .cons (fill_equivalent h c) (fillAll_equivalent h cs)

end

end Context

namespace Program

/-- Observational equivalence is a congruence: an equivalence relation, and equivalent programs in the same
context are equivalent. -/
theorem equivalent_congruence :
    (∀ R : Type, Equivalence (Equivalent (R := R))) ∧
    ∀ {H R : Type} {p q : Program H} (c : Context H R), p.Equivalent q → (c.fill p).Equivalent (c.fill q) :=
  ⟨fun _ => ⟨.refl, .symm, .trans⟩, fun c h => c.fill_equivalent h⟩

/-- A program and one with an arrow more, which are described differently, as the receiver of a `bind` and
in the middle of a sequence that its function returns. -/
theorem equivalent_congruence_bind_done :
    (push (.int 1)).Equivalent ((push (.int 1)).bind done) ∧
    (push (.int 1)).describe ≠ ((push (.int 1)).bind done).describe ∧
    ((push (.int 1)).bind fun _ => sequence [dup, push (.int 1), add]).Equivalent
      (((push (.int 1)).bind done).bind fun _ => sequence [dup, (push (.int 1)).bind done, add]) := by
  have h : (push (.int 1)).Equivalent ((push (.int 1)).bind done) :=
    .of_denote (denote_bind_done (push (.int 1))).symm
  let c : Context Stack Stack := .bind .hole fun _ : Stack => .sequence [.program dup, .hole, .program add]
  exact ⟨h, by decide, equivalent_congruence.2 c h⟩

end Program

end StackLang
