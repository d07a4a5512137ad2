/-
Walking through programs by hand. At every step a suspended program may be resumed with any stack,
not only with the one its operation leaves; what a walker sees is the operation, the number of arrows
behind it, and the result at the end. Two programs that no walk tells apart have the same tree, and so
the same evaluations.

Replacing a result and going on with a fixed program are stored in other ways than binding a function,
but the arrow they add makes the same of every value. Walks therefore see no difference: up to where
the two arrows are called the programs differ in nothing else, and from there on in nothing at all.
-/
import StackLang.Proofs.Congruence

namespace StackLang

variable {A B R S T : Type}

namespace Program

/-! ## Walks -/

/-- The program resumed with a stack; one that is done stays so. -/
def resumed : Program R → Stack → Program R
  | .done r, _ => .done r
  | .suspended _ rest, s => rest.resume s

/-- The program resumed with one stack after the other. -/
def walk (p : Program R) (given : List Stack) : Program R := given.foldl resumed p

theorem walk_cons (p : Program R) (s : Stack) (given : List Stack) :
    p.walk (s :: given) = (p.resumed s).walk given := rfl

theorem walk_done (r : R) (given : List Stack) : (done r).walk given = done r := by
  induction given with
  | nil => rfl
  | cons s given ih => exact ih

/-- Programs that look the same: done with the same result, or suspended on the same operation with as many
arrows behind it. -/
inductive Alike : Program R → Program R → Prop where
  | done (r : R) : Alike (.done r) (.done r)
  | suspended (op : Operation) {rest rest' : Queue Arrow Stack R} (h : rest.length = rest'.length) :
      Alike (.suspended op rest) (.suspended op rest')

/-- Programs that look the same at every step of every walk. -/
def Indistinguishable (p q : Program R) : Prop := ∀ given, Alike (p.walk given) (q.walk given)

variable {p q : Program R}

theorem Alike.refl (p : Program R) : Alike p p := by
  cases p with
  | done r => exact .done r
  | suspended op rest => exact .suspended op rfl

theorem Alike.describeWith_eq (h : Alike p q) (describeResult : R → String) :
    p.describeWith describeResult = q.describeWith describeResult := by
  cases h with
  | done r => rfl
  | suspended op h => rw [describeWith, describeWith, h]

namespace Indistinguishable

theorem refl (p : Program R) : p.Indistinguishable p := fun given => .refl (p.walk given)

theorem alike (h : p.Indistinguishable q) : Alike p q := h []

theorem resumed (h : p.Indistinguishable q) (s : Stack) : (p.resumed s).Indistinguishable (q.resumed s) :=
  fun given => h (s :: given)

/-- Every branch of a tree is a walk, so programs that no walk tells apart have the same tree. -/
theorem denote_eq (h : p.Indistinguishable q) : p.denote = q.denote := by
  refine Tree.coinduction
    (fun t u => ∃ p q : Program R, p.Indistinguishable q ∧ t = p.denote ∧ u = q.denote) ?_ _ _ ⟨p, q, h, rfl, rfl⟩
  rintro _ _ ⟨p, q, h, rfl, rfl⟩
  cases h.alike with
  | done r => exact .inl rfl
  | suspended op hl =>
    right
    refine ⟨op, _, _, denote_suspended op _, denote_suspended op _, fun s => ?_⟩
    exact ⟨_, _, h.resumed s, rfl, rfl⟩

theorem equivalent (h : p.Indistinguishable q) : p.Equivalent q := .of_denote h.denote_eq

end Indistinguishable

/-! ## Interchangeable arrows -/

theorem alike_of_view (h : p.view = q.view) : Alike p q := by
  cases p with
  | done r =>
    cases q with
    | done r' => cases h; exact .done r
    | suspended op rest => cases h
  | suspended op rest =>
    cases q with
    | done r => cases h
    | suspended op' rest' =>
      obtain ⟨rfl, hc⟩ := View.suspended.inj h
      exact .suspended op (by rw [← Queue.length_toChain, ← Queue.length_toChain, hc])

/-- What is left after resuming depends on the arrows and their order only. -/
theorem view_resumed (p : Program R) (s : Stack) :
    (p.resumed s).view = match p.view with
      | .done r => .done r
      | .suspended _ c => c.fed s := by
  cases p with
  | done r => rfl
  | suspended op rest => exact Queue.view_resume rest s

/-- Two programs with the same arrows, but for the last one perhaps, which is `f` in the first program and `g`
in the second. -/
def Differs (f g : Arrow A B) (p q : Program B) : Prop :=
  p.view = q.view ∨ ∃ v : View A, p.view = v.append (.cons f .nil) ∧ q.view = v.append (.cons g .nil)

section Differs

variable {f g : Arrow A B} {p q : Program B}

/-- Where nothing is left but the two arrows, they are called, and a difference between the programs goes away. -/
theorem Differs.cases (hfg : ∀ a, (f.run a).view = (g.run a).view) (h : Differs f g p q) :
    p.view = q.view ∨ ∃ op rest rest', ∃ c : Chain Arrow Stack A, p = .suspended op rest ∧ q = .suspended op rest' ∧
      rest.toChain = c.append (.cons f .nil) ∧ rest'.toChain = c.append (.cons g .nil) := by
  rcases h with h | ⟨v, hp, hq⟩
  · exact .inl h
  · cases v with
    | done a =>
      rw [View.append, Chain.fed_single] at hp hq
      exact .inl (by rw [hp, hq, hfg])
    | suspended op c =>
      obtain ⟨rest, rfl, hrest⟩ := exists_of_view hp
      obtain ⟨rest', rfl, hrest'⟩ := exists_of_view hq
      exact .inr ⟨op, rest, rest', c, rfl, rfl, hrest, hrest'⟩

/-- Resuming goes through the arrows before the last one first. -/
theorem Differs.resumed (hfg : ∀ a, (f.run a).view = (g.run a).view) (h : Differs f g p q) (s : Stack) :
    Differs f g (p.resumed s) (q.resumed s) := by
  rcases h.cases hfg with h | ⟨op, rest, rest', c, rfl, rfl, hrest, hrest'⟩
  · exact .inl (by rw [view_resumed, view_resumed, h])
  · refine .inr ⟨c.fed s, ?_, ?_⟩
    · rw [Program.resumed, Queue.view_resume, hrest, Chain.fed_append]
    · rw [Program.resumed, Queue.view_resume, hrest', Chain.fed_append]

theorem Differs.walk (hfg : ∀ a, (f.run a).view = (g.run a).view) (h : Differs f g p q) (given : List Stack) :
    Differs f g (p.walk given) (q.walk given) := by
  induction given generalizing p q with
  | nil => exact h
  | cons s given ih =>
    rw [walk_cons, walk_cons]
    exact ih (h.resumed hfg s)

theorem Differs.alike (hfg : ∀ a, (f.run a).view = (g.run a).view) (h : Differs f g p q) : Alike p q := by
  rcases h.cases hfg with h | ⟨op, rest, rest', c, rfl, rfl, hrest, hrest'⟩
  · exact alike_of_view h
  · refine .suspended op ?_
    rw [← Queue.length_toChain, ← Queue.length_toChain, hrest, hrest', Chain.length_append, Chain.length_append]
    rfl

theorem Differs.indistinguishable (hfg : ∀ a, (f.run a).view = (g.run a).view) (h : Differs f g p q) : p.Indistinguishable q :=
  fun given => (h.walk hfg given).alike hfg

end Differs

/-- Arrows that make the same of every value may take each other's place at the end of a queue. -/
theorem indistinguishable_pushBack {f g : Arrow A B} (hfg : ∀ a, (f.run a).view = (g.run a).view) (op : Operation)
    (rest : Queue Arrow Stack A) :
    (suspended op (rest.pushBack f)).Indistinguishable (suspended op (rest.pushBack g)) := by
  refine Differs.indistinguishable hfg (.inr ⟨(suspended op rest).view, ?_, ?_⟩)
  · exact view_pushBack op rest f
  · exact view_pushBack op rest g

/-! ## Replacing and forgetting results -/

theorem map_indistinguishable (p : Program R) (f : R → S) :
    (p.map f).Indistinguishable (p.bind fun r => .done (f r)) := by
  cases p with
  | done r => exact .refl (.done (f r))
  | suspended op rest => exact indistinguishable_pushBack (fun _ => rfl) op rest

theorem andThen_indistinguishable (p : Program R) (q : Program S) :
    (p.andThen q).Indistinguishable (p.bind fun _ => q) := by
  cases p with
  | done r => exact .refl q
  | suspended op rest =>
    -- the one goes on with a copy of the program and the other with the program itself
    have hq : ∀ r, ((Arrow.next q).run r).view = ((Arrow.call (fun _ => []) fun _ : R => q).run r).view :=
      fun _ => q.view_share
    exact indistinguishable_pushBack hq op rest

theorem map_id_equivalent (p : Program R) : (p.map id).Equivalent p :=
  (p.map_indistinguishable id).equivalent.trans (.of_denote p.denote_bind_done)

theorem map_map_equivalent (p : Program R) (f : R → S) (g : S → T) :
    ((p.map f).map g).Equivalent (p.map fun r => g (f r)) := by
  have hp : ((p.map f).map g).Equivalent ((p.bind fun r => .done (f r)).bind fun s => .done (g s)) :=
    ((p.map f).map_indistinguishable g).equivalent.trans ((p.map_indistinguishable f).equivalent.bind fun s => .refl _)
  have hassoc : ((p.bind fun r => .done (f r)).bind fun s => .done (g s)).Equivalent
      (p.bind fun r => .done (g (f r))) := .of_denote (p.denote_bind_assoc _ _)
  exact hp.trans (hassoc.trans (p.map_indistinguishable fun r => g (f r)).equivalent.symm)

/-- Replacing a result is binding a function that is done at once, and going on with a program is binding the
function that returns it: whatever stacks they are resumed with, at every step both programs are done with
the same result, or suspended on the same operation with as many arrows behind it. They have the same
description at every step, and evaluate alike. Hence, as evaluations show it, replacing a result by itself
does nothing, and replacing it twice is replacing it once. -/
theorem indistinguishable_bind :
    (∀ {R S : Type} (p : Program R) (f : R → S),
      (∀ given, Alike ((p.map f).walk given) ((p.bind fun r => .done (f r)).walk given)) ∧
      (∀ given describeResult, ((p.map f).walk given).describeWith describeResult =
        ((p.bind fun r => .done (f r)).walk given).describeWith describeResult) ∧
      ∀ (i : Interpreter) (s : Stack), (i.runOn s (p.map f)).2 = (i.runOn s (p.bind fun r => .done (f r))).2) ∧
    (∀ {R S : Type} (p : Program R) (q : Program S),
      (∀ given, Alike ((p.andThen q).walk given) ((p.bind fun _ => q).walk given)) ∧
      (∀ given describeResult, ((p.andThen q).walk given).describeWith describeResult =
        ((p.bind fun _ => q).walk given).describeWith describeResult) ∧
      ∀ (i : Interpreter) (s : Stack), (i.runOn s (p.andThen q)).2 = (i.runOn s (p.bind fun _ => q)).2) ∧
    (∀ {R : Type} (p : Program R) (i : Interpreter) (s : Stack), (i.runOn s (p.map id)).2 = (i.runOn s p).2) ∧
    (∀ {R S T : Type} (p : Program R) (f : R → S) (g : S → T) (i : Interpreter) (s : Stack),
      (i.runOn s ((p.map f).map g)).2 = (i.runOn s (p.map fun r => g (f r))).2) := by
  refine ⟨fun p f => ?_, fun p q => ?_, fun p => p.map_id_equivalent, fun p f g => p.map_map_equivalent f g⟩
  · have h := p.map_indistinguishable f
    exact ⟨h, fun given d => (h given).describeWith_eq d, h.equivalent⟩
  · have h := p.andThen_indistinguishable q
    exact ⟨h, fun given d => (h given).describeWith_eq d, h.equivalent⟩

end Program

end StackLang
