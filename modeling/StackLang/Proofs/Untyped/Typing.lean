/-
Types of programs without types. An arrow goes from `A` to `B` when it opens boxes with an `A`, or none at
all, and produces a `B`; a queue goes from `A` to `C` when its first arrow starts at `A`, each arrow starts
where the one before it ends, and the last ends at `C`; and what is behind the operation of a suspended
program goes from stacks to its result. Whatever programs are composed of keeps these types, also where
a queue goes in front of another and where what came before is forgotten, and so does resuming. So no
evaluation comes to a box that it cannot open.
-/
import StackLang.Proofs.Untyped.Machine

namespace StackLang.Untyped

variable {A B C R S : Type} {F : Functions}

namespace Functions

/-! ## Typing -/

mutual

/-- The program results in an `R`. -/
inductive Results (F : Functions) : Step F.Name → Type → Prop where
  | done {R : Type} (r : R) : Results F (.done ⟨r⟩) R
  | suspended {R : Type} {op : Operation} {fs : List (Arrow F.Name)} (h : Fits F fs Stack R) :
      Results F (.suspended op fs) R

/-- The arrow takes an `A`, or whatever there is, and produces a `B`. -/
inductive Goes (F : Functions) : Arrow F.Name → Type → Type → Prop where
  | map {A B : Type} (f : A → B) : Goes F (.map f) A B
  | bind (f : F.Name) : Goes F (.bind f) (F.source f) (F.target f)
  | next {A B : Type} {p : Step F.Name} (h : Results F p B) : Goes F (.next p) A B

/-- The arrows fit together from `A` to `C`. -/
inductive Fits (F : Functions) : List (Arrow F.Name) → Type → Type → Prop where
  | nil {A : Type} : Fits F [] A A
  | cons {f : Arrow F.Name} {fs : List (Arrow F.Name)} {A B C : Type} (hf : Goes F f A B) (hfs : Fits F fs B C) :
      Fits F (f :: fs) A C

end

/-- What is left of the program goes from stacks to its result. -/
def WellTyped (F : Functions) : Program F.Name R → Prop
  | .done _ => True
  | .suspended _ k => F.Fits k.arrows Stack R

theorem fits_nil_iff : F.Fits [] A C ↔ A = C := by
  constructor
  · rintro ⟨⟩; rfl
  · rintro rfl; exact .nil

/-- A type that is wrongly written on a queue is found out when the last box is opened. -/
theorem resume_mislabelled (h : R ≠ Stack) (s : Stack) : F.resume (⟨[]⟩ : Continuation F.Name R) s = none :=
  congrArg (Option.map _) (Boxed.unbox_of_ne h.symm)

theorem WellTyped.results {p : Program F.Name R} (h : F.WellTyped p) : F.Results (.ofProgram p) R := by
  cases p with
  | done r => exact .done r
  | suspended op k => exact .suspended h

/-! ## Adding, joining and removing arrows -/

theorem Fits.append {fs gs : List (Arrow F.Name)} (h : F.Fits fs A B) (hg : F.Fits gs B C) :
    F.Fits (fs ++ gs) A C := by
  induction fs generalizing A with
  | nil => cases h; exact hg
  | cons f fs ih =>
    cases h with
    | cons hf hfs => exact .cons hf (ih hfs)

theorem Fits.push {fs : List (Arrow F.Name)} {f : Arrow F.Name} (h : F.Fits fs A B) (hf : F.Goes f B C) :
    F.Fits (fs ++ [f]) A C := h.append (.cons hf .nil)

/-! ## Resuming -/

/-- The queue calls `f` on `r` when it is fed the box, before any arrow of it suspends. -/
inductive Calls (F : Functions) : List (Arrow F.Name) → Boxed → (f : F.Name) → F.source f → Prop where
  | head {f : F.Name} {fs : List (Arrow F.Name)} (r : F.source f) : Calls F (.bind f :: fs) ⟨r⟩ f r
  | tail {g : Arrow F.Name} {fs : List (Arrow F.Name)} {b b' : Boxed} {f : F.Name} {r : F.source f}
      (hg : F.run g b = some (.done b')) (h : Calls F fs b' f r) : Calls F (g :: fs) b f r

/-- An arrow opens the boxes of the type that it takes. -/
theorem Goes.run {f : Arrow F.Name} (h : F.Goes f A B) (fs : List (Arrow F.Name)) (a : A)
    (hc : ∀ g r, F.Calls (f :: fs) ⟨a⟩ g r → F.WellTyped (F.call g r)) :
    ∃ p, F.run f ⟨a⟩ = some p ∧ F.Results p B := by
  cases h with
  | map f => exact ⟨.done ⟨f a⟩, by rw [Functions.run, Boxed.unbox_mk]; rfl, .done (f a)⟩
  | bind f =>
    exact ⟨.ofProgram (F.call f a), by rw [Functions.run, Boxed.unbox_mk]; rfl, (hc f a (.head a)).results⟩
  | next h => exact ⟨_, rfl, h⟩

/-- A queue lets a box through to its end, or up to an arrow that suspends. -/
theorem Fits.feed {fs : List (Arrow F.Name)} (h : F.Fits fs A C) (a : A)
    (hc : ∀ g r, F.Calls fs ⟨a⟩ g r → F.WellTyped (F.call g r)) : ∃ p, F.feed fs ⟨a⟩ = some p ∧ F.Results p C := by
  induction fs generalizing A with
  | nil => cases h; exact ⟨_, rfl, .done a⟩
  | cons f fs ih =>
    cases h with
    | cons hf hfs =>
      obtain ⟨p, hp, ht⟩ := hf.run fs a hc
      rw [Functions.feed, hp]
      cases ht with
      -- what the arrows behind this one call, the queue calls
      | done b => exact ih hfs b fun g r hg => hc g r (.tail hp hg)
      | suspended hq => exact ⟨_, rfl, .suspended (hq.append hfs)⟩

theorem WellTyped.resume {op : Operation} {k : Continuation F.Name R} (h : F.WellTyped (.suspended op k)) (s : Stack)
    (hc : ∀ g r, F.Calls k.arrows ⟨s⟩ g r → F.WellTyped (F.call g r)) : ∃ p, F.resume k s = some p ∧ F.WellTyped p := by
  obtain ⟨p, hp, ht⟩ := Fits.feed h s hc
  rw [Functions.resume, hp]
  cases ht with
  | done r => exact ⟨.done r, by dsimp only; rw [Boxed.unbox_mk]; rfl, trivial⟩
  | suspended hq => exact ⟨_, rfl, hq⟩

/-! ## Composition -/

namespace WellTyped

theorem map {p : Program F.Name R} (h : F.WellTyped p) (f : R → S) : F.WellTyped (p.map f) := by
  cases p with
  | done r => trivial
  | suspended op k => exact Fits.push h (.map f)

theorem bind {f : F.Name} {p : Program F.Name (F.source f)} (h : F.WellTyped p)
    (hf : ∀ r, p = .done r → F.WellTyped (F.call f r)) : F.WellTyped (F.bind f p) := by
  cases p with
  | done r => exact hf r rfl
  | suspended op k => exact Fits.push h (.bind f)

theorem andThen {p : Program F.Name R} (h : F.WellTyped p) {q : Program F.Name S} (hq : F.WellTyped q) :
    F.WellTyped (p.andThen q) := by
  cases p with
  | done r => exact hq
  | suspended op k => exact Fits.push h (.next hq.results)

theorem foldl_andThen {ps : List (Program F.Name Stack)} (hs : ∀ p ∈ ps, F.WellTyped p)
    {p : Program F.Name Stack} (h : F.WellTyped p) : F.WellTyped (ps.foldl Program.andThen p) := by
  induction ps generalizing p with
  | nil => exact h
  | cons q ps ih =>
    have hq := hs q List.mem_cons_self
    exact ih (fun p hp => hs p (List.mem_cons_of_mem q hp)) (h.andThen hq)

end WellTyped

/-! ## The programs that can be had -/

/-- The programs that composition and resuming lead to: results, single operations, `map`, `bind`,
`andThen` and `sequence` of such programs, a continuation of such a program behind any operation, and
what resuming a continuation of such a program with any stack leaves. A copy of a program is the program
itself. What a function returns where it is called on the way has to be such a program. -/
inductive Obtainable (F : Functions) : {R : Type} → Program F.Name R → Prop where
  | done {R : Type} (r : R) : Obtainable F (.done r)
  | suspend (op : Operation) : Obtainable F (.suspend op)
  | map {R S : Type} {p : Program F.Name R} (h : Obtainable F p) (f : R → S) : Obtainable F (p.map f)
  | bind {f : F.Name} {p : Program F.Name (F.source f)} (h : Obtainable F p)
      (hf : ∀ r, p = .done r → Obtainable F (F.call f r)) : Obtainable F (F.bind f p)
  | andThen {R S : Type} {p : Program F.Name R} (h : Obtainable F p) {q : Program F.Name S} (hq : Obtainable F q) :
      Obtainable F (p.andThen q)
  | sequence {ps : List (Program F.Name Stack)} (h : ∀ p ∈ ps, Obtainable F p) : Obtainable F (.sequence ps)
  | operate {R : Type} {op : Operation} {k : Continuation F.Name R} (h : Obtainable F (.suspended op k))
      (op' : Operation) : Obtainable F (.suspended op' k)
  | resume {R : Type} {op : Operation} {k : Continuation F.Name R} (h : Obtainable F (.suspended op k)) {s : Stack}
      (hc : ∀ f r, F.Calls k.arrows ⟨s⟩ f r → Obtainable F (F.call f r)) {p : Program F.Name R}
      (hp : F.resume k s = some p) : Obtainable F p

theorem Obtainable.wellTyped {p : Program F.Name R} (h : F.Obtainable p) : F.WellTyped p := by
  induction h with
  | done r => trivial
  | suspend op => exact Fits.nil
  | map _ f ih => exact ih.map f
  | bind _ _ ih ihf => exact ih.bind ihf
  | andThen _ _ ih ihq => exact ih.andThen ihq
  | sequence _ ih => exact WellTyped.foldl_andThen ih trivial
  | operate _ op' ih => exact ih
  | resume _ _ hp ih ihc =>
    -- `ihc` is about the calls on the way; what other functions return does not matter yet
    obtain ⟨q, hq, ht⟩ := ih.resume _ ihc
    cases hp.symm.trans hq
    exact ht

/-- The functions return programs that can be had. These may name each other and themselves again. -/
def Closed (F : Functions) : Prop := ∀ (f : F.Name) (r : F.source f), F.Obtainable (F.call f r)

/-! ## Evaluation -/

section Evaluation

variable (hF : F.Closed)
include hF

theorem Obtainable.exists_resume {op : Operation} {k : Continuation F.Name R} (h : F.Obtainable (.suspended op k))
    (s : Stack) : ∃ p, F.resume k s = some p ∧ F.Obtainable p := by
  obtain ⟨p, hp, -⟩ := h.wellTyped.resume s fun f r _ => (hF f r).wellTyped
  exact ⟨p, hp, h.resume (fun f r _ => hF f r) hp⟩

/-- A well-typed state has no box that cannot be opened, and where it goes on it is well-typed again. -/
theorem WellTyped.step {limit : Option Nat} {c : Config F.Name R} (h : F.WellTyped c.program) :
    F.step limit c ≠ .mistyped ∧ ∀ c', F.step limit c = .running c' → F.WellTyped c'.program := by
  obtain ⟨p, s, n⟩ := c
  cases p with
  | done r => exact ⟨by rintro ⟨⟩, by rintro _ ⟨⟩⟩
  | suspended op k =>
    rw [Functions.step]
    cases limitReached limit n with
    | some l => exact ⟨by rintro ⟨⟩, by rintro _ ⟨⟩⟩
    | none =>
      dsimp only
      cases op.execute s with
      | error failure => exact ⟨by rintro ⟨⟩, by rintro _ ⟨⟩⟩
      | ok t =>
        obtain ⟨q, hq, ht⟩ := h.resume t fun f r _ => (hF f r).wellTyped
        dsimp only
        rw [hq]
        exact ⟨by rintro ⟨⟩, by rintro _ ⟨⟩; exact ht⟩

theorem Reaches.wellTyped {limit : Option Nat} {c c' : Config F.Name R} (h : F.Reaches limit c c')
    (hc : F.WellTyped c.program) : F.WellTyped c'.program := by
  induction h with
  | refl => exact hc
  | tail _ h ih => exact (ih.step hF).2 _ h

end Evaluation

end Functions

end StackLang.Untyped
