/-
The monad laws, for everything that an evaluation shows: value, live stack, count of operations,
failure and step. The two sides of a law are different data, with other arrows in other queues, but
they have the same tree. Hence in a chain of binds the bracketing makes no difference.
-/
import StackLang.Proofs.Denotation

namespace StackLang

variable {A B C R S T : Type}

/-- A function to programs. -/
abbrev Kleisli (A B : Type) : Type 1 := A → Program B

namespace Program

theorem denote_bind_done (p : Program R) : (p.bind done).denote = p.denote := by
  rw [denote_bind, Tree.bind_congr _ denote_done, Tree.bind_done_right]

theorem denote_bind_assoc (p : Program R) (f : R → Program S) (g : S → Program T) :
    ((p.bind f).bind g).denote = (p.bind fun r => (f r).bind g).denote := by
  simp only [denote_bind]
  exact Tree.bind_assoc _ _ _

/-! ## Chains of binds -/

/-- A program bound to the functions of a chain, one after the other. -/
def leftNested {A B : Type} : Program A → Chain Kleisli A B → Program B
  | p, .nil => p
  | p, .cons f fs => (p.bind f).leftNested fs

/-- A program bound to the functions of a chain, each inside the one before it. -/
def rightNested {A B : Type} : Program A → Chain Kleisli A B → Program B
  | p, .nil => p
  | p, .cons f fs => p.bind fun a => (f a).rightNested fs

/-- The programs that bracket a chain of binds in some way: the program at the start of the chain alone, or a
bracketing of the first part of the chain bound to bracketings of what is left. -/
inductive Brackets : {A B : Type} → Program A → Chain Kleisli A B → Program B → Prop where
  | start {A : Type} (p : Program A) : Brackets p .nil p
  | bind {A B C D : Type} {p : Program A} {fs : Chain Kleisli A B} {q : Program B} {f : Kleisli B C}
      {gs : Chain Kleisli C D} {k : Kleisli B D} (h : Brackets p fs q) (hk : ∀ b, Brackets (f b) gs (k b)) :
      Brackets p (fs.append (.cons f gs)) (q.bind k)

theorem Brackets.leftNested_append (fs : Chain Kleisli B C) {p : Program A} {pre : Chain Kleisli A B} {q : Program B}
    (h : Brackets p pre q) : Brackets p (pre.append fs) (q.leftNested fs) := by
  induction fs with
  | nil => rw [Chain.append_nil]; exact h
  | cons f fs ih =>
    -- the first function moves from the chain to the part that is bracketed already
    have hf : Brackets p (pre.append (.cons f .nil)) (q.bind f) := .bind h fun b => .start (f b)
    have hfs := ih hf
    rw [Chain.append_assoc] at hfs
    exact hfs

theorem brackets_leftNested (p : Program A) (fs : Chain Kleisli A B) : Brackets p fs (p.leftNested fs) :=
  Brackets.leftNested_append fs (.start p)

theorem brackets_rightNested (p : Program A) (fs : Chain Kleisli A B) : Brackets p fs (p.rightNested fs) := by
  induction fs with
  | nil => exact .start p
  | cons f fs ih => exact .bind (.start p) fun a => ih (f a)

/-- The trees that the functions of a chain put below a value. -/
def composite {A B : Type} : Chain Kleisli A B → A → Tree B
  | .nil, a => .done a
  | .cons f fs, a => (f a).denote.bind (composite fs)

theorem composite_append (fs : Chain Kleisli A B) (gs : Chain Kleisli B C) (a : A) :
    composite (fs.append gs) a = (composite fs a).bind (composite gs) := by
  induction fs with
  | nil => exact (Tree.bind_done _ _).symm
  | cons f fs ih =>
    rw [Chain.append, composite, composite, Tree.bind_assoc]
    exact Tree.bind_congr _ fun b => ih gs b

/-- All bracketings of a chain have the same tree. -/
theorem Brackets.denote_eq {p : Program A} {fs : Chain Kleisli A B} {q : Program B} (h : Brackets p fs q) :
    q.denote = p.denote.bind (composite fs) := by
  induction h with
  | start p => exact (Tree.bind_done_right _).symm
  | @bind A B C D p fs q f gs k _ _ ih ihk =>
    rw [denote_bind, Tree.bind_congr _ ihk, ih, Tree.bind_assoc]
    exact Tree.bind_congr _ fun a => (composite_append fs (.cons f gs) a).symm

end Program

/-- The monad laws under every limit and from every stack, and what they come to for chains: all bracketings
of a chain of binds evaluate alike, the fully left-nested and the fully right-nested one among them. -/
theorem Interpreter.runOn_laws (i : Interpreter) (s : Stack) :
    (∀ {R S : Type} (r : R) (f : R → Program S), (i.runOn s ((Program.done r).bind f)).2 = (i.runOn s (f r)).2) ∧
    (∀ {R : Type} (p : Program R), (i.runOn s (p.bind .done)).2 = (i.runOn s p).2) ∧
    (∀ {R S T : Type} (p : Program R) (f : R → Program S) (g : S → Program T),
      (i.runOn s ((p.bind f).bind g)).2 = (i.runOn s (p.bind fun r => (f r).bind g)).2) ∧
    (∀ {A B : Type} (p : Program A) (fs : Chain Kleisli A B),
      p.Brackets fs (p.leftNested fs) ∧ p.Brackets fs (p.rightNested fs) ∧
      ∀ q q' : Program B, p.Brackets fs q → p.Brackets fs q' → (i.runOn s q).2 = (i.runOn s q').2) := by
  refine ⟨fun r f => rfl, fun p => i.runOn_congr s p.denote_bind_done,
    fun p f g => i.runOn_congr s (p.denote_bind_assoc f g), fun p fs => ?_⟩
  refine ⟨p.brackets_leftNested fs, p.brackets_rightNested fs, fun q q' hq hq' => ?_⟩
  exact i.runOn_congr s (hq.denote_eq.trans hq'.denote_eq.symm)

open Program in
/-- A chain over three types, with a function that is done at once in the middle. -/
theorem Interpreter.runOn_laws_size :
    let fs : Chain Kleisli Stack Stack := .cons (fun _ => dup) (.cons (fun s => .done s.size)
      (.cons (fun n => push (.int (Int64.ofNat n))) .nil))
    (push (.int 2)).Brackets fs
      ((((push (.int 2)).bind fun _ => dup).bind fun s => .done s.size).bind fun n => push (.int (Int64.ofNat n))) ∧
    (push (.int 2)).Brackets fs
      ((push (.int 2)).bind fun _ => dup.bind fun s => (done s.size).bind fun n => push (.int (Int64.ofNat n))) ∧
    (default.runOn .empty
      ((((push (.int 2)).bind fun _ => dup).bind fun s => .done s.size).bind fun n => push (.int (Int64.ofNat n)))).2 =
    (default.runOn .empty
      ((push (.int 2)).bind fun _ => dup.bind fun s => (done s.size).bind fun n => push (.int (Int64.ofNat n)))).2 := by
  intro fs
  have hl := brackets_leftNested (push (.int 2)) fs
  have hr := brackets_rightNested (push (.int 2)) fs
  exact ⟨hl, hr, (runOn_laws default .empty).2.2.2 (push (.int 2)) fs |>.2.2 _ _ hl hr⟩

end StackLang
