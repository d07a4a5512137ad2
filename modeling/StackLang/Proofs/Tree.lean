/-
Programs as trees, with nothing left of how they were put together. A tree is done with a result, or it
is suspended on an operation and has one branch for every stack that the operation may leave; along
its branches it may go on for ever. `map` and `bind` go down every branch to the results, and an
evaluation follows the branch of the live stack. Two trees are equal when no sequence of branches tells
them apart (`coinduction`).
-/
import Mathlib.Data.PFunctor.Univariate.M
import StackLang.Evaluation.Run

namespace StackLang

namespace Tree

/-- What stands at a node. -/
inductive Label (R : Type) where
  | done (result : R)
  | suspended (operation : Operation)

/-- The branches below a node: none below a result, one for every stack below an operation. -/
def Branch {R : Type} : Label R → Type
  | .done _ => Empty
  | .suspended _ => Stack

/-- The shape of trees with results of type `R`. -/
def shape (R : Type) : PFunctor.{1, 0} := ⟨Label R, Branch⟩

end Tree

/-- A tree of operations with results of type `R`, finite or not. -/
def Tree (R : Type) : Type 1 := (Tree.shape R).M

namespace Tree

universe u

variable {R S T : Type}

/-- A node with its branches leading to `X`. -/
inductive Node (R : Type) (X : Type u) : Type (max 1 u) where
  | done (result : R)
  | suspended (operation : Operation) (next : Stack → X)

/-- The node with its branches turned into seeds. -/
def Node.seed {X Y : Type u} (f : X → Y) : Node R X → Node R Y
  | .done r => .done r
  | .suspended op next => .suspended op fun s => f (next s)

/-- The node as an object of the trees' functor. -/
def Node.pack {X : Type u} : Node R X → (shape R).Obj X
  | .done r => ⟨.done r, Empty.elim⟩
  | .suspended op next => ⟨.suspended op, next⟩

/-- The node that an object of the trees' functor stands for. -/
def Node.unpack {X : Type u} : (shape R).Obj X → Node R X
  | ⟨.done r, _⟩ => .done r
  | ⟨.suspended op, next⟩ => .suspended op next

/-- The tree that is done with a result. -/
def done (r : R) : Tree R := PFunctor.M.mk (Node.done r).pack

/-- The tree suspended on an operation, with the tree that follows each stack. -/
def suspended (op : Operation) (next : Stack → Tree R) : Tree R :=
  PFunctor.M.mk (Node.suspended op next).pack

/-- The node at the root. -/
def root (t : Tree R) : Node R (Tree R) := Node.unpack (PFunctor.M.dest t)

/-- Grows a tree from a seed: `step` gives the node of a seed, with the seeds of its branches. -/
def grow {X : Type u} (step : X → Node R X) (x : X) : Tree R := PFunctor.M.corec (fun x => (step x).pack) x

@[simp] theorem root_done (r : R) : (done r).root = .done r := rfl

@[simp] theorem root_suspended (op : Operation) (next : Stack → Tree R) :
    (suspended op next).root = .suspended op next := rfl

/-- Every tree is done or suspended. -/
@[elab_as_elim, cases_eliminator]
theorem cases {motive : Tree R → Prop} (done : ∀ r, motive (Tree.done r))
    (suspended : ∀ op next, motive (Tree.suspended op next)) (t : Tree R) : motive t := by
  rw [← PFunctor.M.mk_dest t]
  obtain ⟨label, next⟩ := PFunctor.M.dest t
  cases label with
  | done r =>
    have hn : next = Empty.elim := funext fun e => e.elim
    rw [hn]; exact done r
  | suspended op => exact suspended op next

theorem done_inj {r r' : R} (h : done r = done r') : r = r' := by
  have hr := congrArg root h
  rw [root_done, root_done] at hr
  cases hr; rfl

theorem done_ne_suspended {r : R} {op : Operation} {next : Stack → Tree R} : done r ≠ suspended op next := by
  intro h
  have hr := congrArg root h
  rw [root_done, root_suspended] at hr
  cases hr

theorem suspended_inj {op op' : Operation} {next next' : Stack → Tree R}
    (h : suspended op next = suspended op' next') : op = op' ∧ next = next' := by
  have hr := congrArg root h
  rw [root_suspended, root_suspended] at hr
  cases hr; exact ⟨rfl, rfl⟩

theorem suspended_congr (op : Operation) {next next' : Stack → Tree R} (h : ∀ s, next s = next' s) :
    suspended op next = suspended op next' := by
  rw [funext h]

/-- The tree that the given stacks lead down to, the latest of them first. -/
def subtree (t : Tree R) : List Stack → Tree R
  | [] => t
  | s :: path =>
    match (t.subtree path).root with
    | .done r => done r
    | .suspended _ next => next s

theorem subtree_cons {t : Tree R} {path : List Stack} {op : Operation} {next : Stack → Tree R}
    (h : t.subtree path = suspended op next) (s : Stack) : t.subtree (s :: path) = next s := by
  rw [subtree, h, root_suspended]

/-! ## Growing trees -/

section Grow

variable {X : Type u} {step : X → Node R X} {x : X}

theorem grow_done {r : R} (h : step x = .done r) : grow step x = done r := by
  unfold grow done
  rw [PFunctor.M.corec_def, h]
  -- the two objects differ in their functions from no branches at all
  refine congrArg PFunctor.M.mk (Sigma.ext rfl (heq_of_eq ?_))
  exact funext fun e : Empty => e.elim

theorem grow_suspended {op : Operation} {next : Stack → X} (h : step x = .suspended op next) :
    grow step x = suspended op (fun s => grow step (next s)) := by
  unfold grow suspended
  rw [PFunctor.M.corec_def, h]
  rfl

end Grow

/-- Trees are equal as soon as a relation between them holds that never sees a difference: related trees
are equal, or suspended on the same operation with related trees below every stack. -/
theorem coinduction (rel : Tree R → Tree R → Prop)
    (h : ∀ t u, rel t u → t = u ∨ ∃ op next next', t = suspended op next ∧ u = suspended op next' ∧
      ∀ s, rel (next s) (next' s)) :
    ∀ t u, rel t u → t = u := by
  intro t u htu
  -- equality goes into the bisimulation, for the trees where `h` ends with it
  refine PFunctor.M.bisim (fun t u => t = u ∨ rel t u) ?_ t u (.inr htu)
  rintro t u (rfl | htu)
  · exact ⟨_, _, _, rfl, rfl, fun _ => .inl rfl⟩
  · rcases h t u htu with rfl | ⟨op, next, next', rfl, rfl, hn⟩
    · exact ⟨_, _, _, rfl, rfl, fun _ => .inl rfl⟩
    · exact ⟨.suspended op, next, next', rfl, rfl, fun s => .inr (hn s)⟩

/-! ## Map and bind -/

/-- Replaces every result by `f` of it. -/
def map (t : Tree R) (f : R → S) : Tree S :=
  grow (fun t => match root t with
    | .done r => .done (f r)
    | .suspended op next => .suspended op next) t

@[simp] theorem map_done (r : R) (f : R → S) : (done r).map f = done (f r) := grow_done rfl

@[simp] theorem map_suspended (op : Operation) (next : Stack → Tree R) (f : R → S) :
    (suspended op next).map f = suspended op (fun s => (next s).map f) := grow_suspended rfl

/-- The seeds of `bind`: a tree whose results are still to be replaced, or one that has taken the place of
a result and is kept as it is. -/
def bindNode (k : R → Tree S) : Tree R ⊕ Tree S → Node S (Tree R ⊕ Tree S)
  | .inl t =>
    match root t with
    | .done r => (root (k r)).seed .inr
    | .suspended op next => .suspended op fun s => .inl (next s)
  | .inr u => (root u).seed .inr

/-- Puts the tree `k r` in the place of every result `r`. -/
def bind (t : Tree R) (k : R → Tree S) : Tree S := grow (bindNode k) (.inl t)

theorem grow_bindNode_inr (k : R → Tree S) (u : Tree S) : grow (bindNode k) (.inr u) = u := by
  refine coinduction (fun t u => t = grow (bindNode k) (.inr u)) ?_ _ u rfl
  rintro _ u rfl
  cases u with
  | done b => exact .inl (grow_done rfl)
  | suspended op next => exact .inr ⟨op, _, next, grow_suspended rfl, rfl, fun _ => rfl⟩

@[simp] theorem bind_done (r : R) (k : R → Tree S) : (done r).bind k = k r := by
  have hr : bindNode k (.inl (done r)) = (root (k r)).seed .inr := rfl
  unfold bind
  cases hk : k r with
  | done b => rw [hk] at hr; exact grow_done hr
  | suspended op next =>
    rw [hk] at hr
    rw [grow_suspended hr]
    exact suspended_congr op fun s => grow_bindNode_inr k (next s)

@[simp] theorem bind_suspended (op : Operation) (next : Stack → Tree R) (k : R → Tree S) :
    (suspended op next).bind k = suspended op (fun s => (next s).bind k) := grow_suspended rfl

theorem bind_congr (t : Tree R) {k k' : R → Tree S} (h : ∀ r, k r = k' r) : t.bind k = t.bind k' := by
  rw [funext h]

theorem bind_done_right (t : Tree R) : t.bind done = t := by
  refine coinduction (fun u t => u = t.bind done) ?_ _ t rfl
  rintro _ t rfl
  cases t with
  | done r => exact .inl (bind_done r done)
  | suspended op next => exact .inr ⟨op, _, next, bind_suspended op next done, rfl, fun _ => rfl⟩

theorem bind_assoc (t : Tree R) (f : R → Tree S) (g : S → Tree T) :
    (t.bind f).bind g = t.bind fun r => (f r).bind g := by
  refine coinduction (fun u v => ∃ t : Tree R, u = (t.bind f).bind g ∧ v = t.bind fun r => (f r).bind g)
    ?_ _ _ ⟨t, rfl, rfl⟩
  rintro _ _ ⟨t, rfl, rfl⟩
  cases t with
  | done r => left; rw [bind_done, bind_done]
  | suspended op next =>
    right
    rw [bind_suspended, bind_suspended, bind_suspended]
    exact ⟨op, _, _, rfl, rfl, fun s => ⟨next s, rfl, rfl⟩⟩

theorem map_eq_bind (t : Tree R) (f : R → S) : t.map f = t.bind fun r => done (f r) := by
  refine coinduction (fun u v => ∃ t : Tree R, u = t.map f ∧ v = t.bind fun r => done (f r)) ?_ _ _ ⟨t, rfl, rfl⟩
  rintro _ _ ⟨t, rfl, rfl⟩
  cases t with
  | done r => left; rw [map_done, bind_done]
  | suspended op next =>
    right
    rw [map_suspended, bind_suspended]
    exact ⟨op, _, _, rfl, rfl, fun s => ⟨next s, rfl, rfl⟩⟩

/-! ## Evaluation -/

/-- Evaluates a tree from a stack, `n` operations having been executed before. There is no verdict when
the evaluation goes on for ever. -/
def run (limit : Option Nat) (t : Tree R) (s : Stack) (n : Nat) : Option (Verdict R) :=
  match t.root with
  | .done r => some (.ok ⟨r, s, n⟩)
  | .suspended op next =>
    match limitReached limit n with
    | some l => some (.error ⟨.stepLimit l, n⟩)
    | none =>
      match op.execute s with
      | .error failure => some (.error ⟨failure, n⟩)
      | .ok after => next after |>.run limit after (n + 1)
partial_fixpoint

/-- The evaluations that end, with their verdicts: by a result, by the limit, by a failure, or by what
follows an operation. -/
inductive Ends (limit : Option Nat) : Tree R → Stack → Nat → Verdict R → Prop where
  | finished (r : R) (s : Stack) (n : Nat) : Ends limit (done r) s n (.ok ⟨r, s, n⟩)
  | exceeded {op : Operation} {next : Stack → Tree R} {s : Stack} {n l : Nat}
      (hl : limitReached limit n = some l) :
      Ends limit (suspended op next) s n (.error ⟨.stepLimit l, n⟩)
  | failed {op : Operation} {next : Stack → Tree R} {s : Stack} {n : Nat} {failure : Failure}
      (hl : limitReached limit n = none) (hx : op.execute s = .error failure) :
      Ends limit (suspended op next) s n (.error ⟨failure, n⟩)
  | executed {op : Operation} {next : Stack → Tree R} {s after : Stack} {n : Nat} {v : Verdict R}
      (hl : limitReached limit n = none) (hx : op.execute s = .ok after)
      (h : Ends limit (next after) after (n + 1) v) :
      Ends limit (suspended op next) s n v

theorem run_of_ends {limit : Option Nat} {t : Tree R} {s : Stack} {n : Nat} {v : Verdict R}
    (h : Ends limit t s n v) : t.run limit s n = some v := by
  induction h with
  | finished r s n => rw [run, root_done]
  | exceeded hl => rw [run, root_suspended]; simp only [hl]
  | failed hl hx => rw [run, root_suspended]; simp only [hl, hx]
  | executed hl hx _ ih => rw [run, root_suspended]; simp only [hl, hx, ih]

theorem ends_of_run {limit : Option Nat} {t : Tree R} {s : Stack} {n : Nat} {v : Verdict R}
    (h : t.run limit s n = some v) : Ends limit t s n v := by
  -- fixpoint induction: `ih` speaks for the verdicts of the recursive call
  refine run.partial_correctness limit (fun t s n v => Ends limit t s n v) ?_ t s n v h
  intro run ih t s n v h
  cases t with
  | done r => cases h; exact .finished r s n
  | suspended op next =>
    rw [root_suspended] at h
    dsimp only at h
    split at h
    · rename_i l hl
      cases h; exact .exceeded hl
    · rename_i hl
      split at h
      · rename_i failure hx
        cases h; exact .failed hl hx
      · rename_i after hx
        exact .executed hl hx (ih _ _ _ _ h)

theorem run_eq_some_iff {limit : Option Nat} {t : Tree R} {s : Stack} {n : Nat} {v : Verdict R} :
    t.run limit s n = some v ↔ Ends limit t s n v := ⟨ends_of_run, run_of_ends⟩

theorem run_eq_none_iff {limit : Option Nat} {t : Tree R} {s : Stack} {n : Nat} :
    t.run limit s n = none ↔ ∀ v, ¬ Ends limit t s n v := by
  simp only [Option.eq_none_iff_forall_ne_some, ne_eq, run_eq_some_iff]

end Tree

end StackLang
