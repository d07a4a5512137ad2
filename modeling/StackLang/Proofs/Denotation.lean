/-
The tree of a program, and that programs are as good as their trees. `denote` unfolds a program by
resuming it with every stack. Since what a queue makes of a value depends on its chain alone, and
chains are fed one after the other, an arrow at the end of a queue is a `bind` of trees; so `map`,
`bind`, `andThen` and `sequence` are those of trees, however their queues are built and spliced. An
evaluation of a program is the evaluation of its tree, and every tree, finite or not, is that of a
program.
-/
import StackLang.Proofs.Resume
import StackLang.Proofs.Run
import StackLang.Proofs.Tree

namespace StackLang

variable {A B R S : Type}

/-! ## Trees of programs -/

/-- The first node of a program's tree: the branches resume the program. -/
def Program.node : Program R → Tree.Node R (Program R)
  | .done r => .done r
  | .suspended op rest => .suspended op rest.resume

/-- The tree of a program. -/
def Program.denote (p : Program R) : Tree R := Tree.grow Program.node p

@[simp] theorem Program.denote_done (r : R) : (Program.done r).denote = .done r := Tree.grow_done rfl

@[simp] theorem Program.denote_suspended (op : Operation) (rest : Queue Arrow Stack R) :
    (Program.suspended op rest).denote = .suspended op fun s => (rest.resume s).denote :=
  Tree.grow_suspended rfl

namespace View

/-- The first node of the tree of a program with its arrows in order. -/
def node : View R → Tree.Node R (View R)
  | .done r => .done r
  | .suspended op rest => .suspended op rest.fed

/-- The tree of a program with its arrows in order. -/
def denote (v : View R) : Tree R := Tree.grow node v

@[simp] theorem denote_done (r : R) : (View.done r).denote = .done r := Tree.grow_done rfl

@[simp] theorem denote_suspended (op : Operation) (rest : Chain Arrow Stack R) :
    (View.suspended op rest).denote = .suspended op fun s => (rest.fed s).denote := Tree.grow_suspended rfl

/-- Arrows behind a program are a `bind` of trees. -/
theorem denote_append (v : View A) (c : Chain Arrow A B) :
    (v.append c).denote = v.denote.bind fun a => (c.fed a).denote := by
  refine Tree.coinduction
    (fun t u => ∃ v : View A, t = (v.append c).denote ∧ u = v.denote.bind fun a => (c.fed a).denote)
    ?_ _ _ ⟨v, rfl, rfl⟩
  rintro _ _ ⟨v, rfl, rfl⟩
  -- going down a branch changes `v` only: the arrows of `c` stay behind until `v` is done
  cases v with
  | done a => left; rw [append, denote_done, Tree.bind_done]
  | suspended op rest =>
    right
    refine ⟨op, _, _, denote_suspended op (rest.append c), ?_, fun s => ⟨rest.fed s, ?_, rfl⟩⟩
    · rw [denote_suspended, Tree.bind_suspended]
    · rw [Chain.fed_append]

end View

namespace Program

/-- The tree of a program depends on its arrows and their order only. -/
theorem denote_view (p : Program R) : p.view.denote = p.denote := by
  refine Tree.coinduction (fun t u => ∃ p : Program R, t = p.view.denote ∧ u = p.denote) ?_ _ _ ⟨p, rfl, rfl⟩
  rintro _ _ ⟨p, rfl, rfl⟩
  cases p with
  | done r => left; rw [view, View.denote_done, denote_done]
  | suspended op rest =>
    right
    refine ⟨op, _, _, View.denote_suspended op rest.toChain, denote_suspended op rest, fun s => ?_⟩
    exact ⟨rest.resume s, by rw [Queue.view_resume], rfl⟩

@[simp] theorem denote_share (p : Program R) : p.share.denote = p.denote := by
  rw [← denote_view, view_share, denote_view]

theorem denote_pushBack (op : Operation) (rest : Queue Arrow Stack A) (f : Arrow A B) :
    (suspended op (rest.pushBack f)).denote = (suspended op rest).denote.bind fun a => (f.run a).denote := by
  rw [← denote_view, view_pushBack, View.denote_append, denote_view]
  refine Tree.bind_congr _ fun a => ?_
  rw [Chain.fed_single, denote_view]

/-- The arrows of a second queue behind those of a first are a `bind` of trees, whoever holds the queues and
hence whichever of them is copied. -/
theorem denote_splice (op : Operation) (front : Queue Arrow Stack A) (back : Queue Arrow A B) :
    (suspended op (front.splice back)).denote =
      (suspended op front).denote.bind fun a => (back.feed a).program.denote := by
  have hv : (suspended op (front.splice back)).view = (suspended op front).view.append back.toChain := by
    rw [view, view, View.append, Queue.toChain_splice]
  rw [← denote_view, hv, View.denote_append, denote_view]
  refine Tree.bind_congr _ fun a => ?_
  rw [← Queue.view_feed, denote_view]

/-! ## Composition -/

theorem denote_bindRemarking (p : Program R) (remark : R → List String) (k : R → Program S) :
    (p.bindRemarking remark k).denote = p.denote.bind fun r => (k r).denote := by
  cases p with
  | done r => rw [bindRemarking, denote_done, Tree.bind_done]
  | suspended op rest => exact denote_pushBack op rest (.call remark k)

@[simp] theorem denote_bind (p : Program R) (k : R → Program S) :
    (p.bind k).denote = p.denote.bind fun r => (k r).denote := denote_bindRemarking p _ k

theorem denote_mapRemarking (p : Program R) (remark : R → List String) (f : R → S) :
    (p.mapRemarking remark f).denote = p.denote.map f := by
  rw [Tree.map_eq_bind]
  cases p with
  | done r => rw [mapRemarking, denote_done, denote_done, Tree.bind_done]
  | suspended op rest =>
    rw [mapRemarking, denote_pushBack]
    refine Tree.bind_congr _ fun r => ?_
    rw [Arrow.run, denote_done]

@[simp] theorem denote_map (p : Program R) (f : R → S) : (p.map f).denote = p.denote.map f :=
  denote_mapRemarking p _ f

@[simp] theorem denote_andThen (p : Program R) (next : Program S) :
    (p.andThen next).denote = p.denote.bind fun _ => next.denote := by
  cases p with
  | done r => rw [andThen, denote_done, Tree.bind_done]
  | suspended op rest =>
    rw [andThen, denote_pushBack]
    refine Tree.bind_congr _ fun r => ?_
    rw [Arrow.run, denote_share]

theorem denote_foldl_andThen (ps : List (Program Stack)) (p : Program Stack) :
    (ps.foldl andThen p).denote = ps.foldl (fun t q => t.bind fun _ => q.denote) p.denote := by
  induction ps generalizing p with
  | nil => rfl
  | cons q ps ih => rw [List.foldl_cons, List.foldl_cons, ih, denote_andThen]

theorem denote_sequence (ps : List (Program Stack)) :
    (sequence ps).denote = ps.foldl (fun t q => t.bind fun _ => q.denote) (.done .empty) := by
  rw [sequence, denote_foldl_andThen, denote_done]

/-- A loop unfolds to its body and the loop again. -/
theorem denote_iterate (body : R → Turn R S) (r : R) :
    (iterate body r).denote = match body r with
      | .stop b => .done b
      | .again op rest => (suspended op rest).denote.bind fun r => (iterate body r).denote := by
  have hr : iterate body r = match body r with
      | .stop b => .done b
      | .again op rest => .suspended op (rest.pushBack (.loop body)) := rfl
  rw [hr]
  cases body r with
  | stop b => exact denote_done b
  | again op rest => exact denote_pushBack op rest (.loop body)

theorem denote_suspend (op : Operation) : (suspend op).denote = .suspended op .done := by
  rw [suspend, denote_suspended]
  exact Tree.suspended_congr op denote_done

/-! ## Programs of trees -/

/-- One turn down a tree: it stops at a result, and otherwise takes the branch of the stack. -/
def descend (t : Tree R) (path : List Stack) : Turn (List Stack) R :=
  match (t.subtree path).root with
  | .done r => .stop r
  | .suspended op _ => .again op (Queue.empty.pushBack (.call (fun _ => []) fun s => .done (s :: path)))

/-- The program that goes down a tree. -/
def ofTree (t : Tree R) : Program R := iterate (descend t) []

theorem denote_descend_done {t : Tree R} {path : List Stack} {r : R} (h : t.subtree path = .done r) :
    (iterate (descend t) path).denote = .done r := by
  rw [denote_iterate, descend, h, Tree.root_done]

theorem denote_descend_suspended {t : Tree R} {path : List Stack} {op : Operation} {next : Stack → Tree R}
    (h : t.subtree path = .suspended op next) :
    (iterate (descend t) path).denote = .suspended op fun s => (iterate (descend t) (s :: path)).denote := by
  have hd : ∀ s, ((Arrow.call (fun _ => []) fun s => done (s :: path)).run s).denote = .done (s :: path) :=
    fun s => denote_done (s :: path)
  rw [denote_iterate, descend, h, Tree.root_suspended]
  show (suspended op _).denote.bind _ = _
  rw [denote_pushBack, Tree.bind_congr _ hd]
  show ((suspend op).denote.bind _).bind _ = _
  rw [denote_suspend, Tree.bind_suspended, Tree.bind_suspended]
  refine Tree.suspended_congr op fun s => ?_
  rw [Tree.bind_done, Tree.bind_done]

/-- Every tree is the tree of a program, also a tree that goes on for ever: a loop needs no more than its
turn to be given. -/
theorem denote_ofTree (t : Tree R) : (ofTree t).denote = t := by
  -- the program and the tree are followed down the same path, which grows by a stack at each node
  refine Tree.coinduction (fun u v => ∃ path, u = (iterate (descend t) path).denote ∧ v = t.subtree path) ?_ _ t
    ⟨[], rfl, rfl⟩
  rintro _ _ ⟨path, rfl, rfl⟩
  cases h : t.subtree path with
  | done r => left; exact denote_descend_done h
  | suspended op next =>
    right
    exact ⟨op, _, next, denote_descend_suspended h, rfl, fun s => ⟨s :: path, rfl, (Tree.subtree_cons h s).symm⟩⟩

end Program

/-! ## Evaluation -/

theorem Config.Ends.denote {limit : Option Nat} {c : Config R} {events : List Event} {v : Verdict R}
    (h : c.Ends limit events v) : c.program.denote.Ends limit c.stack c.steps v := by
  induction h with
  | finished r s n => rw [Program.denote_done]; exact .finished r s n
  | exceeded hl => rw [Program.denote_suspended]; exact .exceeded hl
  | failed hl hx => rw [Program.denote_suspended]; exact .failed hl hx
  | executed hl hx _ ih => rw [Program.denote_suspended]; exact .executed hl hx ih

theorem Program.eq_done_of_denote {p : Program R} {r : R} (h : p.denote = .done r) : p = .done r := by
  cases p with
  | done r' => rw [denote_done] at h; rw [Tree.done_inj h]
  | suspended op rest => rw [denote_suspended] at h; exact absurd h.symm Tree.done_ne_suspended

theorem Program.eq_suspended_of_denote {p : Program R} {op : Operation} {next : Stack → Tree R}
    (h : p.denote = .suspended op next) :
    ∃ rest, p = .suspended op rest ∧ ∀ s, (rest.resume s).denote = next s := by
  cases p with
  | done r => rw [denote_done] at h; exact absurd h Tree.done_ne_suspended
  | suspended op' rest =>
    rw [denote_suspended] at h
    obtain ⟨rfl, rfl⟩ := Tree.suspended_inj h
    exact ⟨rest, rfl, fun _ => rfl⟩

theorem Tree.Ends.of_denote {limit : Option Nat} {t : Tree R} {s : Stack} {n : Nat} {v : Verdict R}
    (h : t.Ends limit s n v) {p : Program R} (hp : p.denote = t) :
    ∃ events, Config.Ends limit ⟨p, s, n⟩ events v := by
  induction h generalizing p with
  | finished r s n =>
    cases Program.eq_done_of_denote hp
    exact ⟨_, .finished r s n⟩
  | exceeded hl =>
    obtain ⟨rest, rfl, -⟩ := Program.eq_suspended_of_denote hp
    exact ⟨_, .exceeded hl⟩
  | failed hl hx =>
    obtain ⟨rest, rfl, -⟩ := Program.eq_suspended_of_denote hp
    exact ⟨_, .failed hl hx⟩
  | executed hl hx _ ih =>
    obtain ⟨rest, rfl, hn⟩ := Program.eq_suspended_of_denote hp
    obtain ⟨later, h⟩ := ih (hn _)
    exact ⟨_, .executed hl hx h⟩

theorem Interpreter.runOn_eq_denote (i : Interpreter) (s : Stack) (p : Program R) :
    (i.runOn s p).2 = p.denote.run i.maxSteps s 0 := by
  apply Option.ext
  intro v
  rw [runOn_eq_some_iff, Tree.run_eq_some_iff]
  constructor
  · rintro ⟨events, h⟩; exact h.denote
  · intro h; exact h.of_denote rfl

/-- Programs with the same tree evaluate alike. -/
theorem Interpreter.runOn_congr (i : Interpreter) (s : Stack) {p q : Program R} (h : p.denote = q.denote) :
    (i.runOn s p).2 = (i.runOn s q).2 := by
  rw [runOn_eq_denote, runOn_eq_denote, h]

/-- Programs refine the free monad: unfolding a program by resuming it with every stack turns its operations
into nodes and `map`, `bind`, `andThen` and `sequence` into those of trees, and evaluating a program under
any limit from any stack is evaluating its tree. Splicing queues is a `bind` too, whoever holds them. -/
theorem Program.refines_tree :
    (∀ {R : Type} (r : R), (done r).denote = .done r) ∧
    (∀ {R : Type} (op : Operation) (rest : Queue Arrow Stack R),
      (suspended op rest).denote = .suspended op fun s => (rest.resume s).denote) ∧
    (∀ op : Operation, (suspend op).denote = .suspended op .done) ∧
    (∀ {R S : Type} (p : Program R) (f : R → S), (p.map f).denote = p.denote.map f) ∧
    (∀ {R S : Type} (p : Program R) (k : R → Program S),
      (p.bind k).denote = p.denote.bind fun r => (k r).denote) ∧
    (∀ {R S : Type} (p : Program R) (q : Program S),
      (p.andThen q).denote = p.denote.bind fun _ => q.denote) ∧
    (∀ ps : List (Program Stack),
      (sequence ps).denote = ps.foldl (fun t p => t.bind fun _ => p.denote) (.done .empty)) ∧
    (∀ {R S : Type} (op : Operation) (front : Queue Arrow Stack R) (back : Queue Arrow R S),
      (suspended op (front.splice back)).denote =
        (suspended op front).denote.bind fun r => (back.feed r).program.denote) ∧
    (∀ {R : Type} (i : Interpreter) (s : Stack) (p : Program R),
      (i.runOn s p).2 = p.denote.run i.maxSteps s 0) :=
  ⟨denote_done, denote_suspended, denote_suspend, denote_map, denote_bind, denote_andThen, denote_sequence,
    denote_splice, Interpreter.runOn_eq_denote⟩

/-! ## A program that never ends -/

namespace Program

/-- Puts a value on the stack again and again. -/
def forever (v : Value) : Program Stack := iterate (fun _ : Stack => .again (.push v) .empty) .empty

theorem denote_forever (v : Value) : (forever v).denote = .suspended (.push v) fun _ => (forever v).denote := by
  have hs : (Program.suspended (.push v) .empty).denote = .suspended (.push v) Tree.done := denote_suspend (.push v)
  refine (denote_iterate _ _).trans ?_
  dsimp only
  rw [hs, Tree.bind_suspended]
  exact Tree.suspended_congr _ fun s => Tree.bind_done s _

theorem not_ends_forever {v : Value} {s : Stack} {n : Nat} {w : Verdict Stack} :
    ¬ (forever v).denote.Ends none s n w := by
  intro h
  generalize ht : (forever v).denote = t at h
  -- the tree is its own branch, so that the last rule leads to a shorter derivation for the same tree
  induction h with
  | finished r s n => rw [denote_forever] at ht; exact absurd ht.symm Tree.done_ne_suspended
  | exceeded hl => cases hl
  | failed hl hx =>
    rw [denote_forever] at ht
    obtain ⟨rfl, -⟩ := Tree.suspended_inj ht
    cases hx
  | executed hl hx _ ih =>
    rw [denote_forever] at ht
    obtain ⟨-, rfl⟩ := Tree.suspended_inj ht
    exact ih rfl

end Program

theorem Interpreter.runOn_forever {i : Interpreter} (hi : i.maxSteps = none) (s : Stack) (v : Value) :
    (i.runOn s (.forever v)).2 = none := by
  rw [runOn_eq_denote, hi, Tree.run_eq_none_iff]
  intro w
  exact Program.not_ends_forever

end StackLang
