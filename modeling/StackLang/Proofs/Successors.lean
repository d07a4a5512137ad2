/-
The shape of sequences. Putting programs in sequence executes nothing. Programs in front that are done leave
no trace; the first one that is suspended is what the sequence is suspended on, and every program behind it
is one arrow more at the end of the queue. There these arrows stay while the first program is walked
through, whatever stacks it is given and whatever queues it splices in on the way; when it is done, what is
left is the sequence of the programs behind it.
-/
import StackLang.Proofs.Walk

namespace StackLang

variable {R S : Type}

/-! ## Arrows behind a program -/

namespace Program

/-- The second program is the first with the arrows of a chain behind it. -/
def ExtendedBy (p : Program R) (c : Chain Arrow R S) (q : Program S) : Prop := q.view = p.view.append c

variable {p : Program R} {q : Program S} {c : Chain Arrow R S} {op : Operation} {rest : Queue Arrow Stack R}

/-- Behind a suspended program, the arrows are at the end of the queue. -/
theorem ExtendedBy.exists_suspended (h : (suspended op rest).ExtendedBy c q) :
    ∃ rest', q = suspended op rest' ∧ rest'.toChain = rest.toChain.append c := exists_of_view h

/-- Resuming the first program resumes the second, the arrows of the chain staying in place. -/
theorem ExtendedBy.resume (h : (suspended op rest).ExtendedBy c q) (s : Stack) :
    (rest.resume s).ExtendedBy c (q.resumed s) := by
  obtain ⟨rest', rfl, hrest⟩ := h.exists_suspended
  unfold ExtendedBy
  rw [resumed, Queue.view_resume, Queue.view_resume, hrest, Chain.fed_append]

/-- As long as the first program is suspended, the second is the same with the arrows of the chain behind it. -/
theorem ExtendedBy.walk (h : p.ExtendedBy c q) {given : List Stack} (hw : p.walk given = suspended op rest) :
    (suspended op rest).ExtendedBy c (q.walk given) := by
  induction given generalizing p q with
  | nil =>
    cases hw
    exact h
  | cons s given ih =>
    cases p with
    | done r =>
      -- what is done stays done, so it is not suspended at the end of the walk
      rw [walk_done] at hw
      cases hw
    | suspended op' rest' => exact ih (h.resume s) hw

/-! ## Sequences -/

/-- The arrows that go on with one program after the other. -/
def successors : List (Program Stack) → Chain Arrow Stack Stack
  | [] => .nil
  | p :: ps => .cons (.next p) (successors ps)

theorem length_successors (ps : List (Program Stack)) : (successors ps).length = ps.length := by
  induction ps with
  | nil => rfl
  | cons p ps ih => rw [successors, Chain.length, List.length_cons, ih]

theorem view_andThen (p : Program R) (q : Program S) : (p.andThen q).view = p.view.append (.cons (.next q) .nil) := by
  cases p with
  | done r =>
    rw [view, View.append, Chain.fed_single, Arrow.run, view_share]
    rfl
  | suspended op rest => exact view_pushBack op rest (.next q)

theorem extendedBy_foldl (ps : List (Program Stack)) (p : Program Stack) :
    p.ExtendedBy (successors ps) (ps.foldl andThen p) := by
  unfold ExtendedBy
  induction ps generalizing p with
  | nil => exact (View.append_nil _).symm
  | cons q ps ih =>
    rw [List.foldl_cons, ih, view_andThen, View.append_append]
    rfl

theorem foldl_done (results : List Stack) (r : Stack) :
    (results.map done).foldl andThen (done r) = done (results.getLastD r) := by
  induction results generalizing r with
  | nil => rfl
  | cons r' results ih => rw [List.map_cons, List.foldl_cons, List.getLastD_cons]; exact ih r'

theorem sequence_done (results : List Stack) : sequence (results.map done) = done (results.getLastD .empty) :=
  foldl_done results .empty

/-- Programs that are done leave no trace in front of another. -/
theorem sequence_skip (results : List Stack) (p : Program Stack) (ps : List (Program Stack)) :
    sequence (results.map done ++ p :: ps) = ps.foldl andThen p := by
  rw [sequence, List.foldl_append, foldl_done]
  rfl

theorem view_successors (r : Stack) {ps : List (Program Stack)} (h : ps ≠ []) :
    (View.done r).append (successors ps) = (sequence ps).view := by
  cases ps with
  | nil => exact absurd rfl h
  | cons p ps =>
    rw [View.append, successors, Chain.fed_cons, Arrow.run, view_share]
    exact (extendedBy_foldl ps p).symm

theorem all_done_or_suspended (ps : List (Program Stack)) :
    (∃ results : List Stack, ps = results.map done) ∨
      ∃ (results : List Stack) (op : Operation) (rest : Queue Arrow Stack Stack) (post : List (Program Stack)),
        ps = results.map done ++ suspended op rest :: post := by
  induction ps with
  | nil => exact .inl ⟨[], rfl⟩
  | cons p ps ih =>
    cases p with
    | suspended op rest => exact .inr ⟨[], op, rest, ps, rfl⟩
    | done r =>
      rcases ih with ⟨results, rfl⟩ | ⟨results, op, rest, post, rfl⟩
      · exact .inl ⟨r :: results, rfl⟩
      · exact .inr ⟨r :: results, op, rest, post, rfl⟩

/-- The queue of a sequence while its first suspended program is walked through. -/
theorem exists_walk_sequence (results : List Stack) {p : Program Stack} (post : List (Program Stack))
    {given : List Stack} {op : Operation} {rest : Queue Arrow Stack Stack} (hw : p.walk given = suspended op rest) :
    ∃ q, (sequence (results.map done ++ p :: post)).walk given = suspended op q ∧
      q.toChain = rest.toChain.append (successors post) ∧ q.length = rest.length + post.length := by
  rw [sequence_skip]
  obtain ⟨q, hq, hchain⟩ := ((extendedBy_foldl post p).walk hw).exists_suspended
  refine ⟨q, hq, hchain, ?_⟩
  rw [← Queue.length_toChain, hchain, Chain.length_append, Queue.length_toChain, length_successors]

/-- When the first program is done, the arrows behind it are the sequence of the others. -/
theorem view_resume_successors {post : List (Program Stack)} {rest q : Queue Arrow Stack Stack} {s v : Stack}
    (hq : q.toChain = rest.toChain.append (successors post)) (hv : rest.resume s = done v) :
    (q.resume s).view = (View.done v).append (successors post) := by
  rw [Queue.view_resume, hq, Chain.fed_append, ← Queue.view_resume, hv]
  rfl

/-- The shape of sequences. Programs that are all done make a sequence that is done, with the result of the
last one, and the empty stack if there are none. In every other list there is a first program that is
suspended: the sequence is suspended on its operation, with its arrows and one more for each program behind
it. Resumed with the same stacks, whatever they are, both stay suspended on the same operation, the sequence
with as many arrows more as there are programs behind the first; and when the first is done, the sequence has
become the sequence of the programs behind it, the same operation and the same arrows, or if there are none,
is done with the same result. -/
theorem sequence_shape :
    (∀ results : List Stack, sequence (results.map done) = done (results.getLastD .empty)) ∧
    (∀ ps : List (Program Stack), (∃ results : List Stack, ps = results.map done) ∨
      ∃ (results : List Stack) (op : Operation) (rest : Queue Arrow Stack Stack) (post : List (Program Stack)),
        ps = results.map done ++ suspended op rest :: post) ∧
    ∀ (results : List Stack) (op : Operation) (rest : Queue Arrow Stack Stack) (post : List (Program Stack)),
      (∃ q, sequence (results.map done ++ suspended op rest :: post) = suspended op q ∧
        q.length = rest.length + post.length) ∧
      ∀ given op' rest', (suspended op rest).walk given = suspended op' rest' →
        ∃ q, (sequence (results.map done ++ suspended op rest :: post)).walk given = suspended op' q ∧
          q.length = rest'.length + post.length ∧
          ∀ s v, rest'.resume s = done v →
            (post = [] → q.resume s = done v) ∧ (post ≠ [] → (q.resume s).view = (sequence post).view) := by
  refine ⟨sequence_done, all_done_or_suspended, fun results op rest post => ⟨?_, fun given op' rest' hw => ?_⟩⟩
  · have hstart : (suspended op rest).walk [] = suspended op rest := rfl
    obtain ⟨q, hq, -, hlength⟩ := exists_walk_sequence results post hstart
    exact ⟨q, hq, hlength⟩
  · obtain ⟨q, hq, hchain, hlength⟩ := exists_walk_sequence results post hw
    refine ⟨q, hq, hlength, fun s v hv => ⟨?_, fun hpost => ?_⟩⟩
    · rintro rfl
      exact eq_done_of_view (view_resume_successors hchain hv)
    · rw [view_resume_successors hchain hv, view_successors v hpost]

/-- A first program that brings in two operations on the way, behind one that is done and in front of two more:
the arrows at the start, after two stacks, and when it is done. -/
theorem sequence_shape_on_the_way :
    let p := (push (.int 1)).bind fun _ => sequence [dup, add]
    let ps := [done .empty, p, pop, mul]
    (∃ q, sequence ps = suspended (.push (.int 1)) q ∧ q.length = p.pending + 2) ∧
    ∃ rest, p.walk [.empty, .empty] = suspended .add rest ∧
      ∃ q, (sequence ps).walk [.empty, .empty] = suspended .add q ∧ q.length = rest.length + 2 ∧
        rest.resume .empty = done .empty ∧ [pop, mul] ≠ [] ∧
        (q.resume .empty).view = (sequence [pop, mul]).view := by
  intro p ps
  have hw : p.walk [.empty, .empty] = suspended .add .empty := rfl
  obtain ⟨hstart, hwalk⟩ := sequence_shape.2.2 [.empty] (.push (.int 1))
    (Queue.empty.pushBack (.call (fun _ => []) fun _ => sequence [dup, add])) [pop, mul]
  obtain ⟨q, hq, hlength, hdone⟩ := hwalk [.empty, .empty] _ _ hw
  have hne : [pop, mul] ≠ [] := List.cons_ne_nil pop [mul]
  exact ⟨hstart, .empty, hw, q, hq, hlength, rfl, hne, (hdone .empty .empty rfl).2 hne⟩

end Program

end StackLang
