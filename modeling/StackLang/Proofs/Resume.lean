/-
Resuming a program, with its arrows in order. How a queue splits its arrows between front and rear
and which queue a splice extends never matters: a splice is the first chain followed by the second,
and what a queue makes of a value depends on its chain alone. On chains, feeding a value to one chain
followed by another goes on with the second where the first finishes; where the first suspends, the
second stays behind the arrows that are left. The remarks on the way go with it.
-/
import StackLang.Program.Resume
import StackLang.Queue.Lemmas

namespace StackLang

variable {F : Type → Type → Type 1} {A B C D R S : Type}

/-! ## Splicing -/

namespace Rear

theorem toChain_toRear (c : Chain F B C) (r : Rear F B A) (d : Chain F C D) :
    (Chain.toRear r c).toChain d = r.toChain (c.append d) := by
  induction c generalizing D with
  | nil => rfl
  | cons f c ih => rw [Chain.toRear, ih]; rfl

end Rear

namespace Queue

theorem toChain_pushChain (c : Chain F B C) (q : Queue F A B) :
    (q.pushChain c).toChain = q.toChain.append c := by
  induction c with
  | nil => rw [pushChain, Chain.append_nil]
  | cons f c ih => rw [pushChain, ih, toChain_pushBack, Chain.append_assoc]; rfl

theorem toChain_pushRear (r : Rear F B A) (q : Queue F B C) :
    (pushRear r q).toChain = r.toChain q.toChain := by
  induction r generalizing C with
  | nil => rfl
  | snoc r f ih => rw [pushRear, ih, toChain_pushFront]; rfl

theorem toChain_extendFront (front : Queue F A B) (back : Queue F B C) :
    (front.extendFront back).toChain = front.toChain.append back.toChain := by
  cases back with
  | mk hold chain rear =>
    rw [extendFront, toChain_pushChain, toChain_pushChain, Chain.append_assoc]
    rfl

/-- The arrows of the first queue are put back in order by going through its rear and then through its
front, each time from the end. -/
theorem toChain_extendBack (front : Queue F A B) (back : Queue F B C) :
    (front.extendBack back).toChain = front.toChain.append back.toChain := by
  cases front with
  | mk hold chain rear =>
    rw [extendBack, toChain_pushRear, toChain_pushRear, Rear.toChain_toRear]
    rw [toChain, Chain.append_assoc, Rear.toChain_append]
    rfl

/-- What two queues may become when they are joined, by the way that is taken. -/
inductive Joins : {A B C : Type} → Queue F A B → Queue F B C → Queue F A C → Prop where
  /-- The first queue is empty. -/
  | second {A B : Type} (hold : Hold) (back : Queue F A B) : Joins (empty.held hold) back back
  /-- The second queue is empty. -/
  | first {A B : Type} (front : Queue F A B) (hold : Hold) : Joins front (empty.held hold) front
  /-- The second queue is copied to the end of the first. -/
  | extendFront {A B C : Type} (front : Queue F A B) (back : Queue F B C) : Joins front back (front.extendFront back)
  /-- The first queue is copied to the start of the second. -/
  | extendBack {A B C : Type} (front : Queue F A B) (back : Queue F B C) : Joins front back (front.extendBack back)

/-- Every way appends the chains. -/
theorem Joins.toChain_eq {front : Queue F A B} {back : Queue F B C} {q : Queue F A C} (h : Joins front back q) :
    q.toChain = front.toChain.append back.toChain := by
  cases h with
  | second => rfl
  | first => exact (Chain.append_nil _).symm
  | extendFront => exact toChain_extendFront front back
  | extendBack => exact toChain_extendBack front back

/-- A splice takes one of the four ways. -/
theorem joins_splice (front : Queue F A B) (back : Queue F B C) : Joins front back (front.splice back) := by
  unfold splice
  split
  · exact .second _ _
  · split
    · exact .first _ _
    · split
      · exact .extendFront front back
      · exact .extendBack front back

/-- Splicing two queues appends their chains, whoever holds them. -/
theorem toChain_splice (front : Queue F A B) (back : Queue F B C) :
    (front.splice back).toChain = front.toChain.append back.toChain := (joins_splice front back).toChain_eq

end Queue

/-! ## Programs with their arrows in order -/

/-- A program with the arrows behind its operation in order. -/
inductive View (R : Type) : Type 1 where
  | done (result : R)
  | suspended (operation : Operation) (rest : Chain Arrow Stack R)

/-- The program with its arrows in order. -/
def Program.view : Program R → View R
  | .done r => .done r
  | .suspended op rest => .suspended op rest.toChain

/-- What feeding came to, with the arrows in order. -/
def Feed.view : Feed R → View R
  | .finished r => .done r
  | .paused op inner rest => .suspended op (inner.toChain.append rest)

/-- What the arrows of a chain make of a value. -/
def Chain.fed (c : Chain Arrow A B) (a : A) : View B := (c.feed [] a).2.view

/-- What the arrows of a chain remark when a value is fed to them, in order. -/
def Chain.said (c : Chain Arrow A B) (a : A) : List String := (c.feed [] a).1.reverse

/-- The program followed by the arrows of a chain. -/
def View.append : View A → Chain Arrow A B → View B
  | .done a, c => c.fed a
  | .suspended op rest, c => .suspended op (rest.append c)

@[simp] theorem View.append_nil (v : View A) : v.append .nil = v := by
  cases v with
  | done a => rfl
  | suspended op rest => rw [append, Chain.append_nil]

/-- A copy of a program has the same arrows. -/
@[simp] theorem Program.view_share (p : Program R) : p.share.view = p.view := by
  cases p with
  | done r => rfl
  | suspended op rest => rw [share, view, view, Queue.toChain_held]

namespace Chain

/-- Earlier remarks change nothing but that they stay where they are. -/
theorem feed_eq (c : Chain Arrow A B) (said : List String) (a : A) :
    c.feed said a = ((c.said a).reverse ++ said, (c.feed [] a).2) := by
  rw [Chain.said, List.reverse_reverse]
  induction c generalizing said with
  | nil => rfl
  | cons f c ih =>
    simp only [feed]
    cases f.run a with
    | suspended op inner => simp only [List.append_nil]
    | done b =>
      dsimp only
      rw [ih, ih ((f.remarks a).reverse ++ []), List.append_nil, List.append_assoc]

theorem fed_cons (f : Arrow A B) (c : Chain Arrow B C) (a : A) :
    (cons f c).fed a = (f.run a).view.append c := by
  unfold fed feed
  cases f.run a with
  | done b => exact congrArg (fun said => said.2.view) (c.feed_eq _ b)
  | suspended op inner => rfl

theorem said_cons (f : Arrow A B) (c : Chain Arrow B C) (a : A) :
    (cons f c).said a = f.remarks a ++ match f.run a with
      | .done b => c.said b
      | .suspended .. => [] := by
  rw [said, feed]
  cases f.run a with
  | suspended op inner => simp only [List.append_nil, List.reverse_reverse]
  | done b =>
    dsimp only
    rw [feed_eq, List.append_nil, List.reverse_append, List.reverse_reverse, List.reverse_reverse]

/-- A chain of one arrow makes of a value what the arrow does. -/
@[simp] theorem fed_single (f : Arrow A B) (a : A) : (cons f .nil).fed a = (f.run a).view := by
  rw [fed_cons, View.append_nil]

/-- Feeding a value to one chain followed by another: the second takes over where the first finishes and
waits behind it where the first suspends. -/
theorem fed_append (c : Chain Arrow A B) (d : Chain Arrow B C) (a : A) :
    (c.append d).fed a = (c.fed a).append d := by
  induction c with
  | nil => rfl
  | cons f c ih =>
    rw [append, fed_cons, fed_cons]
    cases (f.run a).view with
    | done b => exact ih d b
    | suspended op rest => rw [View.append, View.append, View.append, append_assoc]

theorem said_append (c : Chain Arrow A B) (d : Chain Arrow B C) (a : A) :
    (c.append d).said a = c.said a ++ match c.fed a with
      | .done b => d.said b
      | .suspended .. => [] := by
  induction c with
  | nil => rfl
  | cons f c ih =>
    rw [append, said_cons, said_cons, fed_cons]
    cases f.run a with
    | done b =>
      dsimp only
      rw [ih, List.append_assoc]
      rfl
    | suspended op inner => exact (List.append_nil _).symm

end Chain

theorem View.append_append (v : View A) (c : Chain Arrow A B) (d : Chain Arrow B C) :
    (v.append c).append d = v.append (c.append d) := by
  cases v with
  | done a => exact (Chain.fed_append c d a).symm
  | suspended op rest => rw [append, append, append, Chain.append_assoc]

namespace Queue

/-- What a queue makes of a value depends on its chain alone, and so do the remarks on the way. -/
theorem feed_toChain (q : Queue Arrow A R) (a : A) :
    (q.feed a).program.view = q.toChain.fed a ∧ (q.feed a).remarks = q.toChain.said a := by
  cases q with
  | mk hold front rear =>
    rw [toChain, Chain.fed_append, Chain.said_append, Chain.fed, Chain.said, feed]
    -- where the front pauses, the rear is not turned into a chain but kept behind the splice
    cases front.feed [] a with
    | mk said fed =>
      cases fed with
      | paused op inner rest =>
        simp only [Program.view, Feed.view, View.append, toChain_splice, Chain.append_assoc, List.append_nil, and_true]
        rfl
      | finished b =>
        simp only [Feed.view, View.append, Chain.fed]
        rw [Chain.feed_eq (rear.toChain .nil) said b]
        cases ((rear.toChain .nil).feed [] b).2 with
        | paused op inner rest =>
          simp only [Program.view, toChain_splice, List.reverse_append, List.reverse_reverse, and_true]
          rw [toChain, Rear.toChain, Chain.append_nil]
        | finished r =>
          simp only [List.reverse_append, List.reverse_reverse, and_true]
          rfl

theorem view_feed (q : Queue Arrow A R) (a : A) : (q.feed a).program.view = q.toChain.fed a := (feed_toChain q a).1

theorem remarks_feed (q : Queue Arrow A R) (a : A) : (q.feed a).remarks = q.toChain.said a := (feed_toChain q a).2

@[simp] theorem view_resume (q : Queue Arrow Stack R) (s : Stack) :
    (q.resume s).view = q.toChain.fed s := view_feed q s

end Queue

theorem Program.exists_of_view {p : Program R} {op : Operation} {c : Chain Arrow Stack R}
    (h : p.view = .suspended op c) : ∃ rest, p = .suspended op rest ∧ rest.toChain = c := by
  cases p with
  | done r => cases h
  | suspended op' rest => cases h; exact ⟨rest, rfl, rfl⟩

theorem Program.eq_done_of_view {p : Program R} {r : R} (h : p.view = .done r) : p = .done r := by
  cases p with
  | done r' => cases h; rfl
  | suspended op rest => cases h

/-- An arrow at the end of a suspended program's queue comes after everything else. -/
theorem Program.view_pushBack (op : Operation) (q : Queue Arrow Stack A) (f : Arrow A B) :
    (Program.suspended op (q.pushBack f)).view = (Program.suspended op q).view.append (.cons f .nil) := by
  rw [view, view, View.append, Queue.toChain_pushBack]

end StackLang
