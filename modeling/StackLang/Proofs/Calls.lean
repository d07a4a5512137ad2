/-
Which arrows are called when a program is resumed. The arrows of a queue are called in order, each on the
result of the one before it, and the first that suspends is the last that is called: the arrows behind it
stay as they are and wait behind those of the program it returned. Nothing is called twice or left out,
so that resuming takes at most as many calls as there are arrows; what the functions remark on the way is
the record of these calls.

Resuming is Kleisli composition: one queue followed by another goes on with the second where the first is
done, and where the first suspends, the second is behind what is left of it.
-/
import StackLang.Proofs.Resume

namespace StackLang

variable {A B C R : Type}

/-- An arrow that is called, and the value it is called on. -/
structure Call where
  {source : Type}
  {target : Type}
  arrow : Arrow source target
  argument : source

/-- What the evaluation log says about a call. -/
def Call.remarks (call : Call) : List String := call.arrow.remarks call.argument

/-! ## Calls without a suspension -/

namespace Chain

/-- The calls by which a chain takes a value to a result without suspending: all its arrows, in order, the
first one on the value and each of the others on what the one before it is done with. -/
inductive Passes : {A B : Type} → Chain Arrow A B → A → List Call → B → Prop where
  | nil {A : Type} (a : A) : Passes .nil a [] a
  | cons {A B C : Type} {f : Arrow A B} {c : Chain Arrow B C} {a : A} {b : B} {r : C} {calls : List Call}
      (h : f.run a = .done b) (hc : Passes c b calls r) : Passes (.cons f c) a (⟨f, a⟩ :: calls) r

section Passes

variable {c : Chain Arrow A B} {a : A} {b : B} {calls : List Call}

theorem Passes.length_eq (h : c.Passes a calls b) : calls.length = c.length := by
  induction h with
  | nil a => rfl
  | cons _ _ ih => rw [List.length_cons, length, ih]

/-- What follows a chain that is passed is fed with the result. -/
theorem Passes.fed_append (h : c.Passes a calls b) (d : Chain Arrow B C) : (c.append d).fed a = d.fed b := by
  induction h with
  | nil a => rfl
  | cons hf _ ih => rw [append, fed_cons, hf]; exact ih d

/-- The remarks on the way are those of the calls. -/
theorem Passes.said_append (h : c.Passes a calls b) (d : Chain Arrow B C) :
    (c.append d).said a = calls.flatMap Call.remarks ++ d.said b := by
  induction h with
  | nil a => rfl
  | cons hf _ ih =>
    rw [append, said_cons, hf, List.flatMap_cons, List.append_assoc, ← ih d]
    rfl

end Passes

/-- A chain is passed, or there is a first arrow in it that suspends. -/
theorem passes_or_suspends (c : Chain Arrow A R) (a : A) :
    (∃ calls r, c.Passes a calls r) ∨
    ∃ (B C : Type) (pre : Chain Arrow A B) (f : Arrow B C) (post : Chain Arrow C R) (calls : List Call) (b : B)
      (op : Operation) (inner : Queue Arrow Stack C),
      c = pre.append (.cons f post) ∧ pre.Passes a calls b ∧ f.run b = .suspended op inner := by
  induction c with
  | nil => exact .inl ⟨[], a, .nil a⟩
  | cons f c ih =>
    cases hf : f.run a with
    | suspended op inner => exact .inr ⟨_, _, .nil, f, c, [], a, op, inner, rfl, .nil a, hf⟩
    | done b =>
      rcases ih b with ⟨calls, r, hc⟩ | ⟨_, _, pre, g, post, calls, x, op, inner, rfl, hpre, hg⟩
      · exact .inl ⟨_, r, .cons hf hc⟩
      · exact .inr ⟨_, _, .cons f pre, g, post, _, x, op, inner, rfl, .cons hf hpre, hg⟩

end Chain

/-! ## Resuming -/

namespace Queue

/-- One queue followed by another, whoever holds them: what the second makes of the result of the first, or
the second behind what the first leaves. -/
theorem view_feed_splice (front : Queue Arrow A B) (back : Queue Arrow B C) (a : A) :
    ((front.splice back).feed a).program.view = match (front.feed a).program with
      | .done b => (back.feed b).program.view
      | .suspended op rest => .suspended op (rest.toChain.append back.toChain) := by
  rw [view_feed, toChain_splice, Chain.fed_append, ← view_feed]
  cases (front.feed a).program with
  | done b => exact (view_feed back b).symm
  | suspended op rest => rfl

section Calls

variable {q : Queue Arrow A R} {a : A} {calls : List Call}

/-- Without a suspension all arrows are called. -/
theorem feed_of_passes {r : R} (h : q.toChain.Passes a calls r) :
    (q.feed a).program = .done r ∧ (q.feed a).remarks = calls.flatMap Call.remarks := by
  have hf := h.fed_append .nil
  have hr := h.said_append .nil
  rw [Chain.append_nil] at hf hr
  refine ⟨Program.eq_done_of_view ((view_feed q a).trans hf), ?_⟩
  rw [remarks_feed, hr]
  exact List.append_nil _

/-- The first arrow that suspends is the last that is called. -/
theorem feed_of_suspends {pre : Chain Arrow A B} {f : Arrow B C} {post : Chain Arrow C R} {b : B} {op : Operation}
    {inner : Queue Arrow Stack C} (hq : q.toChain = pre.append (.cons f post)) (h : pre.Passes a calls b)
    (hf : f.run b = .suspended op inner) :
    (∃ rest, (q.feed a).program = .suspended op rest ∧ rest.toChain = inner.toChain.append post) ∧
      (q.feed a).remarks = (calls ++ [Call.mk f b]).flatMap Call.remarks := by
  refine ⟨Program.exists_of_view ?_, ?_⟩
  · rw [view_feed, hq, h.fed_append, Chain.fed_cons, hf]
    rfl
  · rw [remarks_feed, hq, h.said_append, Chain.said_cons, hf, List.append_nil, List.flatMap_append,
      List.flatMap_singleton]
    rfl

end Calls

/-- Resuming is Kleisli composition. A queue followed by another, whoever holds the two, makes of a stack what
the second makes of the first one's result, or suspends as the first does, with the second behind what is
left of it. And resuming a queue calls its arrows in order, each on the result of the one before it: all of
them if none suspends, and the last one's result is that of the program; otherwise those up to the first
that suspends, and the arrows of the program it returned are followed by those it was in front of. -/
theorem resume_composition :
    (∀ {A B : Type} (front : Queue Arrow Stack A) (back : Queue Arrow A B) (s : Stack),
      ((front.splice back).resume s).view = match front.resume s with
        | .done a => (back.feed a).program.view
        | .suspended op rest => .suspended op (rest.toChain.append back.toChain)) ∧
    ∀ {R : Type} (q : Queue Arrow Stack R) (s : Stack),
      (∃ calls r, q.toChain.Passes s calls r ∧ q.resume s = .done r ∧ calls.length = q.length ∧
        (q.feed s).remarks = calls.flatMap Call.remarks) ∨
      ∃ (B C : Type) (pre : Chain Arrow Stack B) (f : Arrow B C) (post : Chain Arrow C R) (calls : List Call) (b : B)
        (op : Operation) (inner : Queue Arrow Stack C) (rest : Queue Arrow Stack R),
        q.toChain = pre.append (.cons f post) ∧ pre.Passes s calls b ∧ f.run b = .suspended op inner ∧
        q.resume s = .suspended op rest ∧ rest.toChain = inner.toChain.append post ∧
        calls.length + 1 ≤ q.length ∧ rest.length = inner.length + q.length - (calls.length + 1) ∧
        (q.feed s).remarks = (calls ++ [Call.mk f b]).flatMap Call.remarks := by
  refine ⟨view_feed_splice, fun q s => ?_⟩
  rcases q.toChain.passes_or_suspends s with
    ⟨calls, r, hc⟩ | ⟨B, C, pre, f, post, calls, b, op, inner, hq, hpre, hf⟩
  · obtain ⟨hr, hs⟩ := feed_of_passes hc
    exact .inl ⟨calls, r, hc, hr, by rw [hc.length_eq, length_toChain], hs⟩
  · obtain ⟨⟨rest, hr, hrest⟩, hs⟩ := feed_of_suspends hq hpre hf
    -- the lengths of both sides of `hq` and `hrest` settle the counts
    have hn : q.length = calls.length + (post.length + 1) := by
      rw [← length_toChain, hq, Chain.length_append, hpre.length_eq, Chain.length]
    have hm : rest.length = inner.length + post.length := by
      rw [← length_toChain, hrest, Chain.length_append, length_toChain]
    exact .inr ⟨B, C, pre, f, post, calls, b, op, inner, rest, hq, hpre, hf, hr, hrest, by omega, by omega, hs⟩

end Queue

end StackLang
