/-
Silent programs: none of their functions makes a remark for the evaluation log, whenever it may be called,
neither those of transforms nor those that programs are bound to. A silent program stays silent when
it is resumed, and resuming it makes no remarks. Programs composed of silent ones without remarks are
silent.
-/
import StackLang.Proofs.Resume
import StackLang.Evaluation.Event

namespace StackLang

variable {A B C R S : Type}

/-- Whether an operation is none of a transform that makes remarks. -/
def Operation.Silent : Operation → Prop
  | .apply t => ∀ s, t.remark s = []
  | _ => True

mutual

/-- The programs whose functions make no remarks, whenever they may be called. -/
inductive Program.Silent : {R : Type} → Program R → Prop where
  | done {R : Type} (r : R) : Program.Silent (.done r)
  | suspended {R : Type} {op : Operation} {rest : Queue Arrow Stack R} (hop : op.Silent)
      (hrest : Chain.Silent rest.toChain) : Program.Silent (.suspended op rest)

/-- The chains of silent arrows. -/
inductive Chain.Silent : {A B : Type} → Chain Arrow A B → Prop where
  | nil {A : Type} : Chain.Silent (.nil : Chain Arrow A A)
  | cons {A B C : Type} {f : Arrow A B} {c : Chain Arrow B C} (hf : Arrow.Silent f) (hc : Chain.Silent c) :
      Chain.Silent (.cons f c)

/-- The arrows that make no remarks and lead to silent programs only. -/
inductive Arrow.Silent : {A B : Type} → Arrow A B → Prop where
  | call {A B : Type} {remark : A → List String} {k : A → Program B} (hr : ∀ a, remark a = [])
      (hk : ∀ a, Program.Silent (k a)) : Arrow.Silent (.call remark k)
  | next {A B : Type} {p : Program B} (hp : Program.Silent p) : Arrow.Silent (.next p : Arrow A B)
  | loop {A B : Type} {body : A → Turn A B} (hb : ∀ a, Turn.Silent (body a)) : Arrow.Silent (.loop body)

/-- The turns that lead to silent programs only. -/
inductive Turn.Silent : {A B : Type} → Turn A B → Prop where
  | stop {A B : Type} (b : B) : Turn.Silent (.stop b : Turn A B)
  | again {A B : Type} {op : Operation} {rest : Queue Arrow Stack A} (hop : op.Silent)
      (hrest : Chain.Silent rest.toChain) : Turn.Silent (.again op rest : Turn A B)

end

/-! ## Chains -/

namespace Chain

theorem Silent.append {c : Chain Arrow A B} {d : Chain Arrow B C} (hc : c.Silent) (hd : d.Silent) :
    (c.append d).Silent := by
  induction c with
  | nil => exact hd
  | cons f c ih =>
    cases hc with
    | cons hf hc => exact .cons hf (ih hc hd)

end Chain

theorem Program.Silent.share {p : Program R} (h : p.Silent) : p.share.Silent := by
  cases h with
  | done r => exact .done r
  | suspended hop hrest => exact .suspended hop (by rwa [Queue.toChain_held])

theorem Arrow.Silent.remarks {f : Arrow A B} (h : f.Silent) (a : A) : f.remarks a = [] := by
  cases h with
  | call hr _ => exact hr a
  | next _ => rfl
  | loop _ => rfl

theorem Arrow.Silent.run {f : Arrow A B} (h : f.Silent) (a : A) : (f.run a).Silent := by
  cases h with
  | call _ hk => exact hk a
  | next hp => exact hp.share
  | @loop _ _ body hb =>
    rw [Arrow.run]
    have ha := hb a
    cases ht : body a with
    | stop b => exact .done b
    | again op rest =>
      rw [ht] at ha
      cases ha with
      | again hop hrest =>
        refine .suspended hop ?_
        rw [Queue.toChain_pushBack]
        exact hrest.append (.cons (.loop hb) .nil)

/-! ## Resuming -/

namespace Chain

/-- Silent arrows say nothing and lead on to silent programs. -/
theorem Silent.fed {c : Chain Arrow A B} (h : c.Silent) (a : A) :
    c.said a = [] ∧
      match c.fed a with
      | .done _ => True
      | .suspended op rest => op.Silent ∧ rest.Silent := by
  induction c with
  | nil => exact ⟨rfl, trivial⟩
  | cons f c ih =>
    cases h with
    | cons hf hc =>
      have hp := hf.run a
      rw [said_cons, fed_cons, hf.remarks a, List.nil_append]
      cases hr : f.run a with
      | done b => exact ih hc b
      | suspended op inner =>
        rw [hr] at hp
        cases hp with
        | suspended hop hinner => exact ⟨rfl, hop, hinner.append hc⟩

end Chain

namespace Queue

variable {q : Queue Arrow Stack R}

theorem silent_resume (h : q.toChain.Silent) (s : Stack) : (q.resume s).Silent := by
  have hf := (h.fed s).2
  rw [← view_resume] at hf
  cases hr : q.resume s with
  | done r => exact .done r
  | suspended op rest =>
    rw [hr] at hf
    exact .suspended hf.1 hf.2

theorem remarks_of_silent (h : q.toChain.Silent) (s : Stack) : (q.feed s).remarks = [] :=
  (remarks_feed q s).trans (h.fed s).1

end Queue

/-! ## Composition -/

namespace Program.Silent

theorem pushBack {op : Operation} {rest : Queue Arrow Stack A} {f : Arrow A B}
    (h : (Program.suspended op rest).Silent) (hf : f.Silent) : (Program.suspended op (rest.pushBack f)).Silent := by
  cases h with
  | suspended hop hrest =>
    refine .suspended hop ?_
    rw [Queue.toChain_pushBack]
    exact hrest.append (.cons hf .nil)

theorem suspend {op : Operation} (hop : op.Silent) : (suspend op).Silent := .suspended hop .nil

variable {p : Program R}

theorem bind {k : R → Program S} (h : p.Silent) (hk : ∀ r, (k r).Silent) : (p.bind k).Silent := by
  cases p with
  | done r => exact hk r
  | suspended op rest => exact h.pushBack (.call (fun _ => rfl) hk)

theorem map (h : p.Silent) (f : R → S) : (p.map f).Silent := by
  cases p with
  | done r => exact .done (f r)
  | suspended op rest => exact h.pushBack (.call (fun _ => rfl) fun r => .done (f r))

theorem andThen {next : Program S} (h : p.Silent) (hn : next.Silent) : (p.andThen next).Silent := by
  cases p with
  | done r => exact hn
  | suspended op rest => exact h.pushBack (.next hn)

theorem foldl_andThen {ps : List (Program Stack)} (hs : ∀ p ∈ ps, p.Silent) {q : Program Stack} (hq : q.Silent) :
    (ps.foldl Program.andThen q).Silent := by
  induction ps generalizing q with
  | nil => exact hq
  | cons p ps ih =>
    have hqp : (q.andThen p).Silent := hq.andThen (hs p List.mem_cons_self)
    exact ih (fun r hr => hs r (List.mem_cons_of_mem p hr)) hqp

theorem sequence {ps : List (Program Stack)} (hs : ∀ p ∈ ps, p.Silent) : (sequence ps).Silent :=
  foldl_andThen hs (.done _)

end Program.Silent

end StackLang
