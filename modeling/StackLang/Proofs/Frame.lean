/-
What lies below the values that a program uses. Operations other than the application of transforms
work on the top of the stack, so that an evaluation goes the same way with more values below: it
leaves them where they are, under the stack it would leave without them, and only the depths that its
errors report are larger. An underflow alone may go away, and the evaluation with more values gets
at least as far. All this is for programs that look at no result, which might be the size of the stack:
the operations they come to are the same from every stack.
-/
import StackLang.Proofs.Execute
import StackLang.Proofs.Sequence
import StackLang.Dictionary

namespace StackLang

variable {R S : Type}

/-! ## One stack above another -/

namespace Stack

/-- The stack with the values of another one below its own. -/
def above (s t : Stack) : Stack := ofList (s.toList ++ t.toList)

@[simp] theorem push_above (s t : Stack) (v : Value) : (s.push v).above t = (s.above t).push v := by
  unfold above
  rw [toList_push, List.cons_append, ofList_cons]

@[simp] theorem size_above (s t : Stack) : (s.above t).size = s.size + t.size := by
  unfold above
  rw [← length_toList, toList_ofList, List.length_append, length_toList, length_toList]

end Stack

/-- The failure with `n` values more below the stack. -/
def Failure.deeper (n : Nat) : Failure → Failure
  | .typeMismatch operation found depth => .typeMismatch operation found (depth + n)
  | failure => failure

namespace Operation

variable {op : Operation} {s u : Stack}

theorem combine_above {f : Number → Number → Number} (hd : 2 ≤ s.size) (t : Stack) :
    op.combine f (s.above t) = ((op.combine f s).map (·.above t)).mapError (·.deeper t.size) := by
  obtain ⟨r, w, v, rfl⟩ := Stack.exists_push_push hd
  rw [Stack.push_above, Stack.push_above]
  by_cases h : v.toNumber? = none ∨ w.toNumber? = none
  · rw [combine_of_str h, combine_of_str h, Stack.size_above]
    have hs : r.size + t.size + 2 = r.size + 2 + t.size := by omega
    rw [hs]; rfl
  · obtain ⟨hv, hw⟩ := not_or.1 h
    obtain ⟨x, hx⟩ := Option.ne_none_iff_exists'.1 hv
    obtain ⟨y, hy⟩ := Option.ne_none_iff_exists'.1 hw
    rw [combine_of_numbers hx hy, combine_of_numbers hx hy, ← Stack.push_above]
    rfl

/-- An operation that has as many values as it needs does not see what lies below. -/
theorem execute_above (hop : op.isApply = false) (hd : op.requiredDepth ≤ s.size) (t : Stack) :
    op.execute (s.above t) = ((op.execute s).map (·.above t)).mapError (·.deeper t.size) := by
  cases op with
  | push v => rw [execute_push, execute_push, ← Stack.push_above]; rfl
  | apply t => cases hop
  | pop =>
    obtain ⟨r, v, rfl⟩ := Stack.exists_push hd
    rw [Stack.push_above, execute_pop_push, execute_pop_push]; rfl
  | dup =>
    obtain ⟨r, v, rfl⟩ := Stack.exists_push hd
    rw [execute_dup_push, Stack.push_above, execute_dup_push, ← Stack.push_above, ← Stack.push_above]; rfl
  | swap =>
    obtain ⟨r, w, v, rfl⟩ := Stack.exists_push_push hd
    rw [execute_swap_push, Stack.push_above, Stack.push_above, execute_swap_push, ← Stack.push_above,
      ← Stack.push_above]
    rfl
  | add => exact combine_above hd t
  | mul => exact combine_above hd t

end Operation

/-! ## Trees in step -/

namespace Tree

/-- Two trees are in step down to a depth when they come to the same operations, none of which applies a
transform, whatever stacks they are given; the stacks given to one may differ from those given to the
other. -/
def InStep : Nat → Tree R → Tree S → Prop
  | 0, _, _ => True
  | n + 1, t, u =>
    match t.root, u.root with
    | .done _, .done _ => True
    | .suspended op next, .suspended op' next' =>
      op = op' ∧ op.isApply = false ∧ ∀ a b, InStep n (next a) (next' b)
    | _, _ => False

variable {n : Nat} {t : Tree R} {u : Tree S}

theorem inStep_done (n : Nat) (r : R) (r' : S) : InStep n (done r) (done r') := by
  cases n with
  | zero => trivial
  | succ n => rw [InStep, root_done, root_done]; trivial

theorem inStep_suspended {op op' : Operation} {next : Stack → Tree R} {next' : Stack → Tree S} :
    InStep (n + 1) (suspended op next) (suspended op' next') ↔
      op = op' ∧ op.isApply = false ∧ ∀ a b, InStep n (next a) (next' b) := by
  rw [InStep, root_suspended, root_suspended]

/-- Trees in step are both done, or both suspended on the same operation. -/
theorem InStep.cases (h : InStep (n + 1) t u) :
    (∃ r r', t = done r ∧ u = done r') ∨
    ∃ op next next', t = suspended op next ∧ u = suspended op next' ∧ op.isApply = false ∧
      ∀ a b, InStep n (next a) (next' b) := by
  cases t with
  | done r =>
    cases u with
    | done r' => exact .inl ⟨r, r', rfl, rfl⟩
    | suspended op next => rw [InStep, root_done, root_suspended] at h; exact h.elim
  | suspended op next =>
    cases u with
    | done r' => rw [InStep, root_suspended, root_done] at h; exact h.elim
    | suspended op' next' =>
      obtain ⟨rfl, hop, hnext⟩ := inStep_suspended.1 h
      exact .inr ⟨op, next, next', rfl, rfl, hop, hnext⟩

theorem InStep.pred (h : InStep (n + 1) t u) : InStep n t u := by
  induction n generalizing t u with
  | zero => trivial
  | succ n ih =>
    rcases h.cases with ⟨r, r', rfl, rfl⟩ | ⟨op, next, next', rfl, rfl, hop, hnext⟩
    · exact inStep_done _ r r'
    · exact inStep_suspended.2 ⟨rfl, hop, fun a b => ih (hnext a b)⟩

theorem InStep.bind {R' S' : Type} {k : R → Tree R'} {k' : S → Tree S'} (h : InStep n t u)
    (hk : ∀ a b, InStep n (k a) (k' b)) : InStep n (t.bind k) (u.bind k') := by
  induction n generalizing t u with
  | zero => trivial
  | succ n ih =>
    rcases h.cases with ⟨r, r', rfl, rfl⟩ | ⟨op, next, next', rfl, rfl, hop, hnext⟩
    · rw [bind_done, bind_done]; exact hk r r'
    · rw [bind_suspended, bind_suspended]
      exact inStep_suspended.2 ⟨rfl, hop, fun a b => ih (hnext a b) fun a b => (hk a b).pred⟩

end Tree

/-! ## Programs that look at no result -/

namespace Program

/-- The programs made of operations that apply no transform, of sequences and of binds whose functions
ignore their argument. The last rule is for what such functions build one after the other, perhaps for
ever: a part, and then what the same function builds for the state that follows. -/
inductive Plain : Program Stack → Prop where
  | operation {op : Operation} (h : op.isApply = false) : Plain (suspend op)
  | andThen {p q : Program Stack} (hp : Plain p) (hq : Plain q) : Plain (p.andThen q)
  | sequence {ps : List (Program Stack)} (h : ∀ p ∈ ps, Plain p) : Plain (sequence ps)
  | bind {p : Program Stack} {k : Stack → Program Stack} (hp : Plain p) (hk : ∀ a, Plain (k a))
      (hconst : ∀ a b, k a = k b) : Plain (p.bind k)
  | iterate {A : Type} {part : A → Program Stack} {following : A → A} {stop : A → Stack}
      (h : ∀ a, Plain (part a)) (a : A) : Plain (iterate (fun a => .ofProgram stop ((part a).map fun _ => following a)) a)

theorem Plain.pair {p q : Program Stack} (hp : p.Plain) (hq : q.Plain) : (Program.sequence [p, q]).Plain := by
  refine .sequence fun r hr => ?_
  simp only [List.mem_cons, List.not_mem_nil, or_false] at hr
  rcases hr with rfl | rfl
  · exact hp
  · exact hq

theorem inStep_inTurn {ps : List (Program Stack)} (h : ∀ p ∈ ps, ∀ n, Tree.InStep n p.denote p.denote)
    (n : Nat) (r r' : Stack) : Tree.InStep n (inTurn ps r) (inTurn ps r') := by
  induction ps generalizing r r' with
  | nil => exact Tree.inStep_done n r r'
  | cons p ps ih =>
    have hp : Tree.InStep n p.denote p.denote := h p List.mem_cons_self n
    exact hp.bind fun a b => ih (fun q hq => h q (List.mem_cons_of_mem p hq)) a b

theorem inStep_iterate {A : Type} {part : A → Program Stack} {following : A → A} {stop : A → Stack}
    (h : ∀ a n, Tree.InStep n (part a).denote (part a).denote) (n : Nat) (a : A) :
    Tree.InStep n (iterate (fun a => .ofProgram stop ((part a).map fun _ => following a)) a).denote
      (iterate (fun a => .ofProgram stop ((part a).map fun _ => following a)) a).denote := by
  induction n generalizing a with
  | zero => trivial
  | succ n ih =>
    rw [denote_iterate]
    have ha := h a (n + 1)
    cases hp : part a with
    | done r => exact Tree.inStep_done _ _ _
    | suspended op rest =>
      -- the first operation is that of the part, and below it the state that follows is fixed
      rw [hp] at ha
      show Tree.InStep (n + 1) (((suspended op rest).map fun _ => following a).denote.bind _)
        (((suspended op rest).map fun _ => following a).denote.bind _)
      rw [denote_map, Tree.bind_map, denote_suspended, Tree.bind_suspended]
      rw [denote_suspended, Tree.inStep_suspended] at ha
      exact Tree.inStep_suspended.2 ⟨rfl, ha.2.1, fun s t => (ha.2.2 s t).bind fun _ _ => ih (following a)⟩

/-- Plain programs come to the same operations from every stack. -/
theorem Plain.inStep {p : Program Stack} (h : p.Plain) (n : Nat) : Tree.InStep n p.denote p.denote := by
  induction h generalizing n with
  | @operation op h =>
    rw [denote_suspend]
    cases n with
    | zero => trivial
    | succ n => exact Tree.inStep_suspended.2 ⟨rfl, h, fun a b => Tree.inStep_done n a b⟩
  | andThen _ _ ihp ihq => rw [denote_andThen]; exact (ihp n).bind fun _ _ => ihq n
  | sequence _ ih => rw [denote_sequence_inTurn]; exact inStep_inTurn ih n .empty .empty
  | @bind p k _ _ hconst ihp ihk =>
    rw [denote_bind]
    refine (ihp n).bind fun a b => ?_
    rw [hconst a b]; exact ihk b n
  | iterate _ a ih => exact inStep_iterate ih n a

end Program

/-! ## Two evaluations, one above the other -/

namespace Config

/-- Two states of which the second has the values of `t` below and otherwise goes the same way. -/
structure Framed (t : Stack) (c c' : Config R) : Prop where
  stack : c'.stack = c.stack.above t
  steps : c'.steps = c.steps
  inStep : ∀ n, Tree.InStep n c.program.denote c'.program.denote

variable {t : Stack} {c c' d : Config R}

theorem Framed.done {r : R} (h : Framed t c c') (hp : c.program = .done r) : ∃ r', c'.program = .done r' := by
  have hs := h.inStep 1
  rw [hp, Program.denote_done] at hs
  rcases hs.cases with ⟨r, r', -, hr⟩ | ⟨op, next, next', hn, -⟩
  · exact ⟨r', Program.eq_done_of_denote hr⟩
  · exact absurd hn Tree.done_ne_suspended

theorem Framed.suspended {op : Operation} {rest : Queue Arrow Stack R} (h : Framed t c c')
    (hp : c.program = .suspended op rest) :
    op.isApply = false ∧ ∃ rest', c'.program = .suspended op rest' ∧
      ∀ n a b, Tree.InStep n (rest.resume a).denote (rest'.resume b).denote := by
  cases hp' : c'.program with
  | done r' =>
    have hs := h.inStep 1
    rw [hp, hp', Program.denote_done, Program.denote_suspended] at hs
    rcases hs.cases with ⟨_, _, hr, -⟩ | ⟨_, _, _, -, hr, -⟩
    · exact absurd hr.symm Tree.done_ne_suspended
    · exact absurd hr Tree.done_ne_suspended
  | suspended op' rest' =>
    have hs : ∀ n, _ := fun n => h.inStep (n + 1)
    simp only [hp, hp', Program.denote_suspended, Tree.inStep_suspended] at hs
    obtain ⟨rfl, hop, -⟩ := hs 0
    exact ⟨hop, rest', rfl, fun n => (hs n).2.2⟩

theorem Framed.execute {op : Operation} (h : Framed t c c') (hop : op.isApply = false)
    (hx : op.execute c.stack ≠ .error (op.underflow c.stack.size)) :
    op.execute c'.stack = ((op.execute c.stack).map (·.above t)).mapError (·.deeper t.size) := by
  rw [h.stack]
  exact Operation.execute_above hop (Operation.requiredDepth_le hx) t

/-- What one evaluation does the other does above `t`. -/
theorem Framed.advances (h : Framed t c c') (hd : c.Advances none d) :
    ∃ d', c'.Advances none d' ∧ Framed t d d' := by
  obtain ⟨op, rest, u, hp, -, hx, rfl⟩ := hd.executed
  obtain ⟨hop, rest', hp', hrest⟩ := h.suspended hp
  have hx' : op.execute c'.stack = .ok (u.above t) := by
    rw [h.execute hop (by rw [hx]; rintro ⟨⟩), hx]; rfl
  refine ⟨⟨rest'.resume (u.above t), u.above t, c'.steps + 1⟩, ?_, rfl, by rw [h.steps], fun n => hrest n _ _⟩
  obtain ⟨p', s', n'⟩ := c'
  dsimp only at hp' hx'
  subst hp'
  exact advances_of_execute rfl hx'

theorem Framed.after {n : Nat} (h : Framed t c c') (hd : c.after none n = some d) :
    ∃ d', c'.after none n = some d' ∧ Framed t d d' := by
  induction n generalizing c c' with
  | zero => cases hd; exact ⟨c', rfl, h⟩
  | succ n ih =>
    obtain ⟨e, he, hd⟩ := exists_advances_of_after hd
    obtain ⟨e', he', hframed⟩ := h.advances he
    obtain ⟨d', hd', hdd⟩ := ih hframed hd
    exact ⟨d', he'.after_succ.trans hd', hdd⟩

theorem Framed.halted_ok {o : Outcome R} (h : Framed t c c') (hc : (c.step none).2 = .halted (.ok o)) :
    ∃ r, (c'.step none).2 = .halted (.ok ⟨r, o.stack.above t, o.steps⟩) := by
  rcases halted_cases hc with ⟨r, hp, ho⟩ | ⟨_, _, _, _, _, ho⟩ | ⟨_, _, _, _, _, _, ho⟩
  · cases ho
    obtain ⟨r', hp'⟩ := h.done hp
    obtain ⟨p', s', n'⟩ := c'
    obtain ⟨hstack, hsteps, -⟩ := h
    dsimp only at hp' hstack hsteps
    subst hp' hstack hsteps
    exact ⟨r', rfl⟩
  · cases ho
  · cases ho

theorem Framed.halted_mismatch {operation : String} {found : Kind} {depth k : Nat} (h : Framed t c c')
    (hc : (c.step none).2 = .halted (.error ⟨.typeMismatch operation found depth, k⟩)) :
    (c'.step none).2 = .halted (.error ⟨.typeMismatch operation found (depth + t.size), k⟩) := by
  rcases halted_cases hc with ⟨_, _, he⟩ | ⟨_, _, _, _, _, he⟩ | ⟨op, rest, failure, hp, -, hx, he⟩
  · cases he
  · cases he
  · cases he
    obtain ⟨hop, rest', hp', -⟩ := h.suspended hp
    have hx' : op.execute c'.stack = .error (.typeMismatch operation found (depth + t.size)) := by
      rw [h.execute hop (by rw [hx]; rintro ⟨⟩), hx]; rfl
    obtain ⟨p', s', n'⟩ := c'
    obtain ⟨-, hsteps, -⟩ := h
    dsimp only at hp' hx' hsteps
    subst hp' hsteps
    simp only [step, limitReached, hx']

theorem framed_start {p : Program Stack} (hp : p.Plain) (s t : Stack) :
    Framed t (start p s) (start p (s.above t)) := ⟨rfl, rfl, hp.inStep⟩

end Config

/-! ## Words -/

namespace Words

theorem plain_squared : squared.Plain := .pair (.operation rfl) (.operation rfl)

theorem plain_sum3 : sum3.Plain := .pair (.operation rfl) (.operation rfl)

theorem plain_product (n : Nat) : (product n).Plain := by
  fun_induction product n with
  | case1 => exact .operation rfl
  | case2 => exact .operation rfl
  | case3 n ih => exact .pair (.bind (.operation rfl) (fun _ => ih) fun _ _ => rfl) (.operation rfl)

end Words

namespace Interpreter

/-- Plain programs, the sample words among them, leave alone what lies below the values they use. Without
a limit, from a stack with more values below, a success is the same success with these values below the
stack it leaves; a value that is no number is met at the same step, and is reported with the depth that is
now larger; and where there was an underflow, the evaluation now gets to the same step, with the same
stack above these values. -/
theorem runOn_above (initial : Stack) :
    (∀ p : Program Stack, p.Plain → ∀ s t : Stack,
      (∀ o, ((startingAt initial).runOn s p).2 = some (.ok o) →
        ∃ r, ((startingAt initial).runOn (s.above t) p).2 = some (.ok ⟨r, o.stack.above t, o.steps⟩)) ∧
      (∀ operation found depth k,
        ((startingAt initial).runOn s p).2 = some (.error ⟨.typeMismatch operation found depth, k⟩) →
        ((startingAt initial).runOn (s.above t) p).2 =
          some (.error ⟨.typeMismatch operation found (depth + t.size), k⟩)) ∧
      (∀ operation required found k,
        ((startingAt initial).runOn s p).2 = some (.error ⟨.underflow operation required found, k⟩) →
        ∃ c c', (Config.start p s).after none k = some c ∧ (Config.start p (s.above t)).after none k = some c' ∧
          c'.stack = c.stack.above t)) ∧
    Words.squared.Plain ∧ Words.sum3.Plain ∧ ∀ n, (Words.factorial n).Plain := by
  refine ⟨fun p hp s t => ⟨fun o ho => ?_, fun operation found depth k he => ?_,
    fun operation required found k he => ?_⟩, Words.plain_squared, Words.plain_sum3, fun n => Words.plain_product _⟩
  · obtain ⟨n, c, hc, hh⟩ := runOn_eq_some_iff_after.1 ho
    obtain ⟨c', hc', hframed⟩ := (Config.framed_start hp s t).after hc
    obtain ⟨r, hr⟩ := hframed.halted_ok hh
    exact ⟨r, runOn_eq_some_iff_after.2 ⟨n, c', hc', hr⟩⟩
  · obtain ⟨n, c, hc, hh⟩ := runOn_eq_some_iff_after.1 he
    obtain ⟨c', hc', hframed⟩ := (Config.framed_start hp s t).after hc
    exact runOn_eq_some_iff_after.2 ⟨n, c', hc', hframed.halted_mismatch hh⟩
  · obtain ⟨n, c, hc, hh⟩ := runOn_eq_some_iff_after.1 he
    obtain ⟨c', hc', hframed⟩ := (Config.framed_start hp s t).after hc
    -- the step of an error is the count of the state at which the evaluation halts
    obtain rfl : n = k := by
      have hn := Config.steps_of_after hc
      rcases Config.halted_cases hh with ⟨_, _, he⟩ | ⟨_, _, _, _, _, he⟩ | ⟨_, _, _, _, _, _, he⟩
      · cases he
      · cases he
      · cases he
        simpa [Config.start] using hn.symm
    exact ⟨c, c', hc, hc', hframed.stack⟩

/-- A square, a sum with a text, and a sum of three with two values, each with two values more below. -/
theorem runOn_above_words :
    let t : Stack := .ofList [.int 8, .int 9]
    (Words.squared.Plain ∧
      ((startingAt .empty).runOn (.ofList [.int 3]) Words.squared).2 =
        some (.ok ⟨.ofList [.int 9], .ofList [.int 9], 2⟩) ∧
      ∃ r, ((startingAt .empty).runOn (.ofList [.int 3, .int 8, .int 9]) Words.squared).2 =
        some (.ok ⟨r, .ofList [.int 9, .int 8, .int 9], 2⟩)) ∧
    (((startingAt .empty).runOn (.ofList [.int 3, .str "x"]) Words.sum3).2 =
        some (.error ⟨.typeMismatch "add" .str 2, 0⟩) ∧
      ((startingAt .empty).runOn (.ofList [.int 3, .str "x", .int 8, .int 9]) Words.sum3).2 =
        some (.error ⟨.typeMismatch "add" .str 4, 0⟩)) ∧
    (((startingAt .empty).runOn (.ofList [.int 3, .int 4]) Words.sum3).2 = some (.error ⟨.underflow "add" 2 1, 1⟩) ∧
      ∃ c c', (Config.start Words.sum3 (.ofList [.int 3, .int 4])).after none 1 = some c ∧
        (Config.start Words.sum3 (.ofList [.int 3, .int 4, .int 8, .int 9])).after none 1 = some c' ∧
        c'.stack = c.stack.above t) := by
  intro t
  obtain ⟨hplain, hsquared, hsum, -⟩ := runOn_above .empty
  have h1 : ((startingAt .empty).runOn (.ofList [.int 3]) Words.squared).2 =
      some (.ok ⟨.ofList [.int 9], .ofList [.int 9], 2⟩) :=
    congrArg Prod.snd (runOn_of_ends (.executed rfl rfl (.executed rfl rfl (.finished _ _ _))))
  have h2 : ((startingAt .empty).runOn (.ofList [.int 3, .str "x"]) Words.sum3).2 =
      some (.error ⟨.typeMismatch "add" .str 2, 0⟩) := congrArg Prod.snd (runOn_of_ends (.failed rfl rfl))
  have h3 : ((startingAt .empty).runOn (.ofList [.int 3, .int 4]) Words.sum3).2 =
      some (.error ⟨.underflow "add" 2 1, 1⟩) :=
    congrArg Prod.snd (runOn_of_ends (.executed rfl rfl (.failed rfl rfl)))
  exact ⟨⟨hsquared, h1, (hplain _ hsquared _ t).1 _ h1⟩, ⟨h2, (hplain _ hsum _ t).2.1 _ _ _ _ h2⟩,
    h3, (hplain _ hsum _ t).2.2 _ _ _ _ h3⟩

end Interpreter

end StackLang
