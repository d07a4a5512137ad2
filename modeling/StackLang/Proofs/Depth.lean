/-
Depth checks. For operations other than the application of transforms, on a stack of values that all count
as numbers, the sizes of the stack decide everything: they can be computed ahead from the operations
alone, and the evaluation succeeds if every operation finds as many values as it needs. Otherwise
it fails at the first operation that does not, with an underflow. Arithmetic never meets a value that is no
number, since what it leaves is a number again. How the operations are nested in sequences makes no
difference.
-/
import StackLang.Proofs.Execute
import StackLang.Proofs.StraightLine

namespace StackLang

/-! ## Nested sequences -/

/-- Operations in order, in some nesting of sequences. -/
inductive Nesting where
  | operation (op : Operation)
  | sequence (parts : List Nesting)

namespace Nesting

mutual

/-- The program of a nesting. -/
def program : Nesting → Program Stack
  | .operation op => .suspend op
  | .sequence parts => .sequence (programs parts)

/-- The programs of some nestings. -/
def programs : List Nesting → List (Program Stack)
  | [] => []
  | part :: parts => part.program :: programs parts

end

mutual

/-- The operations of a nesting in order. -/
def operations : Nesting → List Operation
  | .operation op => [op]
  | .sequence parts => operationsOf parts

/-- The operations of some nestings in order. -/
def operationsOf : List Nesting → List Operation
  | [] => []
  | part :: parts => part.operations ++ operationsOf parts

end

mutual

theorem skeleton_program : (l : Nesting) →
    l.program.denote.skeleton = (Program.inTurn (l.operations.map .suspend) .empty).skeleton
  | .operation op => by
    have h : Program.inTurn [.suspend op] .empty = (Program.suspend op).denote := Tree.bind_done_right _
    rw [program, operations, List.map_singleton, h]
  | .sequence parts => by
    rw [program, operations, Program.denote_sequence_inTurn]
    exact skeleton_programs parts .empty

theorem skeleton_programs : (parts : List Nesting) → (r : Stack) →
    (Program.inTurn (programs parts) r).skeleton =
      (Program.inTurn ((operationsOf parts).map .suspend) r).skeleton
  | [], r => by rw [programs, operationsOf]; rfl
  | part :: parts, r => by
    rw [programs, operationsOf, List.map_append]
    exact Program.skeleton_inTurn_cons (skeleton_program part) (skeleton_programs parts) r

end

end Nesting

/-- A nesting is evaluated like the straight line of its operations, apart from its value. -/
theorem Interpreter.effect_nesting (i : Interpreter) (s : Stack) (l : Nesting) :
    (i.runOn s l.program).2.map Verdict.effect =
      (i.runOn s (.straightLine l.operations)).2.map Verdict.effect := by
  rw [runOn_eq_denote, runOn_eq_denote, Program.straightLine, Program.denote_sequence_inTurn]
  exact Tree.effect_congr l.skeleton_program

/-! ## Numbers only -/

/-- Whether a value counts as a number. -/
def Value.isNumeric (v : Value) : Bool := v.toNumber?.isSome

/-- Whether all values of a stack count as numbers. -/
def Stack.isNumeric (s : Stack) : Bool := s.toList.all Value.isNumeric

/-- Whether an operation applies no transform and pushes no value but a number. -/
def Operation.isNumeric : Operation → Bool
  | .push v => v.isNumeric
  | .apply _ => false
  | _ => true

theorem Number.isNumeric_toValue (x : Number) : x.toValue.isNumeric = true := by
  rw [Value.isNumeric, toNumber?_toValue]; rfl

@[simp] theorem Stack.isNumeric_push (s : Stack) (v : Value) :
    (s.push v).isNumeric = (v.isNumeric && s.isNumeric) := by
  rw [isNumeric, toList_push, List.all_cons]; rfl

/-! ## Depths -/

namespace Operation

/-- The depth after an operation, given the depth before it. -/
def depthAfter : Operation → Int → Int
  | .push _, d => d + 1
  | .dup, d => d + 1
  | .pop, d => d - 1
  | .add, d => d - 1
  | .mul, d => d - 1
  | .swap, d => d
  | .apply _, d => d

/-- The depth after the first `i` of some operations, given the depth before them. -/
def depthAt : Int → List Operation → Nat → Int
  | d, _, 0 => d
  | d, [], _ + 1 => d
  | d, op :: ops, i + 1 => depthAt (op.depthAfter d) ops i

/-- Whether the operation at place `i`, if there is one, has as many values as it needs. -/
def Suffices (d : Int) (ops : List Operation) (i : Nat) : Prop :=
  ∀ op, ops[i]? = some op → (op.requiredDepth : Int) ≤ depthAt d ops i

variable {op : Operation} {ops : List Operation} {d : Int} {i : Nat}

theorem suffices_cons_zero : Suffices d (op :: ops) 0 ↔ (op.requiredDepth : Int) ≤ d := by
  constructor
  · intro h; exact h op rfl
  · rintro h _ ⟨⟩; exact h

theorem suffices_cons_succ : Suffices d (op :: ops) (i + 1) ↔ Suffices (op.depthAfter d) ops i := Iff.rfl

theorem combine_numeric {f : Number → Number → Number} {s : Stack} (hs : s.isNumeric = true) (hd : 2 ≤ s.size) :
    ∃ t, op.combine f s = .ok t ∧ t.isNumeric = true ∧ (t.size : Int) = s.size - 1 := by
  obtain ⟨r, w, v, rfl⟩ := Stack.exists_push_push hd
  simp only [Stack.isNumeric_push, Bool.and_eq_true] at hs
  obtain ⟨hv, hw, hr⟩ := hs
  obtain ⟨x, hx⟩ := Option.isSome_iff_exists.1 hv
  obtain ⟨y, hy⟩ := Option.isSome_iff_exists.1 hw
  refine ⟨_, combine_of_numbers hx hy, ?_, ?_⟩
  · rw [Stack.isNumeric_push, Number.isNumeric_toValue, hr]; rfl
  · simp only [Stack.size_push]; omega

/-- On numbers only, an operation that has as many values as it needs succeeds, leaves numbers only, and
changes the size as foreseen. -/
theorem execute_numeric {s : Stack} (hop : op.isNumeric = true) (hs : s.isNumeric = true)
    (hd : op.requiredDepth ≤ s.size) :
    ∃ t, op.execute s = .ok t ∧ t.isNumeric = true ∧ (t.size : Int) = op.depthAfter s.size := by
  cases op with
  | push v =>
    refine ⟨s.push v, rfl, ?_, ?_⟩
    · rw [Stack.isNumeric_push, hs, Bool.and_true]; exact hop
    · rw [Stack.size_push]; rfl
  | apply t => cases hop
  | pop =>
    obtain ⟨r, v, rfl⟩ := Stack.exists_push hd
    rw [Stack.isNumeric_push, Bool.and_eq_true] at hs
    refine ⟨r, execute_pop_push r v, hs.2, ?_⟩
    simp only [Stack.size_push, depthAfter]; omega
  | dup =>
    obtain ⟨r, v, rfl⟩ := Stack.exists_push hd
    refine ⟨_, execute_dup_push r v, ?_, by rw [Stack.size_push]; rfl⟩
    simp only [Stack.isNumeric_push, Bool.and_eq_true] at hs ⊢
    exact ⟨hs.1, hs⟩
  | swap =>
    obtain ⟨r, w, v, rfl⟩ := Stack.exists_push_push hd
    refine ⟨_, execute_swap_push r v w, ?_, by simp only [Stack.size_push, depthAfter]⟩
    simp only [Stack.isNumeric_push, Bool.and_eq_true] at hs ⊢
    exact ⟨hs.2.1, hs.1, hs.2.2⟩
  | add => exact combine_numeric hs hd
  | mul => exact combine_numeric hs hd

/-- Operations on numbers only either have as many values as they need, all of them, or lead to a first one
that has not. -/
theorem executeAll_numeric (ops : List Operation) (s : Stack) (hops : ∀ op ∈ ops, op.isNumeric = true)
    (hs : s.isNumeric = true) :
    ((∀ i, Suffices s.size ops i) ∧
      ∃ t, executeAll ops s = .ok t ∧ t.isNumeric = true ∧ (t.size : Int) = depthAt s.size ops ops.length) ∨
    ∃ pre op post t, ops = pre ++ op :: post ∧ executeAll pre s = .ok t ∧ t.size < op.requiredDepth ∧
      (t.size : Int) = depthAt s.size ops pre.length ∧ ∀ j < pre.length, Suffices s.size ops j := by
  induction ops generalizing s with
  | nil => exact .inl ⟨fun i op h => by simp at h, s, rfl, hs, rfl⟩
  | cons op ops ih =>
    by_cases hd : op.requiredDepth ≤ s.size
    · obtain ⟨u, hx, hu, hsize⟩ := execute_numeric (hops op List.mem_cons_self) hs hd
      have hzero : Suffices s.size (op :: ops) 0 := suffices_cons_zero.2 (by omega)
      have hsucc : ∀ i, Suffices u.size ops i → Suffices s.size (op :: ops) (i + 1) := by
        intro i h
        rw [suffices_cons_succ, ← hsize]; exact h
      rcases ih u (fun op h => hops op (List.mem_cons_of_mem _ h)) hu with
        ⟨hall, t, ht, hnum, hlen⟩ | ⟨pre, op', post, t, rfl, ht, hlt, hlen, hpre⟩
      · refine .inl ⟨fun i => ?_, t, (executeAll_cons hx).trans ht, hnum, ?_⟩
        · cases i with
          | zero => exact hzero
          | succ i => exact hsucc i (hall i)
        · rw [hlen, hsize]; rfl
      · refine .inr ⟨op :: pre, op', post, t, rfl, (executeAll_cons hx).trans ht, hlt, ?_, fun j hj => ?_⟩
        · rw [hlen, hsize]; rfl
        · cases j with
          | zero => exact hzero
          | succ j => exact hsucc j (hpre j (by simpa using hj))
    · exact .inr ⟨[], op, ops, s, rfl, rfl, by omega, rfl, fun j hj => absurd hj (Nat.not_lt_zero j)⟩

end Operation

/-! ## Evaluations -/

namespace Interpreter

/-- The sizes of the stack, computed ahead, decide the evaluation of operations that apply no transform, in
any nesting of sequences and without a limit, if all values count as numbers: those on the stack and
those that are pushed. If every operation has as many values as it needs, the evaluation succeeds, with
a stack of the size foreseen and of numbers only; otherwise it fails with an underflow at the first
operation that has not. A value is never the reason. -/
theorem runOn_depth (initial s : Stack) (l : Nesting) (hops : ∀ op ∈ l.operations, op.isNumeric = true)
    (hs : s.isNumeric = true) :
    ((∀ i, Operation.Suffices s.size l.operations i) →
      ∃ o, ((startingAt initial).runOn s l.program).2 = some (.ok o) ∧ o.steps = l.operations.length ∧
        (o.stack.size : Int) = Operation.depthAt s.size l.operations l.operations.length ∧
        o.stack.isNumeric = true) ∧
    ((¬ ∀ i, Operation.Suffices s.size l.operations i) →
      ∃ (i : Nat) (op : Operation) (found : Nat), l.operations[i]? = some op ∧
        (∀ j < i, Operation.Suffices s.size l.operations j) ∧
        (found : Int) = Operation.depthAt s.size l.operations i ∧ found < op.requiredDepth ∧
        ((startingAt initial).runOn s l.program).2 =
          some (.error ⟨.underflow op.name op.requiredDepth found, i⟩)) ∧
    (∀ e, ((startingAt initial).runOn s l.program).2 = some (.error e) → e.failure.isTypeMismatch = false) := by
  have heffect := (startingAt initial).effect_nesting s l
  rcases Operation.executeAll_numeric l.operations s hops hs with
    ⟨hall, t, ht, hnum, hlen⟩ | ⟨pre, op, post, t, heq, ht, hlt, hlen, hpre⟩
  · rw [runOn_straightLine_ok rfl ht] at heffect
    obtain ⟨r, hr⟩ := Verdict.exists_of_effect_ok heffect
    refine ⟨fun _ => ⟨_, hr, rfl, hlen, hnum⟩, fun h => absurd hall h, fun e he => ?_⟩
    rw [hr] at he; cases he
  · have hop : l.operations[pre.length]? = some op := by rw [heq]; simp
    have hshort : ¬ ∀ i, Operation.Suffices s.size l.operations i := by
      intro hall
      have := hall pre.length op hop
      omega
    rw [heq, runOn_straightLine_error rfl ht (Operation.execute_of_size_lt hlt) post] at heffect
    have hr := Verdict.eq_of_effect_error heffect
    refine ⟨fun h => absurd h hshort, fun _ => ⟨_, op, t.size, hop, hpre, hlen, hlt, hr⟩, fun e he => ?_⟩
    rw [hr] at he; cases he; rfl

/-- Three numbers in two ways of nesting: one whose operations all have their values, which are an integer,
a numeral and a boolean, and one whose second sum finds a single value. -/
theorem runOn_depth_nested :
    let s : Stack := .ofList [.int 2, .str " 3 "]
    let enough : Nesting :=
      .sequence [.operation (.push (.bool true)), .sequence [.operation .add, .operation .mul]]
    let short : Nesting := .sequence [.sequence [.operation .add, .sequence []], .operation .add]
    (s.isNumeric = true ∧ (∀ op ∈ enough.operations, op.isNumeric = true) ∧
      (∀ i, Operation.Suffices s.size enough.operations i) ∧
      ∃ o, ((startingAt .empty).runOn s enough.program).2 = some (.ok o) ∧ o.steps = 3 ∧ (o.stack.size : Int) = 1) ∧
    ((∀ op ∈ short.operations, op.isNumeric = true) ∧
      (¬ ∀ i, Operation.Suffices s.size short.operations i) ∧
      ((startingAt .empty).runOn s short.program).2 = some (.error ⟨.underflow "add" 2 1, 1⟩)) := by
  intro s enough short
  have hs : s.isNumeric = true := by decide
  have henough : ∀ op ∈ enough.operations, op.isNumeric = true := by decide
  have hshort : ∀ op ∈ short.operations, op.isNumeric = true := by decide
  have hdeep : ∀ i, Operation.Suffices s.size enough.operations i := by
    intro i op hop
    match i with
    | 0 | 1 | 2 => cases hop; decide
    | i + 3 => cases hop
  have hnot : ¬ ∀ i, Operation.Suffices s.size short.operations i := by
    intro h
    exact absurd (h 1 .add rfl) (by decide)
  obtain ⟨o, ho, hn, hsize, -⟩ := (runOn_depth .empty s enough henough hs).1 hdeep
  refine ⟨⟨hs, henough, hdeep, o, ho, hn, hsize⟩, hshort, hnot, ?_⟩
  obtain ⟨i, op, found, hop, hpre, hfound, hlt, hr⟩ := (runOn_depth .empty s short hshort hs).2.1 hnot
  match i with
  | 0 => cases hop; cases hfound; exact absurd hlt (by decide)
  | 1 => cases hop; cases hfound; exact hr
  | i + 2 => exact absurd (hpre 1 (by omega) .add rfl) (by decide)

end Interpreter

end StackLang
