/-
The table of operations. `Yields` has the rows of the operations that succeed: the values they need on top
of the stack, the top first, and what they leave in their place. `Fails` has those of the failures: a stack
that is too short, whatever its values are, an operand of arithmetic that is no number, and a transform that
fails. Executing an operation is looking it up: it fails as the table says and succeeds as the table says,
and every operation has a row for every stack.
-/
import StackLang.Proofs.Expression
import StackLang.Proofs.Promotion

namespace StackLang

/-- Whether a number is a double. -/
def Number.isFloat : Number → Bool
  | .int _ => false
  | .float _ => true

namespace Arith

/-- What an operation of arithmetic makes of two doubles. -/
def onFloat : Arith → Float → Float → Float
  | .plus, x, y => x + y
  | .times, x, y => x * y

/-- What an operation of arithmetic makes of two numbers. -/
def onNumber : Arith → Number → Number → Number
  | .plus => Number.add
  | .times => Number.mul

variable (o : Arith)

theorem execute_eq_combine (s : Stack) : o.operation.execute s = o.operation.combine o.onNumber s := by
  cases o with
  | plus | times => rfl

/-- Two integers are computed modulo 2^64. -/
theorem onNumber_ints (m n : Int64) : o.onNumber (.int m) (.int n) = .int (Int64.ofInt (o.onInt m.toInt n.toInt)) := by
  cases o with
  | plus => rw [onInt, Int64.ofInt_add, Int64.ofInt_toInt, Int64.ofInt_toInt]; rfl
  | times => rw [onInt, Int64.ofInt_mul, Int64.ofInt_toInt, Int64.ofInt_toInt]; rfl

/-- As soon as one number is a double, both are promoted. -/
theorem onNumber_floats {x y : Number} (h : x.isFloat ∨ y.isFloat) :
    o.onNumber x y = .float (o.onFloat x.toFloat y.toFloat) := by
  cases x with
  | float a => cases o <;> cases y <;> rfl
  | int m =>
    cases y with
    | float b => cases o <;> rfl
    | int n => rcases h with h | h <;> cases h

/-- Two values that are numbers are replaced by what arithmetic makes of these, the top one first. -/
theorem execute_of_numbers {a b : Value} {x y : Number} (ha : a.toNumber? = some x) (hb : b.toNumber? = some y)
    (rest : List Value) :
    o.operation.execute (.ofList (a :: b :: rest)) = .ok (.ofList ((o.onNumber x y).toValue :: rest)) := by
  rw [Stack.ofList_cons, Stack.ofList_cons, Stack.ofList_cons, o.execute_eq_combine, Operation.combine_of_numbers ha hb]

end Arith

namespace Operation

/-! ## The table -/

/-- The rows of the operations that succeed, on the values of the stack, the top first. -/
inductive Yields : Operation → List Value → List Value → Prop where
  | push (v : Value) (values : List Value) : Yields (.push v) values (v :: values)
  | pop (a : Value) (rest : List Value) : Yields .pop (a :: rest) rest
  | dup (a : Value) (rest : List Value) : Yields .dup (a :: rest) (a :: a :: rest)
  | swap (a b : Value) (rest : List Value) : Yields .swap (a :: b :: rest) (b :: a :: rest)
  | ints (o : Arith) {a b : Value} {m n : Int64} (ha : a.toNumber? = some (.int m)) (hb : b.toNumber? = some (.int n))
      (rest : List Value) :
      Yields o.operation (a :: b :: rest) (.int (Int64.ofInt (o.onInt m.toInt n.toInt)) :: rest)
  | floats (o : Arith) {a b : Value} {x y : Number} (ha : a.toNumber? = some x) (hb : b.toNumber? = some y)
      (h : x.isFloat ∨ y.isFloat) {x' y' : Float} (hx : x.Promotes x') (hy : y.Promotes y') (rest : List Value) :
      Yields o.operation (a :: b :: rest) (.float (o.onFloat x' y') :: rest)
  | apply {t : Transform} {s r : Stack} (h : t.run s = .ok r) : Yields (.apply t) s.toList r.toList

/-- The rows of the failures, on the values of the stack, the top first. -/
inductive Fails : Operation → List Value → Failure → Prop where
  | underflow {op : Operation} {values : List Value} (h : values.length < op.requiredDepth) :
      Fails op values (.underflow op.name op.requiredDepth values.length)
  | mismatch (o : Arith) {a b : Value} (h : a.toNumber? = none ∨ b.toNumber? = none) (rest : List Value) :
      Fails o.operation (a :: b :: rest) (.typeMismatch o.operation.name .str (a :: b :: rest).length)
  | transform {t : Transform} {s : Stack} {fault : Fault} (h : t.run s = .error fault) :
      Fails (.apply t) s.toList (.transform t.name s.toList.length fault)

/-! ## Looking up -/

variable {op : Operation} {values : List Value}

theorem size_ofList (values : List Value) : (Stack.ofList values).size = values.length := by
  rw [← Stack.length_toList, Stack.toList_ofList]

theorem Yields.execute {left : List Value} (h : op.Yields values left) :
    op.execute (.ofList values) = .ok (.ofList left) := by
  cases h with
  | push v => rw [Stack.ofList_cons, execute_push]
  | pop a => rw [Stack.ofList_cons, execute_pop_push]
  | dup a => simp only [Stack.ofList_cons, execute_dup_push]
  | swap a b => simp only [Stack.ofList_cons, execute_swap_push]
  | ints o ha hb =>
    rw [o.execute_of_numbers ha hb, o.onNumber_ints]
    rfl
  | floats o ha hb hf hx hy =>
    rw [o.execute_of_numbers ha hb, o.onNumber_floats hf, Number.promotes_iff.1 hx, Number.promotes_iff.1 hy]
    rfl
  | apply h =>
    rw [Stack.ofList_toList, Stack.ofList_toList]
    simp only [Operation.execute, h]

theorem Fails.execute {failure : Failure} (h : op.Fails values failure) :
    op.execute (.ofList values) = .error failure := by
  cases h with
  | underflow h =>
    rw [← size_ofList] at h
    rw [execute_of_size_lt h, Operation.underflow, size_ofList]
  | mismatch o h rest =>
    simp only [Stack.ofList_cons]
    rw [o.execute_eq_combine, combine_of_str h, size_ofList]
    rfl
  | transform h =>
    rw [Stack.ofList_toList, Stack.length_toList]
    simp only [Operation.execute, h]

/-! ## Rows for every stack -/

/-- On two values or more, arithmetic has one of three rows. -/
theorem fails_or_yields_arith (o : Arith) (a b : Value) (rest : List Value) :
    (∃ failure, o.operation.Fails (a :: b :: rest) failure) ∨ ∃ left, o.operation.Yields (a :: b :: rest) left := by
  by_cases hnone : a.toNumber? = none ∨ b.toNumber? = none
  · exact Or.inl ⟨_, .mismatch o hnone rest⟩
  · obtain ⟨ha, hb⟩ := not_or.1 hnone
    obtain ⟨x, hx⟩ := Option.ne_none_iff_exists'.1 ha
    obtain ⟨y, hy⟩ := Option.ne_none_iff_exists'.1 hb
    by_cases hfloat : x.isFloat ∨ y.isFloat
    · exact Or.inr ⟨_, .floats o hx hy hfloat (Number.promotes_iff.2 rfl) (Number.promotes_iff.2 rfl) rest⟩
    · cases x with
      | float x => exact absurd (Or.inl rfl) hfloat
      | int m =>
        cases y with
        | float y => exact absurd (Or.inr rfl) hfloat
        | int n => exact Or.inr ⟨_, .ints o hx hy rest⟩

theorem fails_or_yields (op : Operation) (s : Stack) :
    (∃ failure, op.Fails s.toList failure) ∨ ∃ left, op.Yields s.toList left := by
  rcases Nat.lt_or_ge s.size op.requiredDepth with hs | hs
  · rw [← Stack.length_toList] at hs
    exact Or.inl ⟨_, .underflow hs⟩
  cases op with
  | push v => exact Or.inr ⟨_, .push v _⟩
  | pop =>
    obtain ⟨r, a, rfl⟩ := Stack.exists_push hs
    rw [Stack.toList_push]
    exact Or.inr ⟨_, .pop a _⟩
  | dup =>
    obtain ⟨r, a, rfl⟩ := Stack.exists_push hs
    rw [Stack.toList_push]
    exact Or.inr ⟨_, .dup a _⟩
  | swap =>
    obtain ⟨r, b, a, rfl⟩ := Stack.exists_push_push hs
    rw [Stack.toList_push, Stack.toList_push]
    exact Or.inr ⟨_, .swap a b _⟩
  | add =>
    obtain ⟨r, b, a, rfl⟩ := Stack.exists_push_push hs
    rw [Stack.toList_push, Stack.toList_push]
    exact fails_or_yields_arith .plus a b _
  | mul =>
    obtain ⟨r, b, a, rfl⟩ := Stack.exists_push_push hs
    rw [Stack.toList_push, Stack.toList_push]
    exact fails_or_yields_arith .times a b _
  | apply t =>
    cases h : t.run s with
    | ok r => exact Or.inr ⟨_, .apply h⟩
    | error fault => exact Or.inl ⟨_, .transform h⟩

/-- Executing an operation implements the table. It fails with a failure exactly if the table has that failure
for the values of the stack, and it succeeds with a stack exactly if the table has the values of that stack. -/
theorem execute_table (op : Operation) (s : Stack) :
    (∀ failure, op.execute s = .error failure ↔ op.Fails s.toList failure) ∧
    (∀ r, op.execute s = .ok r ↔ op.Yields s.toList r.toList) := by
  have hfails : ∀ {failure}, op.Fails s.toList failure → op.execute s = .error failure := fun h => by
    rw [← h.execute, Stack.ofList_toList]
  have hyields : ∀ {left}, op.Yields s.toList left → op.execute s = .ok (.ofList left) := fun h => by
    rw [← h.execute, Stack.ofList_toList]
  -- the row that exists is the one that is met, since an execution has one result
  rcases fails_or_yields op s with ⟨failure', h'⟩ | ⟨left, h'⟩
  · refine ⟨fun failure => ⟨fun h => ?_, hfails⟩, fun r => ⟨fun h => ?_, fun h => ?_⟩⟩
    · cases h.symm.trans (hfails h')
      exact h'
    · cases h.symm.trans (hfails h')
    · cases (hfails h').symm.trans (hyields h)
  · refine ⟨fun failure => ⟨fun h => ?_, fun h => ?_⟩, fun r => ⟨fun h => ?_, fun h => ?_⟩⟩
    · cases h.symm.trans (hyields h')
    · cases (hyields h').symm.trans (hfails h)
    · cases h.symm.trans (hyields h')
      rwa [Stack.toList_ofList]
    · rw [hyields h, Stack.ofList_toList]

/-- The error of a transform comes back as it is, whatever its type. -/
theorem fault?_of_fallible {E : Type} [ErrorText E] {f : Stack → Except E Stack} {s : Stack} {failure : Failure}
    (h : (apply (.fallible f)).execute s = .error failure) :
    ∃ e : E, f s = .error e ∧ failure.fault? = some ⟨e⟩ := by
  simp only [Operation.execute, Transform.fallible] at h
  cases he : f s with
  | ok r =>
    rw [he] at h
    cases h
  | error e =>
    rw [he] at h
    cases h
    exact ⟨e, rfl, rfl⟩

example : add.execute (.ofList [.str "x"]) = .error (.underflow "add" 2 1) := rfl

end Operation

end StackLang
