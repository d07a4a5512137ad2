/-
Expressions of sums and products, and the programs that compute them: first the left part, then the
right part, then the operation, each part leaving one value on the stack. At the leaves stand values
that count as integers, booleans and numerals among them, which are coerced where they are used. Integers
of 64 bits wrap around at every node, and still the program of an expression ends with its value in
unbounded integers, taken modulo 2^64 once.
-/
import Mathlib.Data.Int.ModEq
import StackLang.Proofs.Execute
import StackLang.Proofs.StraightLine

namespace StackLang

/-! ## Integers of 64 bits -/

/-- Every integer has one integer of 64 bits that is congruent to it. -/
theorem toInt_modEq_iff (w : Int64) (z : Int) : w.toInt ≡ z [ZMOD 2 ^ 64] ↔ w = Int64.ofInt z := by
  constructor
  · intro h
    have hb : (w.toInt % (2 ^ 64 : Nat)).bmod (2 ^ 64) = (z % (2 ^ 64 : Nat)).bmod (2 ^ 64) :=
      congrArg (Int.bmod · (2 ^ 64)) h
    rw [Int.emod_bmod, Int.emod_bmod] at hb
    apply Int64.toInt_inj.1
    calc w.toInt = (Int64.ofInt w.toInt).toInt := by rw [Int64.ofInt_toInt]
      _ = w.toInt.bmod (2 ^ 64) := Int64.toInt_ofInt
      _ = z.bmod (2 ^ 64) := hb
      _ = (Int64.ofInt z).toInt := Int64.toInt_ofInt.symm
  · rintro rfl
    rw [Int64.toInt_ofInt]
    exact Int.bmod_emod

/-! ## Expressions -/

/-- The operations of arithmetic. -/
inductive Arith where
  | plus
  | times

namespace Arith

/-- What an operation of arithmetic makes of two integers. -/
def onInt : Arith → Int → Int → Int
  | .plus, m, n => m + n
  | .times, m, n => m * n

/-- The operation on stacks. -/
def operation : Arith → Operation
  | .plus => .add
  | .times => .mul

/-- The program that replaces the top two values. -/
def program : Arith → Program Stack
  | .plus => .add
  | .times => .mul

theorem program_eq (a : Arith) : a.program = .suspend a.operation := by
  cases a with
  | plus | times => rfl

/-- On values that count as integers, arithmetic goes modulo 2^64; the right operand is on top. -/
theorem execute_operation (a : Arith) (s : Stack) {v w : Value} {m n : Int}
    (hv : v.toNumber? = some (.int (Int64.ofInt m))) (hw : w.toNumber? = some (.int (Int64.ofInt n))) :
    a.operation.execute ((s.push v).push w) = .ok (s.push (.int (Int64.ofInt (a.onInt m n)))) := by
  cases a with
  | plus =>
    rw [operation, Operation.execute_add, Operation.combine_of_numbers hw hv, onInt, Int.add_comm, Int64.ofInt_add]
    rfl
  | times =>
    rw [operation, Operation.execute_mul, Operation.combine_of_numbers hw hv, onInt, Int.mul_comm, Int64.ofInt_mul]
    rfl

end Arith

/-- Sums and products of values that count as integers. -/
inductive Expression where
  | leaf (v : Value) (i : Int64) (h : v.toNumber? = some (.int i))
  | node (a : Arith) (left right : Expression)

namespace Expression

/-- The program of an expression: the operands, then the operation. -/
def compile : Expression → Program Stack
  | leaf v _ _ => .push v
  | node a left right => .sequence [left.compile, right.compile, a.program]

/-- The value in unbounded integers. -/
def value : Expression → Int
  | leaf _ i _ => i.toInt
  | node a left right => a.onInt left.value right.value

/-- The number of leaves and operations. -/
def nodes : Expression → Nat
  | leaf .. => 1
  | node _ left right => left.nodes + right.nodes + 1

/-- What the program of an expression leaves on the stack: a leaf as it stands, and otherwise the value
modulo 2^64. -/
def result : Expression → Value
  | leaf v _ _ => v
  | node a left right => .int (Int64.ofInt (node a left right).value)

theorem toNumber?_result (e : Expression) : e.result.toNumber? = some (.int (Int64.ofInt e.value)) := by
  cases e with
  | leaf v i h => rw [result, value, Int64.ofInt_toInt]; exact h
  | node a left right => rfl

end Expression

namespace Interpreter

theorem runOn_compile {i : Interpreter} (hi : i.maxSteps = none) (e : Expression) (s : Stack) :
    (i.runOn s e.compile).2 = some (.ok ⟨s.push e.result, s.push e.result, e.nodes⟩) := by
  induction e generalizing s with
  | leaf v n h => exact runOn_suspend hi (Operation.execute_push s v)
  | node a left right ihl ihr =>
    let t := s.push (Expression.node a left right).result
    have hx : a.operation.execute ((s.push left.result).push right.result) = .ok t :=
      a.execute_operation s left.toNumber?_result right.toNumber?_result
    have ha : (i.runOn ((s.push left.result).push right.result) a.program).2 = some (.ok ⟨t, t, 1⟩) := by
      rw [a.program_eq]
      exact runOn_suspend hi hx
    -- the operands push one value each, and the operation finds both on top
    have hs := Concludes.runOn_sequence hi (.succeeded (.cons (ihl s) (.cons (ihr _) (.cons ha (.nil t)))))
    refine hs.trans ?_
    simp only [lastValue_cons, lastStack_cons, totalSteps_cons, Expression.nodes, Nat.add_assoc]
    rfl

/-- Without a limit, the program of an expression succeeds from every stack after as many operations as the
expression has nodes. It leaves one value more on the stack, and that stack is its result: the value of a
leaf, and else the one integer of 64 bits that is congruent modulo 2^64 to the value of the expression in
unbounded integers. -/
theorem runOn_expression (initial s : Stack) (e : Expression) :
    ((startingAt initial).runOn s e.compile).2 = some (.ok ⟨s.push e.result, s.push e.result, e.nodes⟩) ∧
    (∀ v i h, e = .leaf v i h → e.result = v) ∧
    (∀ a left right, e = .node a left right →
      ∃ w : Int64, e.result = .int w ∧ ∀ w' : Int64, w'.toInt ≡ e.value [ZMOD 2 ^ 64] ↔ w' = w) := by
  refine ⟨runOn_compile rfl e s, ?_, ?_⟩
  · rintro v i h rfl
    rfl
  · rintro a left right rfl
    exact ⟨_, rfl, fun w' => toInt_modEq_iff w' _⟩

/-- The largest integer plus a numeral between blanks, which wraps around, times a boolean; and the numeral
alone. -/
theorem runOn_expression_wrapping :
    let one : Expression := .leaf (.str " 1 ") 1 (by decide)
    let e : Expression :=
      .node .times (.node .plus (.leaf (.int 9223372036854775807) _ rfl) one) (.leaf (.bool true) _ rfl)
    (((startingAt .empty).runOn .empty e.compile).2 =
        some (.ok ⟨.ofList [.int (-9223372036854775808)], .ofList [.int (-9223372036854775808)], 5⟩) ∧
      ∃ w : Int64, e.result = .int w ∧ ∀ w' : Int64, w'.toInt ≡ 9223372036854775808 [ZMOD 2 ^ 64] ↔ w' = w) ∧
    (((startingAt .empty).runOn .empty one.compile).2 = some (.ok ⟨.ofList [.str " 1 "], .ofList [.str " 1 "], 1⟩) ∧
      one.result = .str " 1 ") := by
  intro one e
  obtain ⟨he, -, hnode⟩ := runOn_expression .empty .empty e
  obtain ⟨hone, hleaf, -⟩ := runOn_expression .empty .empty one
  exact ⟨⟨he.trans rfl, hnode _ _ _ rfl⟩, hone, hleaf _ _ _ rfl⟩

end Interpreter

end StackLang
