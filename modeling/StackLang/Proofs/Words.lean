/-
What the sample words do to a stack. Each word has a table of its ends, by the values on top of the stack and
by how many there are: the value it leaves in place of those it takes, and the operation, the step and the
reason of every failure. Both words are two operations, and the second meets what the first has made of the
stack: after duplicating, a value that is no number is found on a stack with one value more, and after the
first sum the second finds one value less. Every stack has one row, and evaluations end as that row says.
-/
import StackLang.Proofs.Dictionary
import StackLang.Proofs.Table

namespace StackLang

namespace Words

open Arith (plus times)

/-! ## The tables -/

/-- The success that leaves the given values, the top first, on the stack and as its result. -/
def leaving (values : List Value) (steps : Nat) : Verdict Stack := .ok ⟨.ofList values, .ofList values, steps⟩

/-- The ends of the square, on the values of the stack, the top first. -/
inductive Squares : List Value → Verdict Stack → Prop where
  | squared {a : Value} {x : Number} (ha : a.toNumber? = some x) (rest : List Value) :
      Squares (a :: rest) (leaving ((times.onNumber x x).toValue :: rest) 2)
  | nothing : Squares [] (.error ⟨.underflow "dup" 1 0, 0⟩)
  | noNumber {a : Value} (ha : a.toNumber? = none) (rest : List Value) :
      Squares (a :: rest) (.error ⟨.typeMismatch "mul" .str ((a :: rest).length + 1), 1⟩)

/-- The ends of the sum of three, on the values of the stack, the top first. -/
inductive SumsThree : List Value → Verdict Stack → Prop where
  | added {a b c : Value} {x y z : Number} (ha : a.toNumber? = some x) (hb : b.toNumber? = some y)
      (hc : c.toNumber? = some z) (rest : List Value) :
      SumsThree (a :: b :: c :: rest) (leaving ((plus.onNumber (plus.onNumber x y) z).toValue :: rest) 2)
  | short {values : List Value} (h : values.length < 2) :
      SumsThree values (.error ⟨.underflow "add" 2 values.length, 0⟩)
  | noNumber {a b : Value} (h : a.toNumber? = none ∨ b.toNumber? = none) (rest : List Value) :
      SumsThree (a :: b :: rest) (.error ⟨.typeMismatch "add" .str (a :: b :: rest).length, 0⟩)
  | onlyTwo {a b : Value} {x y : Number} (ha : a.toNumber? = some x) (hb : b.toNumber? = some y) :
      SumsThree [a, b] (.error ⟨.underflow "add" 2 1, 1⟩)
  | thirdNoNumber {a b c : Value} {x y : Number} (ha : a.toNumber? = some x) (hb : b.toNumber? = some y)
      (hc : c.toNumber? = none) (rest : List Value) :
      SumsThree (a :: b :: c :: rest) (.error ⟨.typeMismatch "add" .str ((a :: b :: c :: rest).length - 1), 1⟩)

/-! ## Rows for every stack -/

theorem exists_squares (values : List Value) : ∃ v, Squares values v := by
  cases values with
  | nil => exact ⟨_, .nothing⟩
  | cons a rest =>
    cases ha : a.toNumber? with
    | none => exact ⟨_, .noNumber ha rest⟩
    | some x => exact ⟨_, .squared ha rest⟩

theorem exists_sumsThree (values : List Value) : ∃ v, SumsThree values v := by
  match values with
  | [] => exact ⟨_, .short Nat.zero_lt_two⟩
  | [a] => exact ⟨_, .short Nat.one_lt_two⟩
  | a :: b :: rest =>
    cases ha : a.toNumber? with
    | none => exact ⟨_, .noNumber (.inl ha) rest⟩
    | some x =>
      cases hb : b.toNumber? with
      | none => exact ⟨_, .noNumber (.inr hb) rest⟩
      | some y =>
        cases rest with
        | nil => exact ⟨_, .onlyTwo ha hb⟩
        | cons c rest =>
          cases hc : c.toNumber? with
          | none => exact ⟨_, .thirdNoNumber ha hb hc rest⟩
          | some z => exact ⟨_, .added ha hb hc rest⟩

end Words

namespace Interpreter

open Words
open Arith (plus times)

variable {i : Interpreter}

/-- Where a table has a row for every stack, and an evaluation ends as its row says, it ends, and only one row
can say so. -/
theorem exists_runOn_of_table {p : Program Stack} {table : List Value → Verdict Stack → Prop}
    (hrow : ∀ values v, table values v → (i.runOn (.ofList values) p).2 = some v)
    (htable : ∀ values, ∃ v, table values v) (s : Stack) :
    ∃ v, (i.runOn s p).2 = some v ∧ ∀ w, table s.toList w ↔ w = v := by
  obtain ⟨v, hv⟩ := htable s.toList
  have hrun := hrow _ _ hv
  refine ⟨v, by rwa [Stack.ofList_toList] at hrun, fun w => ⟨fun hw => ?_, ?_⟩⟩
  · exact Option.some.inj ((hrow _ _ hw).symm.trans hrun)
  · rintro rfl
    exact hv

section Unlimited

variable (hi : i.maxSteps = none)
include hi

theorem runOn_squared {values : List Value} {v : Verdict Stack} (h : Squares values v) :
    (i.runOn (.ofList values) squared).2 = some v := by
  have hdup : ∀ a rest, Operation.dup.execute (.ofList (a :: rest)) = .ok (.ofList (a :: a :: rest)) :=
    fun a rest => (Operation.Yields.dup a rest).execute
  cases h with
  | squared ha rest => exact runOn_pair hi (hdup _ rest) (times.execute_of_numbers ha ha rest)
  | nothing => exact runOn_of_error hi (runOn_suspend_error hi rfl) [.mul]
  | noNumber ha rest => exact runOn_pair_error hi (hdup _ rest) (Operation.Fails.mismatch times (.inl ha) rest).execute

theorem runOn_sum3 {values : List Value} {v : Verdict Stack} (h : SumsThree values v) :
    (i.runOn (.ofList values) sum3).2 = some v := by
  cases h with
  | @added a b c x y z ha hb hc rest =>
    -- the first sum is back on the stack as a value, and counts as the number that it is
    have hsecond := plus.execute_of_numbers (Number.toNumber?_toValue (plus.onNumber x y)) hc rest
    exact runOn_pair hi (plus.execute_of_numbers ha hb _) hsecond
  | short h =>
    have hfirst : Operation.add.Fails values (.underflow "add" 2 values.length) := .underflow h
    exact runOn_of_error hi (runOn_suspend_error hi hfirst.execute) [.add]
  | noNumber h rest =>
    have hfirst := (Operation.Fails.mismatch plus h rest).execute
    exact runOn_of_error hi (runOn_suspend_error hi hfirst) [.add]
  | onlyTwo ha hb => exact runOn_pair_error hi (plus.execute_of_numbers ha hb []) rfl
  | thirdNoNumber ha hb hc rest =>
    exact runOn_pair_error hi (plus.execute_of_numbers ha hb _) (Operation.Fails.mismatch plus (.inr hc) rest).execute

end Unlimited

/-- The sample words have exactly the effect of their tables. Without a limit, the program that the standard
dictionary has under the name of a word ends on every stack, as the one row of the table says that fits the
values of the stack. The product or sum of two integers in a table is an integer, taken modulo 2^64; if one of
the two is a double, it is that of two doubles. -/
theorem runOn_words (initial : Stack) :
    (Dictionary.standard.get? "squared" = some squared ∧
      ∀ s, ∃ v, ((startingAt initial).runOn s squared).2 = some v ∧ ∀ w, Squares s.toList w ↔ w = v) ∧
    (Dictionary.standard.get? "sum3" = some sum3 ∧
      ∀ s, ∃ v, ((startingAt initial).runOn s sum3).2 = some v ∧ ∀ w, SumsThree s.toList w ↔ w = v) ∧
    ∀ o : Arith,
      (∀ m n : Int64, o.onNumber (.int m) (.int n) = .int (Int64.ofInt (o.onInt m.toInt n.toInt))) ∧
      ∀ x y : Number, x.isFloat ∨ y.isFloat → o.onNumber x y = .float (o.onFloat x.toFloat y.toFloat) := by
  refine ⟨⟨?_, fun s => ?_⟩, ⟨?_, fun s => ?_⟩, fun o => ⟨o.onNumber_ints, fun x y => o.onNumber_floats⟩⟩
  · rw [Dictionary.get?_standard]
    rfl
  · exact exists_runOn_of_table (fun values v => runOn_squared rfl) exists_squares s
  · rw [Dictionary.get?_standard]
    rfl
  · exact exists_runOn_of_table (fun values v => runOn_sum3 rfl) exists_sumsThree s

/-- The square of a text that is a number; that of a text that is none, above another value; and a sum of three
that another order would change, since 1 is too small to count next to 2^53 and 2 is not. -/
theorem runOn_words_in_order :
    ((startingAt .empty).runOn (.ofList [.str " -3 ", .str "x"]) squared).2 = some (leaving [.int 9, .str "x"] 2) ∧
    ((startingAt .empty).runOn (.ofList [.str "x", .int 1]) squared).2 =
      some (.error ⟨.typeMismatch "mul" .str 3, 1⟩) ∧
    ((startingAt .empty).runOn (.ofList [.float 9007199254740992, .bool true, .str "1e0"]) sum3).2 =
      some (leaving [.float 9007199254740992] 2) ∧
    ((Number.int 1).isFloat ∨ (Number.float 1).isFloat) ∧ plus.onNumber (.int 1) (.float 1) = .float 2 ∧
    plus.onNumber (.float 9007199254740992) (.float 2) ≠ .float 9007199254740992 := by
  obtain ⟨⟨-, hsquared⟩, ⟨-, hsum⟩, hnumbers⟩ := runOn_words .empty
  refine ⟨?_, ?_, ?_, by decide, ?_, by decide +kernel⟩
  · obtain ⟨v, hv, hrow⟩ := hsquared (.ofList [.str " -3 ", .str "x"])
    rw [hv, ← (hrow _).1 (.squared (x := .int (-3)) (by decide) [.str "x"])]
    rfl
  · obtain ⟨v, hv, hrow⟩ := hsquared (.ofList [.str "x", .int 1])
    rw [hv, ← (hrow _).1 (.noNumber (by decide) [.int 1])]
    rfl
  · obtain ⟨v, hv, hrow⟩ := hsum (.ofList [.float 9007199254740992, .bool true, .str "1e0"])
    have hfirst : plus.onNumber (.float 9007199254740992) (.int 1) = .float 9007199254740992 := by decide +kernel
    have hsecond : plus.onNumber (.float 9007199254740992) (.float 1) = .float 9007199254740992 := by decide +kernel
    have hrow := (hrow _).1 (.added (y := .int 1) (z := .float 1) rfl rfl (by decide +kernel) [])
    rw [hfirst, hsecond] at hrow
    rw [hv, ← hrow]
    rfl
  · rw [(hnumbers plus).2 _ _ (by decide)]
    decide +kernel

end Interpreter

end StackLang
