/-
Literals on the command line. Every integer, every boolean and every finite double is read back from its
literal, and every sample word and every factorial ends under every limit. So a word or a factorial is
evaluated on what was written, as long as no literal has a minus sign in front; one that has is taken for
an option and refused, unless it stands behind `--`.
-/
import StackLang.CommandLine.Report
import StackLang.Proofs.Arguments
import StackLang.Proofs.Dictionary
import StackLang.Proofs.Factorial
import StackLang.Proofs.Literal

namespace StackLang

/-! ## Values that can be spelled -/

/-- An argument is read as the number that it is without any blanks removed, and otherwise by its name. -/
theorem CommandLine.readValue_eq (arg : String) :
    readValue arg = match Number.read? arg.toList with
      | some n => n.toValue
      | none => readNonNumber arg := by
  unfold readValue Number.read? Decimal.readFinite?
  cases Text.Numeral.readInt64 arg.toList with
  | ok n => rfl
  | error fault =>
    cases Decimal.readFloat? arg.toList with
    | none => rfl
    | some x =>
      dsimp only
      rw [Option.filter_some]
      split
      · rfl
      · rfl

namespace Value

open Binary

/-- Integers, booleans and finite doubles. -/
def isScalar : Value → Bool
  | .int _ => true
  | .float x => x.isFinite
  | .bool _ => true
  | .str _ => false

/-- Integers below zero and doubles with their sign set, the negative zero among them. -/
def isNegative : Value → Bool
  | .int n => n < 0
  | .float x => pow2 63 ≤ x.toBits.toNat
  | .bool _ => false
  | .str _ => false

/-- A scalar is read back from its literal. -/
theorem readValue_render {v : Value} (h : v.isScalar = true) : CommandLine.readValue v.render = v := by
  rw [CommandLine.readValue_eq, render, String.toList_ofList]
  cases v with
  | int n => rw [Number.read?_int]; rfl
  | float x => rw [Number.read?_float h]; rfl
  | bool b => cases b <;> rfl
  | str s => cases h

/-- The literal of a scalar has a minus sign exactly if it is negative, and a digit behind it. -/
theorem literal_of_isScalar {v : Value} (h : v.isScalar = true) :
    ∃ c cs, c ≠ '-' ∧ v.literal = (if v.isNegative then ['-'] else []) ++ c :: cs ∧
      (v.isNegative = true → c.isDigit = true) := by
  cases v with
  | int n =>
    obtain ⟨c, cs, hcs⟩ := List.exists_cons_of_ne_nil (Text.Numeral.ofNat_ne_nil n.toInt.natAbs)
    have hc : c.isDigit = true := Text.Numeral.isDigit_of_mem_ofNat (by rw [hcs]; exact List.mem_cons_self)
    refine ⟨c, cs, Text.Numeral.ne_of_isDigit hc rfl, ?_, fun _ => hc⟩
    have hneg : n.toInt < 0 ↔ n < 0 := by rw [Int64.lt_iff_toInt_lt, Int64.toInt_zero]
    simp only [literal, Text.Numeral.ofInt, hcs, isNegative, hneg, decide_eq_true_eq]
    split <;> rfl
  | float x =>
    obtain ⟨negative, m, q, hx⟩ := Double.isFinite_iff.1 h
    obtain ⟨c, cs, hcs, hc⟩ := renderMagnitude_head m q
    refine ⟨c, cs, Text.Numeral.ne_of_isDigit hc rfl, ?_, fun _ => hc⟩
    simp only [literal, hx, Double.render, hcs, isNegative, Double.negative_of_finite hx]
    rfl
  | bool b =>
    cases b with
    | true => exact ⟨'t', _, by decide, rfl, fun h => by cases h⟩
    | false => exact ⟨'f', _, by decide, rfl, fun h => by cases h⟩
  | str s => cases h

end Value

/-! ## Evaluations that end -/

namespace Interpreter

variable {s : Stack} {p : Program Stack}

/-- What ends without a limit ends under every limit. -/
theorem exists_eval (h : ∃ v, ((startingAt s).runOn s p).2 = some v) (limit : Option Nat) :
    ∃ log result, (mk s limit).eval p = (log, some result) := by
  obtain ⟨v, hv⟩ : ∃ v, ((mk s limit).runOn s p).2 = some v := by
    cases limit with
    | none => exact h
    | some l => exact ⟨_, runOn_limited s s p l⟩
  refine ⟨((mk s limit).runOn s p).1, v.map Outcome.value, ?_⟩
  show (_, ((mk s limit).runOn s p).2.map _) = _
  rw [hv]
  rfl

theorem exists_runOn_straightLine (s : Stack) (ops : List Operation) :
    ∃ v, ((startingAt s).runOn s (.straightLine ops)).2 = some v := by
  cases h : Operation.executeAll ops s with
  | ok t => exact ⟨_, runOn_straightLine_ok rfl h⟩
  | error failure =>
    obtain ⟨pre, op, post, t, rfl, hpre, hop⟩ := Operation.exists_of_executeAll_error h
    exact ⟨_, runOn_straightLine_error rfl hpre hop post⟩

/-- The sample words are straight lines that end with arithmetic. -/
theorem exists_straightLine_of_standard {word : String} (hword : Dictionary.standard.get? word = some p) :
    ∃ (ops : List Operation) (o : Arith), (∀ op ∈ ops, op.isApply = false) ∧ p = .straightLine (ops ++ [o.operation]) := by
  rw [Dictionary.get?_standard] at hword
  split at hword
  · cases hword
    exact ⟨[.add], .plus, by simp [Operation.isApply], rfl⟩
  · split at hword
    · cases hword
      exact ⟨[.dup], .times, by simp [Operation.isApply], rfl⟩
    · cases hword

theorem exists_runOn_standard {word : String} (hword : Dictionary.standard.get? word = some p) (s : Stack) :
    ∃ v, ((startingAt s).runOn s p).2 = some v := by
  obtain ⟨ops, o, -, rfl⟩ := exists_straightLine_of_standard hword
  exact exists_runOn_straightLine s _

end Interpreter

/-! ## Command lines -/

namespace CommandLine

open Level

/-- The report of a result: the stack it is, or what its error and the causes of that say. -/
def Report.ofResult : Except EvalError Stack → Report
  | .ok s => ⟨0, [s.render], [], []⟩
  | .error e => ⟨1, [], [], e.message :: e.causes⟩

/-- The arguments have a program evaluated from a stack under a limit, and the result is reported. -/
def Evaluates (args : List String) (s : Stack) (limit : Option Nat) (p : Program Stack) : Prop :=
  ∃ log result, (Interpreter.mk s limit).eval p = (log, some result) ∧
    (parse args).map Invocation.report = .ok (.ofResult result)

/-- A command takes literals behind other arguments and evaluates a program. Literals with a minus sign are
refused, the first of them being named up to its first digit, unless they stand behind two dashes. -/
structure TakesLiterals (limit : Option Nat) (topic : Topic) (others : List String) (values : List Value)
    (s : Stack) (p : Program Stack) : Prop where
  plain : (∀ v ∈ values, v.isNegative = false) →
    ∀ args, Asks limit topic (others ++ values.map Value.render) args → Evaluates args s limit p
  negative : ∀ v, values.find? Value.isNegative = some v →
    ∀ args, Asks limit topic (others ++ values.map Value.render) args →
      parse args = .error (.usage (.unexpectedArgument (String.ofList (v.literal.take 2))))
  escaped : Evaluates (limitArgs limit ++ topic.name :: (others ++ "--" :: values.map Value.render)) s limit p

theorem isDashed_render {v : Value} (h : v.isScalar = true) : isDashed v.render = v.isNegative := by
  obtain ⟨c, cs, hc, hliteral, -⟩ := Value.literal_of_isScalar h
  unfold isDashed
  rw [Value.render, String.toList_ofList, hliteral]
  cases v.isNegative with
  | true => rfl
  | false => simpa using hc

theorem evaluates_of_parse {args : List String} {s : Stack} {limit : Option Nat} {p : Program Stack} {asked : Command}
    (hparse : parse args = .ok ⟨limit, false, asked⟩)
    (hasked : asked.report limit = let (log, result) := (Interpreter.mk s limit).eval p; reportEval log result)
    (hends : ∃ v, ((Interpreter.startingAt s).runOn s p).2 = some v) : Evaluates args s limit p := by
  obtain ⟨log, result, heval⟩ := Interpreter.exists_eval hends limit
  refine ⟨log, result, heval, ?_⟩
  rw [hparse]
  rw [heval] at hasked
  show Except.ok (Invocation.report _) = _
  unfold Invocation.report
  dsimp only
  rw [hasked]
  cases result <;> rfl

theorem find?_render {values : List Value} (hvalues : ∀ v ∈ values, v.isScalar = true) :
    (values.map Value.render).find? isDashed = (values.find? Value.isNegative).map Value.render := by
  rw [List.find?_map]
  exact congrArg _ (List.find?_congr fun v hv => isDashed_render (hvalues v hv))

theorem not_isDashed_of_mem_map {values : List Value} (hvalues : ∀ v ∈ values, v.isScalar = true)
    (hplain : ∀ v ∈ values, v.isNegative = false) : ∀ t ∈ values.map Value.render, isDashed t = false := by
  intro t ht
  obtain ⟨v, hv, rfl⟩ := List.mem_map.1 ht
  rw [isDashed_render (hvalues v hv), hplain v hv]

/-- A negative literal starts with a dash and a digit. -/
theorem toList_render_of_isNegative {v : Value} (h : v.isScalar = true) (hneg : v.isNegative = true) :
    ∃ c cs, v.render.toList = '-' :: c :: cs ∧ c.isDigit = true ∧ v.literal.take 2 = ['-', c] := by
  obtain ⟨c, cs, -, hliteral, hdigit⟩ := Value.literal_of_isScalar h
  rw [if_pos hneg] at hliteral
  refine ⟨c, cs, ?_, hdigit hneg, ?_⟩
  · rw [Value.render, String.toList_ofList, hliteral]
    rfl
  · rw [hliteral]
    rfl

section Takes

variable {limit : Option Nat} (hlimit : ∀ l ∈ limit, l < pow2 64)
include hlimit

theorem takesLiterals_run {word : String} {p : Program Stack} (hword : Dictionary.standard.get? word = some p)
    {values : List Value} (hvalues : ∀ v ∈ values, v.isScalar = true) :
    TakesLiterals limit .run [word] values (.ofList values) p := by
  have hplain : isDashed word = false := by
    rw [Dictionary.get?_standard] at hword
    split at hword
    · rename_i h; rw [← h]; decide
    · split at hword
      · rename_i h; rw [← h]; decide
      · cases hword
  have hread : (values.map Value.render).map readValue = values := by
    rw [List.map_map]
    exact (List.map_congr_left fun v hv => Value.readValue_render (hvalues v hv)).trans (List.map_id values)
  have hreport : (Command.run word (values.map Value.render)).report limit =
      let (log, result) := (Interpreter.mk (.ofList values) limit).eval p; reportEval log result := by
    simp only [Command.report, hword, hread]
  have hends := Interpreter.exists_runOn_standard hword (.ofList values)
  refine ⟨fun hneg args hargs => ?_, fun v hv args hargs => ?_, ?_⟩
  · have htexts := not_isDashed_of_mem_map hvalues hneg
    refine evaluates_of_parse ?_ hreport hends
    exact hargs.parse_eq hlimit (by decide) (.ok (⟨none, false, some word, values.map Value.render, none⟩, _))
      fun l hl xs ys hplaces => readCommand_run hl hplain htexts hplaces
  · have hmem := List.mem_of_find?_eq_some hv
    obtain ⟨c, cs, hc, hdigit, htake⟩ := toList_render_of_isNegative (hvalues v hmem) (List.find?_some hv)
    have ht : (values.map Value.render).find? isDashed = some v.render := by rw [find?_render hvalues, hv]; rfl
    rw [htake]
    exact hargs.parse_eq hlimit (by decide) (.error _)
      fun l hl xs ys hplaces => readCommand_run_dashed hl hplain ht hc hdigit hplaces
  · refine evaluates_of_parse ?_ hreport hends
    rw [parse_command hlimit (by decide)]
    show (readCommand .run (word :: "--" :: values.map Value.render)).bind _ = _
    rw [readCommand_run_escaped hplain]
    rfl

theorem takesLiterals_factorial (n : Int64) :
    TakesLiterals limit .factorial [] [.int n] .empty (Words.factorial n) := by
  have hscalar : ∀ v ∈ [Value.int n], v.isScalar = true := by
    intro v hv
    rw [List.mem_singleton.1 hv]
    rfl
  have hread : Text.Numeral.readInt64 (Value.int n).render.toList = .ok n := by
    rw [Value.render, String.toList_ofList]
    exact Text.Numeral.readInt64_ofInt n
  have hreport : (Command.factorial n).report limit =
      let (log, result) := (Interpreter.mk .empty limit).eval (Words.factorial n); reportEval log result := rfl
  have hends : ∃ v, ((Interpreter.startingAt .empty).runOn .empty (Words.factorial n)).2 = some v :=
    ⟨_, Interpreter.runOn_factorial_unlimited rfl n .empty⟩
  refine ⟨fun hneg args hargs => ?_, fun v hv args hargs => ?_, ?_⟩
  · have htext := not_isDashed_of_mem_map hscalar hneg _ List.mem_cons_self
    refine evaluates_of_parse ?_ hreport hends
    exact hargs.parse_eq hlimit (by decide) (.ok (⟨none, false, none, [], some n⟩, .factorial n))
      fun l hl xs ys hplaces => readCommand_factorial hl htext hread hplaces
  · obtain rfl := List.mem_singleton.1 (List.mem_of_find?_eq_some hv)
    obtain ⟨c, cs, hc, hdigit, htake⟩ := toList_render_of_isNegative rfl (List.find?_some hv)
    rw [htake]
    exact hargs.parse_eq hlimit (by decide) (.error _)
      fun l hl xs ys hplaces => readCommand_factorial_dashed hl hc hdigit hplaces
  · refine evaluates_of_parse ?_ hreport hends
    rw [parse_command hlimit (by decide)]
    show (readCommand .factorial ["--", (Value.int n).render]).bind _ = _
    rw [readCommand_factorial_escaped hread]
    rfl

end Takes

/-- A sample word is evaluated on any integers, booleans and finite doubles, the top first, and the factorial
of any integer on the empty stack, under any limit of 64 bits: the literals on the command line are the
values, and what is reported is the result. This holds of literals without a minus sign and of all that
stand behind `--`; others are refused as unexpected arguments. -/
theorem literals_taken (limit : Option Nat) (hlimit : ∀ l ∈ limit, l < 2 ^ 64) :
    (∀ word p, Dictionary.standard.get? word = some p → ∀ values : List Value, (∀ v ∈ values, v.isScalar = true) →
      TakesLiterals limit .run [word] values (.ofList values) p) ∧
    ∀ n : Int64, TakesLiterals limit .factorial [] [.int n] .empty (Words.factorial n) := by
  refine ⟨fun word p hword values hvalues => ?_, fun n => ?_⟩
  · exact takesLiterals_run hlimit hword hvalues
  · exact takesLiterals_factorial hlimit n

/-- The square of five is computed, and that of minus five only behind two dashes. -/
theorem literals_taken_minus :
    ((∀ l ∈ some 7, l < 2 ^ 64) ∧ Dictionary.standard.get? "squared" = some Words.squared ∧
      (∀ v ∈ [Value.int 5], v.isScalar = true) ∧
      Evaluates ["run", "squared", "5", "--max-steps", "7"] (.ofList [.int 5]) (some 7) Words.squared) ∧
    parse ["run", "squared", "-5"] = .error (.usage (.unexpectedArgument "-5")) ∧
    ¬ Evaluates ["run", "squared", "-5"] (.ofList [.int (-5)]) none Words.squared ∧
    Evaluates ["run", "squared", "--", "-5"] (.ofList [.int (-5)]) none Words.squared ∧
    parse ["factorial", "-3"] = .error (.usage (.unexpectedArgument "-3")) := by
  have hword : Dictionary.standard.get? "squared" = some Words.squared := by
    rw [Dictionary.get?_standard]
    rfl
  have hseven : ∀ l ∈ some 7, l < 2 ^ 64 := by decide
  have hnone : ∀ l ∈ (none : Option Nat), l < 2 ^ 64 := by rintro l ⟨⟩
  have hfive : ∀ v ∈ [Value.int 5], v.isScalar = true := by decide
  have hminus := (literals_taken none hnone).1 _ _ hword [.int (-5)] (by decide)
  have hrefused : parse ["run", "squared", "-5"] = .error (.usage (.unexpectedArgument "-5")) :=
    hminus.negative (.int (-5)) rfl _ .before
  refine ⟨⟨hseven, hword, hfive, ?_⟩, hrefused, ?_, hminus.escaped, ?_⟩
  · exact ((literals_taken (some 7) hseven).1 _ _ hword _ hfive).plain (by decide) _
      (.behind ["squared", "5"] [] rfl)
  · rintro ⟨log, result, -, h⟩
    rw [hrefused] at h
    cases h
  · exact ((literals_taken none hnone).2 (-3)).negative (.int (-3)) rfl _ .before

end CommandLine

end StackLang
