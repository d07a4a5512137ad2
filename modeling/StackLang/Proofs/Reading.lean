/-
Arguments, literals and texts as operands. The command line reads an argument without removing its blanks, and
arithmetic takes a text for the number it spells between its blanks; still the two agree on every argument
that is not the name of a boolean, since there are no blanks in what is read as a number. So it makes no
difference to a sample word whether its arguments have been read. The literal of a number spells that
number for both, and the literal of anything else is no number, above all that of a text, which has quotes.
-/
import StackLang.Proofs.Coercion
import StackLang.Proofs.CommandLine
import StackLang.Proofs.Rendering
import StackLang.Proofs.Table

namespace StackLang

/-! ## Literals as texts -/

namespace Value

open Binary

/-- What is read as a number is the number that the text stands for. -/
theorem toNumber?_of_read? {cs : List Char} {x : Number} (h : Number.read? cs = some x) :
    (str (String.ofList cs)).toNumber? = some x := by
  rw [toNumber?, String.toList_ofList, Number.trim_of_read? h, h]

/-- The literal of a text is no number, whatever the text is. -/
theorem toNumber?_quoted (s : String) : (str (str s).render).toNumber? = none := by
  have hquote : '"' ∈ Text.trim (str s).literal := Text.mem_trim List.mem_cons_self rfl
  rw [toNumber?, render, String.toList_ofList]
  exact Number.read?_of_mem hquote rfl (by decide)

theorem toNumber?_special {x : Float} (h : x.isFinite = false) : (str (float x).render).toNumber? = none := by
  have hspecial : ∀ d ∈ Double.special, Number.read? (Text.trim d.render) = none := by decide
  rw [toNumber?, render, String.toList_ofList]
  exact hspecial _ (Double.mem_special (by rw [h]; exact Bool.false_ne_true))

/-- An integer of 64 bits, a boolean and a finite double are read back from their literals. Taken as a text, the
literal of an integer or of a finite double stands for that number, and all other literals for none: those of
booleans, of doubles that are not finite, and of texts, even of texts that are numbers. -/
theorem literal_read_back :
    (∀ n : Int64, CommandLine.readValue (int n).render = int n ∧
      (str (int n).render).toNumber? = (int n).toNumber?) ∧
    (∀ x : Float, x.isFinite = true → CommandLine.readValue (float x).render = float x ∧
      (str (float x).render).toNumber? = (float x).toNumber?) ∧
    (∀ b : Bool, CommandLine.readValue (bool b).render = bool b ∧ (str (bool b).render).toNumber? = none) ∧
    (∀ x : Float, x.isFinite = false → (str (float x).render).toNumber? = none) ∧
    ∀ s : String, (str (str s).render).toNumber? = none := by
  refine ⟨fun n => ⟨readValue_render rfl, toNumber?_of_read? (Number.read?_int n)⟩,
    fun x hx => ⟨readValue_render hx, toNumber?_of_read? (Number.read?_float hx)⟩,
    fun b => ⟨readValue_render rfl, ?_⟩, fun x => toNumber?_special, toNumber?_quoted⟩
  cases b with
  | false => decide
  | true => decide

/-- The least integer of 64 bits, the negative zero, an infinity, and a text that is a number until it is
quoted. -/
theorem literal_read_back_at_the_ends :
    (CommandLine.readValue (int (-9223372036854775808)).render = int (-9223372036854775808) ∧
      (str (int (-9223372036854775808)).render).toNumber? = some (.int (-9223372036854775808))) ∧
    ((-0.0 : Float).isFinite = true ∧ CommandLine.readValue (float (-0.0)).render = float (-0.0) ∧
      (str (float (-0.0)).render).toNumber? = some (.float (-0.0))) ∧
    ((1.0 / 0.0 : Float).isFinite = false ∧ (str (float (1.0 / 0.0)).render).toNumber? = none) ∧
    ((str "1").toNumber? = some (.int 1) ∧ (str (str "1").render).toNumber? = none) := by
  obtain ⟨hint, hfinite, -, hspecial, hquoted⟩ := literal_read_back
  have hzero : (-0.0 : Float).isFinite = true := by decide
  have hinfinity : (1.0 / 0.0 : Float).isFinite = false := by decide
  exact ⟨hint _, ⟨hzero, hfinite _ hzero⟩, ⟨hinfinity, hspecial _ hinfinity⟩, by decide, hquoted "1"⟩

end Value

/-! ## Arguments as texts -/

namespace CommandLine

/-- An argument counts as the same number read or as it stands, unless it is the name of a boolean. -/
theorem toNumber?_readValue {x : String} (htrue : x ≠ "true") (hfalse : x ≠ "false") :
    (readValue x).toNumber? = (Value.str x).toNumber? := by
  rw [readValue_eq]
  cases h : Number.read? x.toList with
  | none =>
    dsimp only
    rw [readNonNumber, if_neg htrue, if_neg hfalse]
  | some n =>
    have hx := Value.toNumber?_of_read? h
    rw [String.ofList_toList] at hx
    rw [hx]
    exact Number.toNumber?_toValue n

end CommandLine

/-! ## Stacks of the same numbers -/

namespace Stack

/-- Stacks of the same size whose values count as the same numbers. -/
def SameNumbers (s t : Stack) : Prop := s.toList.map Value.toNumber? = t.toList.map Value.toNumber?

/-- Stacks with the same value on top of the same numbers. -/
inductive SameTop : Stack → Stack → Prop where
  | intro {r r' : Stack} (h : r.SameNumbers r') (v : Value) : SameTop (r.push v) (r'.push v)

variable {s t : Stack} {v w : Value}

theorem SameNumbers.size_eq (h : s.SameNumbers t) : s.size = t.size := by
  have hlength := congrArg List.length h
  rwa [List.length_map, List.length_map, length_toList, length_toList] at hlength

theorem sameNumbers_push : (s.push v).SameNumbers (t.push w) ↔ v.toNumber? = w.toNumber? ∧ s.SameNumbers t := by
  unfold SameNumbers
  rw [toList_push, toList_push, List.map_cons, List.map_cons, List.cons.injEq]

theorem SameNumbers.exists_push (h : (s.push v).SameNumbers t) :
    ∃ r w, t = r.push w ∧ v.toNumber? = w.toNumber? ∧ s.SameNumbers r := by
  cases t using topCases with
  | empty =>
    have hsize := h.size_eq
    simp at hsize
  | push r w => exact ⟨r, w, rfl, sameNumbers_push.1 h⟩

end Stack

/-! ## The same operations -/

namespace Operation

open Stack (SameNumbers SameTop)

/-- Two executions match: both succeed and leave related stacks, or both fail for the same reason. -/
inductive Matching (related : Stack → Stack → Prop) : Except Failure Stack → Except Failure Stack → Prop where
  | ok {s t : Stack} (h : related s t) : Matching related (.ok s) (.ok t)
  | error (failure : Failure) : Matching related (.error failure) (.error failure)

variable {op : Operation} {ops : List Operation} {s t : Stack}

theorem matching_of_size_lt {related : Stack → Stack → Prop} (h : s.SameNumbers t) (hs : s.size < op.requiredDepth) :
    Matching related (op.execute s) (op.execute t) := by
  have ht : t.size < op.requiredDepth := by rwa [← h.size_eq]
  rw [execute_of_size_lt hs, execute_of_size_lt ht, h.size_eq]
  exact .error _

/-- Arithmetic sees the numbers only, and so it leaves the same value. -/
theorem matching_arith (o : Arith) (h : s.SameNumbers t) :
    Matching SameTop (o.operation.execute s) (o.operation.execute t) := by
  rcases Nat.lt_or_ge s.size o.operation.requiredDepth with hs | hs
  · exact matching_of_size_lt h hs
  · have hs : 2 ≤ s.size := by
      cases o with
      | plus | times => exact hs
    obtain ⟨r, w, v, rfl⟩ := Stack.exists_push_push hs
    obtain ⟨u, v', rfl, hv, hu⟩ := h.exists_push
    obtain ⟨r', w', rfl, hw, hr⟩ := hu.exists_push
    rw [o.execute_eq_combine, o.execute_eq_combine]
    by_cases hnone : v.toNumber? = none ∨ w.toNumber? = none
    · rw [combine_of_str hnone, combine_of_str (by rwa [← hv, ← hw]), hr.size_eq]
      exact .error _
    · obtain ⟨hx, hy⟩ := not_or.1 hnone
      obtain ⟨x, hx⟩ := Option.ne_none_iff_exists'.1 hx
      obtain ⟨y, hy⟩ := Option.ne_none_iff_exists'.1 hy
      rw [combine_of_numbers hx hy, combine_of_numbers (by rwa [← hv]) (by rwa [← hw])]
      exact .ok (.intro hr _)

theorem Matching.sameNumbers {x y : Except Failure Stack} (h : Matching SameTop x y) : Matching SameNumbers x y := by
  cases h with
  | error failure => exact .error failure
  | ok h =>
    obtain ⟨h, v⟩ := h
    exact .ok (Stack.sameNumbers_push.2 ⟨rfl, h⟩)

/-- Every operation but the application of a transform keeps the same numbers the same. -/
theorem matching_execute (hop : op.isApply = false) (h : s.SameNumbers t) :
    Matching SameNumbers (op.execute s) (op.execute t) := by
  rcases Nat.lt_or_ge s.size op.requiredDepth with hs | hs
  · exact matching_of_size_lt h hs
  · cases op with
    | push v => exact .ok (Stack.sameNumbers_push.2 ⟨rfl, h⟩)
    | apply t => cases hop
    | pop =>
      obtain ⟨r, v, rfl⟩ := Stack.exists_push hs
      obtain ⟨r', v', rfl, -, hr⟩ := h.exists_push
      rw [execute_pop_push, execute_pop_push]
      exact .ok hr
    | dup =>
      obtain ⟨r, v, rfl⟩ := Stack.exists_push hs
      obtain ⟨r', v', rfl, hv, hr⟩ := h.exists_push
      rw [execute_dup_push, execute_dup_push]
      exact .ok (Stack.sameNumbers_push.2 ⟨hv, h⟩)
    | swap =>
      obtain ⟨r, w, v, rfl⟩ := Stack.exists_push_push hs
      obtain ⟨u, v', rfl, hv, hu⟩ := h.exists_push
      obtain ⟨r', w', rfl, hw, hr⟩ := hu.exists_push
      rw [execute_swap_push, execute_swap_push]
      exact .ok (Stack.sameNumbers_push.2 ⟨hw, Stack.sameNumbers_push.2 ⟨hv, hr⟩⟩)
    | add => exact (matching_arith .plus h).sameNumbers
    | mul => exact (matching_arith .times h).sameNumbers

/-- Operations that are executed on the same numbers lead to the same numbers, or one of them fails on both
sides, at the same place and for the same reason. -/
theorem executeAll_sameNumbers (hops : ∀ op ∈ ops, op.isApply = false) (h : s.SameNumbers t) :
    (∃ s' t', executeAll ops s = .ok s' ∧ executeAll ops t = .ok t' ∧ s'.SameNumbers t') ∨
    ∃ pre op post s' t' failure, ops = pre ++ op :: post ∧ executeAll pre s = .ok s' ∧ executeAll pre t = .ok t' ∧
      op.execute s' = .error failure ∧ op.execute t' = .error failure := by
  induction ops generalizing s t with
  | nil => exact Or.inl ⟨s, t, rfl, rfl, h⟩
  | cons op ops ih =>
    obtain ⟨hop, hops⟩ := List.forall_mem_cons.1 hops
    have hstep := matching_execute hop h
    generalize hs : op.execute s = x at hstep
    generalize ht : op.execute t = y at hstep
    cases hstep with
    | error failure => exact Or.inr ⟨[], op, ops, s, t, failure, rfl, rfl, rfl, hs, ht⟩
    | ok hnext =>
      rcases ih hops hnext with ⟨s', t', hs', ht', h'⟩ | ⟨pre, op', post, s', t', failure, rfl, hs', ht', hfail⟩
      · exact Or.inl ⟨s', t', (executeAll_cons hs).trans hs', (executeAll_cons ht).trans ht', h'⟩
      · exact Or.inr ⟨op :: pre, op', post, s', t', failure, rfl, (executeAll_cons hs).trans hs',
          (executeAll_cons ht).trans ht', hfail⟩

end Operation

/-! ## The same results -/

/-- Two evaluations have the same result: both succeed after as many operations and leave the same value on top,
which is on top of what they return too, or both fail with the same error. -/
inductive Verdict.SameResult : Verdict Stack → Verdict Stack → Prop where
  | succeeded {s t : Stack} (h : s.SameTop t) (n : Nat) : SameResult (.ok ⟨s, s, n⟩) (.ok ⟨t, t, n⟩)
  | failed (e : EvalError) : SameResult (.error e) (.error e)

/-- A limit cuts both short, or none. -/
theorem Verdict.SameResult.within {v w : Verdict Stack} (h : SameResult v w) (l : Nat) :
    SameResult (Verdict.within l (some v)) (Verdict.within l (some w)) := by
  cases h with
  | failed e => exact .failed _
  | @succeeded s t h n =>
    rw [within_ok, within_ok]
    by_cases hn : n ≤ l
    · rw [if_pos hn, if_pos hn]
      exact .succeeded h n
    · rw [if_neg hn, if_neg hn]
      exact .failed _

namespace Interpreter

variable {ops : List Operation} {s t : Stack}

/-- A straight line that ends with arithmetic has the same result on the same numbers. -/
theorem runOn_sameNumbers {i j : Interpreter} (hi : i.maxSteps = none) (hj : j.maxSteps = none)
    (hops : ∀ op ∈ ops, op.isApply = false) (o : Arith) (h : s.SameNumbers t) :
    ∃ v w, (i.runOn s (.straightLine (ops ++ [o.operation]))).2 = some v ∧
      (j.runOn t (.straightLine (ops ++ [o.operation]))).2 = some w ∧ v.SameResult w := by
  rcases Operation.executeAll_sameNumbers hops h with
    ⟨s', t', hs, ht, h'⟩ | ⟨pre, op, post, s', t', failure, rfl, hs, ht, hs', ht'⟩
  · have hlast := Operation.matching_arith o h'
    generalize hs' : o.operation.execute s' = x at hlast
    generalize ht' : o.operation.execute t' = y at hlast
    cases hlast with
    | error failure => exact ⟨_, _, runOn_straightLine_error hi hs hs' [], runOn_straightLine_error hj ht ht' [], .failed _⟩
    | ok htop =>
      have hvs := runOn_straightLine_ok hi (Operation.executeAll_concat hs hs')
      have hvt := runOn_straightLine_ok hj (Operation.executeAll_concat ht ht')
      rw [if_neg (by simp)] at hvs hvt
      exact ⟨_, _, hvs, hvt, .succeeded htop _⟩
  · rw [List.append_assoc, List.cons_append]
    exact ⟨_, _, runOn_straightLine_error hi hs hs' _, runOn_straightLine_error hj ht ht' _, .failed _⟩

/-- A sample word has the same result on the same numbers, under every limit. -/
theorem run_sameNumbers {word : String} {p : Program Stack} (hword : Dictionary.standard.get? word = some p)
    (h : s.SameNumbers t) (limit : Option Nat) :
    ∃ v w, ((mk s limit).run p).2 = some v ∧ ((mk t limit).run p).2 = some w ∧ v.SameResult w := by
  obtain ⟨ops, o, hops, rfl⟩ := exists_straightLine_of_standard hword
  obtain ⟨v, w, hv, hw, hsame⟩ :=
    runOn_sameNumbers (i := startingAt s) (j := startingAt t) rfl rfl hops o h
  cases limit with
  | none => exact ⟨v, w, hv, hw, hsame⟩
  | some l =>
    refine ⟨_, _, runOn_limited s s _ l, runOn_limited t t _ l, ?_⟩
    rw [hv, hw]
    exact hsame.within l

end Interpreter

namespace CommandLine

/-- An argument that is not the name of a boolean counts as the same number whether it is read or taken as a
text, and so the sample words have the same result on arguments that have been read and on the texts
themselves, under every limit. -/
theorem arguments_as_texts :
    (∀ x : String, x ≠ "true" → x ≠ "false" → (readValue x).toNumber? = (Value.str x).toNumber?) ∧
    ∀ texts : List String, "true" ∉ texts → "false" ∉ texts →
      ∀ word p, Dictionary.standard.get? word = some p → ∀ limit : Option Nat,
        ∃ v w, ((Interpreter.mk (.ofList (texts.map readValue)) limit).run p).2 = some v ∧
          ((Interpreter.mk (.ofList (texts.map Value.str)) limit).run p).2 = some w ∧ v.SameResult w := by
  refine ⟨fun x => toNumber?_readValue, fun texts htrue hfalse word p hword limit => ?_⟩
  refine Interpreter.run_sameNumbers hword ?_ limit
  unfold Stack.SameNumbers
  rw [Stack.toList_ofList, Stack.toList_ofList, List.map_map, List.map_map]
  refine List.map_congr_left fun x hx => toNumber?_readValue ?_ ?_
  · rintro rfl
    exact htrue hx
  · rintro rfl
    exact hfalse hx

/-- An argument between blanks, which is a number only as an operand; a sum of three arguments, the last of which
is no number, under a limit; and the name of a boolean, for which the two differ. -/
theorem arguments_as_texts_blank :
    (" 3 " ≠ "true" ∧ " 3 " ≠ "false" ∧ readValue " 3 " = .str " 3 " ∧
      (readValue " 3 ").toNumber? = (Value.str " 3 ").toNumber?) ∧
    ("true" ∉ ["4", "0.5", "x"] ∧ "false" ∉ ["4", "0.5", "x"] ∧
      Dictionary.standard.get? "sum3" = some Words.sum3 ∧
      ∃ v w, ((Interpreter.mk (.ofList (["4", "0.5", "x"].map readValue)) (some 2)).run Words.sum3).2 = some v ∧
        ((Interpreter.mk (.ofList (["4", "0.5", "x"].map Value.str)) (some 2)).run Words.sum3).2 = some w ∧
        v.SameResult w) ∧
    (readValue "true").toNumber? ≠ (Value.str "true").toNumber? := by
  obtain ⟨hnumber, hwords⟩ := arguments_as_texts
  have htrue : "true" ∉ ["4", "0.5", "x"] := by decide
  have hfalse : "false" ∉ ["4", "0.5", "x"] := by decide
  have hword : Dictionary.standard.get? "sum3" = some Words.sum3 := by
    rw [Dictionary.get?_standard]
    rfl
  refine ⟨⟨by decide, by decide, by decide, hnumber _ (by decide) (by decide)⟩, ?_, by decide⟩
  exact ⟨htrue, hfalse, hword, hwords _ htrue hfalse _ _ hword (some 2)⟩

end CommandLine

end StackLang
