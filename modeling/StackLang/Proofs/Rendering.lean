/-
The written form of a stack determines the stack. A literal ends where the comma or the bracket behind it
stands, even if there are commas and brackets in a text, and it determines its value up to the choice of a
NaN; so two stacks with the same written form have the same values at every depth. No control character is
ever in it.
-/
import StackLang.Proofs.Literal

namespace StackLang

/-! ## Literals that are not texts -/

namespace Binary.Double

/-- The doubles that are no numbers. -/
def special : List Double := [.nan, .infinite false, .infinite true]

theorem mem_special {x : Float} (h : ¬ x.isFinite = true) : ofFloat x ∈ special := by
  rw [isFinite_iff] at h
  cases hx : ofFloat x with
  | nan => decide
  | infinite negative => cases negative <;> decide
  | finite negative m q => exact absurd ⟨negative, m, q, hx⟩ h

theorem read?_render_special : ∀ d ∈ special, Number.read? d.render = none := by
  decide

theorem render_special_inj : ∀ d ∈ special, ∀ e ∈ special, d.render = e.render → d = e := by
  decide

theorem render_special_ne_bool : ∀ d ∈ special, ∀ b, d.render ≠ (Value.bool b).literal := by
  decide

end Binary.Double

namespace Value

open Binary

/-- The characters of literals that are not texts. -/
def isWordChar (c : Char) : Bool := c.isAlphanum || c == '.' || c == '-'

theorem isWordChar_of_isDigit {c : Char} (h : c.isDigit = true) : isWordChar c = true := by
  simp [isWordChar, Char.isAlphanum, h]

theorem not_isControl_of_isWordChar {c : Char} (h : isWordChar c = true) : Text.isControl c = false := by
  simp only [isWordChar, Char.isAlphanum, Char.isAlpha, Char.isUpper, Char.isLower, Char.isDigit, Bool.or_eq_true,
    Bool.and_eq_true, decide_eq_true_eq, beq_iff_eq, UInt32.le_iff_toNat_le, ge_iff_le] at h
  change ((((65 ≤ c.toNat ∧ c.toNat ≤ 90) ∨ (97 ≤ c.toNat ∧ c.toNat ≤ 122)) ∨ (48 ≤ c.toNat ∧ c.toNat ≤ 57)) ∨
    c = '.') ∨ c = '-' at h
  rcases h with (h | rfl) | rfl
  · exact Text.not_isControl_of_range (by omega)
  · rfl
  · rfl

theorem isWordChar_of_mem {v : Value} (hv : v.kind ≠ .str) {c : Char} (h : c ∈ v.literal) : isWordChar c = true := by
  have hmarks : Decimal.marks.all isWordChar = true := by decide
  cases v with
  | int n =>
    rcases Text.Numeral.mem_ofInt h with h | rfl
    · exact isWordChar_of_isDigit h
    · rfl
  | bool b =>
    have hbool : ∀ b, (Value.bool b).literal.all isWordChar = true := by decide
    exact List.all_eq_true.1 (hbool b) c h
  | str s => exact absurd rfl hv
  | float x =>
    by_cases hx : x.isFinite = true
    · obtain ⟨negative, m, q, hx⟩ := Double.isFinite_iff.1 hx
      simp only [literal, hx, Double.render, List.mem_append] at h
      rcases h with h | h
      · cases negative with
        | true => rw [List.mem_singleton.1 h]; rfl
        | false => cases h
      · rcases mem_renderMagnitude h with h | h
        · exact isWordChar_of_isDigit h
        · exact List.all_eq_true.1 hmarks c h
    · have hspecial : ∀ d ∈ Double.special, d.render.all isWordChar = true := by decide
      exact List.all_eq_true.1 (hspecial _ (Double.mem_special hx)) c h

theorem exists_of_kind_eq_str {v : Value} (hv : v.kind = .str) : ∃ s, v = .str s := by
  cases v with
  | str s => exact ⟨s, rfl⟩
  | int _ => cases hv
  | float _ => cases hv
  | bool _ => cases hv

/-- A value that is no text is the number that its literal spells, a boolean, or a double that is no number. -/
theorem plain_cases {v : Value} (hv : v.kind ≠ .str) :
    (∃ n, Number.read? v.literal = some n ∧ v = n.toValue) ∨
    (∃ b, v = .bool b) ∨ ∃ x, v = .float x ∧ Double.ofFloat x ∈ Double.special := by
  cases v with
  | int n => exact Or.inl ⟨_, Number.read?_int n, rfl⟩
  | bool b => exact Or.inr (Or.inl ⟨b, rfl⟩)
  | str s => exact absurd rfl hv
  | float x =>
    by_cases hx : x.isFinite = true
    · exact Or.inl ⟨_, Number.read?_float hx, rfl⟩
    · exact Or.inr (Or.inr ⟨x, rfl, Double.mem_special hx⟩)

theorem eq_of_literal_eq {v w : Value} (hv : v.kind ≠ .str) (hw : w.kind ≠ .str) (h : v.literal = w.literal) :
    v = w := by
  have hbool : ∀ b, Number.read? (Value.bool b).literal = none := by decide
  have hbools : ∀ b b', (Value.bool b).literal = (Value.bool b').literal → b = b' := by decide
  -- numbers are told apart from the others and from each other by what their literals spell
  rcases plain_cases hv with ⟨n, hn, rfl⟩ | ⟨b, rfl⟩ | ⟨x, rfl, hx⟩ <;>
    rcases plain_cases hw with ⟨n', hn', rfl⟩ | ⟨b', rfl⟩ | ⟨y, rfl, hy⟩
  · rw [h, hn'] at hn
    rw [Option.some.inj hn]
  · rw [h, hbool] at hn
    cases hn
  · rw [h] at hn
    cases (Double.read?_render_special _ hy).symm.trans hn
  · rw [← h, hbool] at hn'
    cases hn'
  · rw [hbools b b' h]
  · exact absurd h.symm (Double.render_special_ne_bool _ hy b)
  · rw [← h] at hn'
    cases (Double.read?_render_special _ hx).symm.trans hn'
  · exact absurd h (Double.render_special_ne_bool _ hx b')
  · rw [Double.ofFloat_inj (Double.render_special_inj _ hx _ hy h)]

theorem literal_ne_nil (v : Value) : v.literal ≠ [] := by
  cases v with
  | int n => exact Text.Numeral.ofInt_ne_nil n.toInt
  | bool b => cases b <;> exact List.cons_ne_nil _ _
  | str s => exact List.cons_ne_nil _ _
  | float x =>
    by_cases hx : x.isFinite = true
    · obtain ⟨negative, m, q, hx⟩ := Double.isFinite_iff.1 hx
      obtain ⟨c, cs, hcs, -⟩ := renderMagnitude_head m q
      simp [literal, hx, Double.render, hcs]
    · have hspecial : ∀ d ∈ Double.special, d.render ≠ [] := by decide
      exact hspecial _ (Double.mem_special hx)

/-- No literal but a text's starts with a quote. -/
theorem literal_append_ne_encode {v : Value} (hv : v.kind ≠ .str) (cs s t : List Char) :
    v.literal ++ s ≠ Text.Literal.encode cs ++ t := by
  intro h
  obtain ⟨c, ds, hc⟩ := List.exists_cons_of_ne_nil (literal_ne_nil v)
  have hword : isWordChar c = true := isWordChar_of_mem hv (by rw [hc]; exact List.mem_cons_self)
  rw [hc] at h
  rw [(List.cons.inj h).1] at hword
  cases hword

/-- A literal determines its value and ends where something follows that is not part of a literal. -/
theorem literal_append_inj {v w : Value} {s t : List Char} (hs : ∀ c ∈ s.head?, isWordChar c = false)
    (ht : ∀ c ∈ t.head?, isWordChar c = false) (h : v.literal ++ s = w.literal ++ t) : v = w ∧ s = t := by
  by_cases hv : v.kind = .str <;> by_cases hw : w.kind = .str
  · obtain ⟨a, rfl⟩ := exists_of_kind_eq_str hv
    obtain ⟨b, rfl⟩ := exists_of_kind_eq_str hw
    obtain ⟨hab, hst⟩ := Text.Literal.encode_append_inj h
    exact ⟨congrArg Value.str (String.toList_inj.1 hab), hst⟩
  · obtain ⟨a, rfl⟩ := exists_of_kind_eq_str hv
    exact absurd h.symm (literal_append_ne_encode hw _ _ _)
  · obtain ⟨b, rfl⟩ := exists_of_kind_eq_str hw
    exact absurd h (literal_append_ne_encode hv _ _ _)
  · obtain ⟨htake, hdrop⟩ := Decimal.takeWhile_append (fun c hc => isWordChar_of_mem hv hc) hs
    obtain ⟨htake', hdrop'⟩ := Decimal.takeWhile_append (fun c hc => isWordChar_of_mem hw hc) ht
    rw [h] at htake hdrop
    exact ⟨eq_of_literal_eq hv hw (htake.symm.trans htake'), hdrop.symm.trans hdrop'⟩

theorem not_isControl_of_mem_literal {v : Value} {c : Char} (h : c ∈ v.literal) : Text.isControl c = false := by
  by_cases hv : v.kind = .str
  · obtain ⟨s, rfl⟩ := exists_of_kind_eq_str hv
    exact Text.Literal.not_isControl_of_mem_encode h
  · exact not_isControl_of_isWordChar (isWordChar_of_mem hv h)

/-! ## The same values -/

/-- Values of the same kind and content. Two doubles are the same if they have the same bit pattern or are
both NaN. -/
def Same : Value → Value → Prop
  | .int m, .int n => m = n
  | .float x, .float y => x.toBits = y.toBits ∨ (x.isNaN = true ∧ y.isNaN = true)
  | .bool a, .bool b => a = b
  | .str s, .str t => s = t
  | _, _ => False

theorem same_iff {v w : Value} : v.Same w ↔ v = w := by
  cases v <;> cases w <;> simp only [Same, int.injEq, float.injEq, bool.injEq, str.injEq, reduceCtorEq]
  rename_i x y
  constructor
  · rintro (h | ⟨hx, hy⟩)
    · exact Float.toBits_inj.1 h
    · rw [Float.isNaN_eq_decide_eq_nan, decide_eq_true_eq] at hx hy
      rw [hx, hy]
  · rintro rfl
    exact Or.inl rfl

end Value

/-! ## Stacks -/

namespace Stack

/-- What stands behind the first value of a stack: the others, each behind a comma, and the bracket. -/
def closing : List Value → List Char
  | [] => [']']
  | v :: vs => ',' :: ' ' :: (v.literal ++ closing vs)

theorem closing_head (vs : List Value) : ∀ c ∈ (closing vs).head?, Value.isWordChar c = false := by
  cases vs with
  | nil => rintro _ ⟨⟩; rfl
  | cons v vs => rintro _ ⟨⟩; rfl

theorem intersperse_append (v : Value) (vs : List Value) :
    (((v :: vs).map Value.literal).intersperse [',', ' ']).flatten ++ [']'] = v.literal ++ closing vs := by
  induction vs generalizing v with
  | nil => simp [closing]
  | cons w vs ih =>
    have h := ih w
    simp only [List.map_cons, List.intersperse_cons_cons, List.flatten_cons, List.append_assoc, closing] at h ⊢
    rw [h]
    rfl

theorem literal_ofList (vs : List Value) :
    (ofList vs).literal = '[' :: match vs with
      | [] => [']']
      | v :: vs => v.literal ++ closing vs := by
  unfold literal
  rw [toList_ofList, List.cons_append]
  cases vs with
  | nil => rfl
  | cons v vs => rw [intersperse_append]

theorem closing_inj {vs ws : List Value} (h : closing vs = closing ws) : vs = ws := by
  induction vs generalizing ws with
  | nil =>
    cases ws with
    | nil => rfl
    | cons w ws => cases h
  | cons v vs ih =>
    cases ws with
    | nil => cases h
    | cons w ws =>
      have h := (List.cons.inj (List.cons.inj h).2).2
      obtain ⟨rfl, hrest⟩ := Value.literal_append_inj (closing_head vs) (closing_head ws) h
      rw [ih hrest]

/-- A bracket alone is not what a value is written as. -/
theorem bracket_ne_literal_append (v : Value) (vs : List Value) : [']'] ≠ v.literal ++ closing vs := by
  intro h
  have hlength := congrArg List.length h
  have hv := List.length_pos_iff.2 (Value.literal_ne_nil v)
  have hvs : 0 < (closing vs).length := by
    cases vs with
    | nil => exact Nat.zero_lt_succ _
    | cons w vs => exact Nat.zero_lt_succ _
  rw [List.length_append, List.length_singleton] at hlength
  omega

theorem literal_inj {s t : Stack} (h : s.literal = t.literal) : s = t := by
  rw [← ofList_toList s, ← ofList_toList t] at h ⊢
  generalize s.toList = vs at h ⊢
  generalize t.toList = ws at h ⊢
  rw [literal_ofList, literal_ofList] at h
  have h := (List.cons.inj h).2
  cases vs with
  | nil =>
    cases ws with
    | nil => rfl
    | cons w ws => exact absurd h (bracket_ne_literal_append w ws)
  | cons v vs =>
    cases ws with
    | nil => exact absurd h.symm (bracket_ne_literal_append v vs)
    | cons w ws =>
      obtain ⟨rfl, hrest⟩ := Value.literal_append_inj (closing_head vs) (closing_head ws) h
      rw [closing_inj hrest]

theorem not_isControl_of_mem_closing {c : Char} {vs : List Value} (h : c ∈ closing vs) : Text.isControl c = false := by
  induction vs with
  | nil => rw [List.mem_singleton.1 h]; rfl
  | cons v vs ih =>
    simp only [closing, List.mem_cons, List.mem_append] at h
    rcases h with rfl | rfl | h | h
    · rfl
    · rfl
    · exact Value.not_isControl_of_mem_literal h
    · exact ih h

theorem not_isControl_of_mem_literal {c : Char} {s : Stack} (h : c ∈ s.literal) : Text.isControl c = false := by
  rw [← ofList_toList s, literal_ofList, List.mem_cons] at h
  rcases h with rfl | h
  · rfl
  · split at h
    · rw [List.mem_singleton.1 h]; rfl
    · rcases List.mem_append.1 h with h | h
      · exact Value.not_isControl_of_mem_literal h
      · exact not_isControl_of_mem_closing h

/-- Stacks are equal if they have the same size and the same value at every depth. -/
theorem eq_iff_get? {s t : Stack} :
    s = t ↔ s.size = t.size ∧ ∀ depth v w, s.get? depth = some v → t.get? depth = some w → v = w := by
  constructor
  · rintro rfl
    exact ⟨rfl, fun depth v w hv hw => Option.some.inj (hv.symm.trans hw)⟩
  · rintro ⟨hsize, hget⟩
    rw [← ofList_toList s, ← ofList_toList t]
    rw [← length_toList, ← length_toList] at hsize
    simp only [get?_eq] at hget
    refine congrArg ofList (List.ext_getElem hsize fun i hi hi' => ?_)
    exact hget i _ _ (List.getElem?_eq_getElem hi) (List.getElem?_eq_getElem hi')

/-- Two stacks have the same written form exactly if they have the same size and the same values at every
depth, whatever their texts hold; and there is no control character in the written form of a stack. -/
theorem render_unambiguous (s t : Stack) :
    (s.render = t.render ↔
      s.size = t.size ∧ ∀ depth v w, s.get? depth = some v → t.get? depth = some w → v.Same w) ∧
    ∀ c ∈ s.render.toList, Text.isControl c = false := by
  refine ⟨?_, fun c hc => ?_⟩
  · simp only [Value.same_iff, ← eq_iff_get?]
    constructor
    · intro h
      exact literal_inj (String.ofList_injective h)
    · rintro rfl
      rfl
  · rw [render, String.toList_ofList] at hc
    exact not_isControl_of_mem_literal hc

/-- A text may look like two texts, and a text like a number: the written forms still differ. -/
theorem render_unambiguous_separator :
    ((ofList [.str "a\", \"b"]).render ≠ (ofList [.str "a", .str "b"]).render ∧
      (ofList [.str "1"]).render ≠ (ofList [.int 1]).render) ∧
    ']' ∈ (ofList [.str "\n"]).render.toList ∧ Text.isControl ']' = false := by
  refine ⟨⟨fun h => ?_, fun h => ?_⟩, ?_, ?_⟩
  · have hsize := (((render_unambiguous _ _).1).1 h).1
    cases hsize
  · exact (((render_unambiguous _ _).1).1 h).2 0 _ _ rfl rfl
  · simp [render, literal]
  · exact (render_unambiguous (ofList [.str "\n"]) .empty).2 ']' (by simp [render, literal])

end Stack

end StackLang
