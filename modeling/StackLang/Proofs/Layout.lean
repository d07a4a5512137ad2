/-
Decimals read back from their text. In both notations the digits before and after the point are the
digits of the number, with zeros around them that do not count, and the exponent makes up for the place
of the point; so a decimal that is laid out is read as a decimal of the same value. The text starts with
a digit, has nothing in it but digits, a point, an exponent mark and a minus sign, and always has a point or
an exponent mark, by which it differs from every integer.
-/
import StackLang.Decimal
import StackLang.Proofs.Numeral
import StackLang.Proofs.Shortest

namespace StackLang.Decimal

/-! ## Digits -/

theorem ofDigits_eq (cs : List Char) : ofDigits cs = Nat.ofDigitChars 10 cs 0 := by
  rw [Nat.ofDigitChars_eq_foldl]
  simp only [ofDigits, Nat.mul_comm]

theorem ofDigits_append (cs ds : List Char) : ofDigits (cs ++ ds) = 10 ^ ds.length * ofDigits cs + ofDigits ds := by
  simp only [ofDigits_eq, Nat.ofDigitChars_append]
  exact Nat.ofDigitChars_eq_ofDigitChars_zero

theorem ofDigits_zeros (n : Nat) : ofDigits (List.replicate n '0') = 0 := by
  rw [ofDigits_eq, Nat.ofDigitChars_replicate_zero, Nat.mul_zero]

theorem ofDigits_ofNat (n : Nat) : ofDigits (Text.Numeral.ofNat n) = n := by
  rw [ofDigits_eq, Text.Numeral.ofDigitChars_ofNat]

theorem isDigit_of_mem_zeros {n : Nat} {c : Char} (h : c ∈ List.replicate n '0') : c.isDigit = true := by
  rw [List.eq_of_mem_replicate h]
  rfl

/-! ## Reading the parts -/

theorem splitSign_of_isDigit {c : Char} (cs : List Char) (h : c.isDigit = true) :
    splitSign (c :: cs) = (false, c :: cs) := by
  unfold splitSign
  split
  · rename_i heq
    exact absurd (List.cons.inj heq).1 (Text.Numeral.ne_of_isDigit h rfl)
  · rename_i heq
    exact absurd (List.cons.inj heq).1 (Text.Numeral.ne_of_isDigit h rfl)
  · rfl

theorem splitSign_ofInt (e : Int) :
    splitSign (Text.Numeral.ofInt e) = (decide (e < 0), Text.Numeral.ofNat e.natAbs) := by
  unfold Text.Numeral.ofInt
  by_cases he : e < 0
  · rw [if_pos he, decide_eq_true he]
    rfl
  · rw [if_neg he, decide_eq_false he]
    obtain ⟨c, cs, hcs⟩ := List.exists_cons_of_ne_nil (Text.Numeral.ofNat_ne_nil e.natAbs)
    have hc : c ∈ Text.Numeral.ofNat e.natAbs := by rw [hcs]; exact List.mem_cons_self
    rw [hcs]
    exact splitSign_of_isDigit cs (Text.Numeral.isDigit_of_mem_ofNat hc)

theorem readExponent?_ofInt (e : Int) : readExponent? ('e' :: Text.Numeral.ofInt e) = some e := by
  have hdigits : (Text.Numeral.ofNat e.natAbs).all Char.isDigit = true :=
    List.all_eq_true.2 fun c hc => Text.Numeral.isDigit_of_mem_ofNat hc
  simp only [readExponent?, true_or, if_true, splitSign_ofInt, ofDigits_ofNat]
  rw [if_pos ⟨Text.Numeral.ofNat_ne_nil _, hdigits⟩]
  by_cases he : e < 0
  · rw [decide_eq_true he, if_pos rfl]
    congr 1
    omega
  · rw [decide_eq_false he, if_neg Bool.false_ne_true]
    congr 1
    omega

/-- Characters of a kind are taken up to the rest, if the rest starts with none of the kind. -/
theorem takeWhile_append {p : Char → Bool} {cs rest : List Char} (hcs : ∀ c ∈ cs, p c = true)
    (hrest : ∀ c ∈ rest.head?, p c = false) : (cs ++ rest).takeWhile p = cs ∧ (cs ++ rest).dropWhile p = rest := by
  rw [List.takeWhile_append_of_pos hcs, List.dropWhile_append_of_pos hcs]
  cases rest with
  | nil => exact ⟨List.append_nil cs, rfl⟩
  | cons c rest =>
    have hc : ¬ p c = true := by rw [hrest c rfl]; exact Bool.false_ne_true
    rw [List.takeWhile_cons_of_neg hc, List.dropWhile_cons_of_neg hc]
    exact ⟨List.append_nil cs, rfl⟩

section Parts

variable {whole fraction rest : List Char} {e : Int} (hwhole : ∀ c ∈ whole, c.isDigit = true)
include hwhole

theorem readUnsigned?_point (hne : whole ++ fraction ≠ []) (hfraction : ∀ c ∈ fraction, c.isDigit = true)
    (hrest : ∀ c ∈ rest.head?, c.isDigit = false) (he : readExponent? rest = some e) :
    readUnsigned? (whole ++ '.' :: (fraction ++ rest)) = some ⟨ofDigits (whole ++ fraction), e - fraction.length⟩ := by
  have hpoint : ∀ c ∈ ('.' :: (fraction ++ rest)).head?, c.isDigit = false := by rintro _ ⟨⟩; rfl
  obtain ⟨htake, hdrop⟩ := takeWhile_append hwhole hpoint
  obtain ⟨htake', hdrop'⟩ := takeWhile_append hfraction hrest
  simp only [readUnsigned?, htake, hdrop, splitFraction, htake', hdrop', he, Option.map_some]
  rw [if_neg fun h => hne (List.append_eq_nil_iff.2 h)]

theorem readUnsigned?_plain (hne : whole ≠ []) (hrest : ∀ c ∈ rest.head?, c.isDigit = false ∧ c ≠ '.')
    (he : readExponent? rest = some e) : readUnsigned? (whole ++ rest) = some ⟨ofDigits whole, e⟩ := by
  obtain ⟨htake, hdrop⟩ := takeWhile_append hwhole fun c hc => (hrest c hc).1
  have hsplit : splitFraction rest = ([], rest) := by
    unfold splitFraction
    split
    · exact absurd rfl (hrest '.' rfl).2
    · rfl
  simp only [readUnsigned?, htake, hdrop, hsplit, he, Option.map_some]
  rw [if_neg fun h => hne h.1, List.append_nil, List.length_nil, Int.ofNat_zero, Int.sub_zero]

end Parts

/-- A text that is read as a decimal is read as the double nearest to it. -/
theorem readFloat?_of_read? {cs : List Char} {negative : Bool} {d : Decimal} (h : read? cs = some (negative, d)) :
    readFloat? cs = some (d.toFloat negative) := by
  unfold read? at h
  unfold readFloat?
  cases hsplit : splitSign cs with
  | mk sign rest =>
    rw [hsplit] at h
    obtain ⟨d', hd, heq⟩ := Option.map_eq_some_iff.1 h
    cases heq
    simp only [hd]

/-! ## Reading a layout -/

theorem value_mk (coefficient : Nat) (exponent : Int) : value ⟨coefficient, exponent⟩ = coefficient * 10 ^ exponent :=
  rfl

section Layout

variable {digits : List Char} (hne : digits ≠ []) (hdigits : ∀ c ∈ digits, c.isDigit = true)
include hne hdigits

theorem readUnsigned?_positional (point : Int) :
    ∃ d, readUnsigned? (positional digits point) = some d ∧
      d.value = ofDigits digits * 10 ^ (point - digits.length) := by
  have hnil : ∀ c ∈ ([] : List Char).head?, c.isDigit = false := by rintro _ ⟨⟩
  unfold positional
  split
  · -- zeros after the point and before the digits
    have hfraction : ∀ c ∈ List.replicate (-point).toNat '0' ++ digits, c.isDigit = true := by
      intro c hc
      rcases List.mem_append.1 hc with hc | hc
      · exact isDigit_of_mem_zeros hc
      · exact hdigits c hc
    have hzero : ∀ c ∈ ['0'], c.isDigit = true := fun c hc => isDigit_of_mem_zeros (n := 1) hc
    have hread := readUnsigned?_point hzero (List.cons_ne_nil _ _) hfraction hnil rfl
    rw [List.append_nil] at hread
    refine ⟨_, hread, ?_⟩
    have hzeros : ofDigits (['0'] ++ List.replicate (-point).toNat '0') = 0 := ofDigits_zeros ((-point).toNat + 1)
    rw [value_mk, ← List.append_assoc, ofDigits_append, hzeros, Nat.mul_zero, Nat.zero_add, List.length_append,
      List.length_replicate]
    congr 2
    omega
  · rename_i hpos
    split
    · -- zeros after the digits and before the point
      rename_i hle
      have hwhole : ∀ c ∈ digits ++ List.replicate (point.toNat - digits.length) '0', c.isDigit = true := by
        intro c hc
        rcases List.mem_append.1 hc with hc | hc
        · exact hdigits c hc
        · exact isDigit_of_mem_zeros hc
      have hzero : ∀ c ∈ ['0'], c.isDigit = true := fun c hc => isDigit_of_mem_zeros (n := 1) hc
      have hread := readUnsigned?_point hwhole (by simp [hne]) hzero hnil rfl
      rw [List.append_nil] at hread
      refine ⟨_, hread, ?_⟩
      have hexp : point - digits.length = ((point.toNat - digits.length : Nat) : Int) := by omega
      rw [value_mk, ofDigits_append, ofDigits_append, ofDigits_zeros, hexp, zpow_natCast]
      simp only [List.length_replicate, List.length_singleton]
      have hone : ofDigits ['0'] = 0 := rfl
      rw [hone]
      push_cast
      norm_num
      ring
    · -- the point stands between the digits
      rename_i hlt
      have hwhole : ∀ c ∈ digits.take point.toNat, c.isDigit = true :=
        fun c hc => hdigits c (List.mem_of_mem_take hc)
      have hfraction : ∀ c ∈ digits.drop point.toNat, c.isDigit = true :=
        fun c hc => hdigits c (List.mem_of_mem_drop hc)
      have hread := readUnsigned?_point hwhole (by rwa [List.take_append_drop]) hfraction hnil rfl
      rw [List.append_nil] at hread
      refine ⟨_, hread, ?_⟩
      rw [value_mk, List.take_append_drop, List.length_drop]
      congr 2
      omega

theorem readUnsigned?_scientific (exponent : Int) :
    ∃ d, readUnsigned? (scientific digits exponent) = some d ∧
      d.value = ofDigits digits * 10 ^ (exponent + 1 - digits.length) := by
  have hmark : ∀ c ∈ ('e' :: Text.Numeral.ofInt exponent).head?, c.isDigit = false ∧ c ≠ '.' := by
    rintro _ ⟨⟩
    exact ⟨rfl, by decide⟩
  match digits with
  | [] => exact absurd rfl hne
  | [d] =>
    have hread := readUnsigned?_plain hdigits hne hmark (readExponent?_ofInt exponent)
    refine ⟨_, hread, ?_⟩
    rw [value_mk, List.length_singleton]
    congr 2
    omega
  | d :: d' :: ds =>
    have hfraction : ∀ c ∈ d' :: ds, c.isDigit = true := fun c hc => hdigits c (List.mem_cons_of_mem d hc)
    have hwhole : ∀ c ∈ [d], c.isDigit = true := by
      intro c hc
      rw [List.mem_singleton.1 hc]
      exact hdigits d List.mem_cons_self
    have hread := readUnsigned?_point hwhole (List.cons_ne_nil _ _) hfraction (fun c hc => (hmark c hc).1)
      (readExponent?_ofInt exponent)
    refine ⟨_, hread, ?_⟩
    rw [value_mk, List.singleton_append, List.length_cons]
    congr 2
    simp only [List.length_cons]
    omega

end Layout

theorem render_cases (layout : Layout) (d : Decimal) :
    let digits := Text.Numeral.ofNat d.coefficient
    d.render layout = positional digits (digits.length + d.exponent) ∨
      d.render layout = scientific digits (digits.length + d.exponent - 1) := by
  unfold render
  dsimp only
  split
  · exact Or.inl rfl
  · exact Or.inr rfl

/-- A decimal that is laid out is read as a decimal of the same value. -/
theorem readUnsigned?_render (layout : Layout) (d : Decimal) :
    ∃ e, readUnsigned? (d.render layout) = some e ∧ e.value = d.value := by
  have hne := Text.Numeral.ofNat_ne_nil d.coefficient
  have hdigits := fun c => Text.Numeral.isDigit_of_mem_ofNat (c := c) (n := d.coefficient)
  rcases render_cases layout d with h | h
  · obtain ⟨e, he, hv⟩ := readUnsigned?_positional hne hdigits ((Text.Numeral.ofNat d.coefficient).length + d.exponent)
    refine ⟨e, h ▸ he, ?_⟩
    rw [hv, ofDigits_ofNat, value]
    congr 2
    omega
  · obtain ⟨e, he, hv⟩ :=
      readUnsigned?_scientific hne hdigits ((Text.Numeral.ofNat d.coefficient).length + d.exponent - 1)
    refine ⟨e, h ▸ he, ?_⟩
    rw [hv, ofDigits_ofNat, value]
    congr 2
    omega

/-! ## The characters of a layout -/

/-- The marks that stand among the digits of a decimal. -/
def marks : List Char := ['.', 'e', '-']

section Characters

variable {digits : List Char} (hne : digits ≠ []) (hdigits : ∀ c ∈ digits, c.isDigit = true)
include hne hdigits

theorem positional_head (point : Int) : ∃ c cs, positional digits point = c :: cs ∧ c.isDigit = true := by
  obtain ⟨d, ds, rfl⟩ := List.exists_cons_of_ne_nil hne
  have hd : d.isDigit = true := hdigits d List.mem_cons_self
  unfold positional
  split
  · exact ⟨'0', _, rfl, rfl⟩
  · split
    · exact ⟨d, _, rfl, hd⟩
    · obtain ⟨n, hn⟩ : ∃ n, point.toNat = n + 1 := ⟨point.toNat - 1, by omega⟩
      rw [hn]
      exact ⟨d, _, rfl, hd⟩

theorem scientific_head (exponent : Int) : ∃ c cs, scientific digits exponent = c :: cs ∧ c.isDigit = true := by
  match digits with
  | [] => exact absurd rfl hne
  | [d] => exact ⟨d, _, rfl, hdigits d List.mem_cons_self⟩
  | d :: _ :: _ => exact ⟨d, _, rfl, hdigits d List.mem_cons_self⟩

omit hne

theorem mem_positional {point : Int} {c : Char} (h : c ∈ positional digits point) : c.isDigit = true ∨ c ∈ marks := by
  have hzeros : ∀ n, c ∈ List.replicate n '0' → c.isDigit = true := fun n h => isDigit_of_mem_zeros h
  unfold positional at h
  split at h
  · simp only [List.mem_cons, List.mem_append] at h
    rcases h with rfl | rfl | h | h
    · exact Or.inl rfl
    · exact Or.inr (by decide)
    · exact Or.inl (hzeros _ h)
    · exact Or.inl (hdigits c h)
  · split at h
    · simp only [List.mem_cons, List.mem_append, List.not_mem_nil, or_false] at h
      rcases h with (h | h) | rfl | rfl
      · exact Or.inl (hdigits c h)
      · exact Or.inl (hzeros _ h)
      · exact Or.inr (by decide)
      · exact Or.inl rfl
    · simp only [List.mem_cons, List.mem_append] at h
      rcases h with h | rfl | h
      · exact Or.inl (hdigits c (List.mem_of_mem_take h))
      · exact Or.inr (by decide)
      · exact Or.inl (hdigits c (List.mem_of_mem_drop h))

theorem mem_scientific {exponent : Int} {c : Char} (h : c ∈ scientific digits exponent) :
    c.isDigit = true ∨ c ∈ marks := by
  have hint : c ∈ Text.Numeral.ofInt exponent → c.isDigit = true ∨ c ∈ marks := by
    intro h
    rcases Text.Numeral.mem_ofInt h with h | rfl
    · exact Or.inl h
    · exact Or.inr (by decide)
  match digits with
  | [] => cases h
  | [d] =>
    rcases List.mem_cons.1 h with rfl | h
    · exact Or.inl (hdigits c List.mem_cons_self)
    · rcases List.mem_cons.1 h with rfl | h
      · exact Or.inr (by decide)
      · exact hint h
  | d :: d' :: ds =>
    rcases List.mem_cons.1 h with rfl | h
    · exact Or.inl (hdigits c List.mem_cons_self)
    · rcases List.mem_cons.1 h with rfl | h
      · exact Or.inr (by decide)
      · rcases List.mem_append.1 h with h | h
        · exact Or.inl (hdigits c (List.mem_cons_of_mem d h))
        · rcases List.mem_cons.1 h with rfl | h
          · exact Or.inr (by decide)
          · exact hint h

end Characters

theorem point_mem_positional (digits : List Char) (point : Int) : '.' ∈ positional digits point := by
  unfold positional
  split
  · simp
  · split
    · simp
    · simp

theorem mark_mem_scientific {digits : List Char} (hne : digits ≠ []) (exponent : Int) :
    'e' ∈ scientific digits exponent := by
  match digits with
  | [] => exact absurd rfl hne
  | [d] => simp [scientific]
  | d :: _ :: _ => simp [scientific]

section Render

variable (layout : Layout) (d : Decimal)

theorem render_head : ∃ c cs, d.render layout = c :: cs ∧ c.isDigit = true := by
  have hne := Text.Numeral.ofNat_ne_nil d.coefficient
  rcases render_cases layout d with h | h
  · rw [h]
    exact positional_head hne (fun _ => Text.Numeral.isDigit_of_mem_ofNat) _
  · rw [h]
    exact scientific_head hne (fun _ => Text.Numeral.isDigit_of_mem_ofNat) _

theorem mem_render {c : Char} (hc : c ∈ d.render layout) : c.isDigit = true ∨ c ∈ marks := by
  rcases render_cases layout d with h | h
  · rw [h] at hc
    exact mem_positional (fun _ => Text.Numeral.isDigit_of_mem_ofNat) hc
  · rw [h] at hc
    exact mem_scientific (fun _ => Text.Numeral.isDigit_of_mem_ofNat) hc

theorem mark_mem_render : ∃ c ∈ d.render layout, c = '.' ∨ c = 'e' := by
  rcases render_cases layout d with h | h
  · rw [h]
    exact ⟨'.', point_mem_positional _ _, Or.inl rfl⟩
  · rw [h]
    exact ⟨'e', mark_mem_scientific (Text.Numeral.ofNat_ne_nil _) _, Or.inr rfl⟩

end Render

end StackLang.Decimal
