/-
The numbers that texts stand for. Between its blanks a text has to spell an integer of 64 bits, or else a decimal
below the point where doubles overflow, which is then rounded to the nearest double; no other text is a
number. Larger decimals and the words for infinities and for NaN are read as doubles too, but these are not
finite, and that is why they are refused.
-/
import StackLang.Proofs.Grammar
import StackLang.Proofs.Nearest
import StackLang.Value.Number

namespace StackLang

/-! ## The double of a decimal -/

namespace Decimal

open Binary

variable {d : Decimal} {cs : List Char}

theorem value_nonneg (d : Decimal) : 0 ≤ d.value := by
  unfold value
  positivity

theorem isFinite_infinity (negative : Bool) : (infinity negative).isFinite = false := by
  cases negative with
  | false => decide
  | true => decide

theorem isFinite_nan (negative : Bool) : (nan negative).isFinite = false := by
  cases negative with
  | false => decide
  | true => decide

/-- Decimals from the middle between the largest double and the next power of two on are read as infinity. -/
theorem toFloat_of_ge (h : (2 : ℚ) ^ 1024 - 2 ^ 970 ≤ d.value) (negative : Bool) :
    d.toFloat negative = infinity negative := by
  have hone : (1 : ℚ) ≤ d.value := by
    refine le_trans ?_ (le_overflow.trans h)
    exact one_le_zpow₀ (by norm_num) (by norm_num)
  unfold toFloat
  split
  · rename_i h0
    rw [value, h0, Nat.cast_zero, zero_mul] at hone
    norm_num at hone
  · split
    · have hpow : (2 : ℚ) ^ 1024 - 2 ^ 970 ≤ ((pow2 1024 : Nat) : ℚ) / (1 : Nat) := by
        rw [Nat.cast_one, div_one, pow2_eq, Nat.cast_pow, Nat.cast_ofNat]
        exact overflow_lt.le
      rw [ofRatio, magnitudeBits_of_ge Nat.one_pos hpow, infinity]
    · split
      · rename_i hle
        have hsmall : d.value < 1 := by
          refine (value_lt d).trans_le ?_
          exact zpow_le_one_of_nonpos₀ (by norm_num) (by omega)
        exact absurd hone hsmall.not_ge
      · have hden : 0 < pow10 (-d.exponent).toNat := Nat.pow_pos (by norm_num)
        rw [ofRatio, magnitudeBits_of_ge hden (by rw [ratio_eq_value]; exact h), infinity]

/-- A decimal that is not too large is rounded. -/
theorem isRounding_toFloat (h : d.value < 2 ^ 1024 - 2 ^ 970) (negative : Bool) :
    IsRounding (d.toFloat negative) negative d.value := by
  obtain ⟨m, q, hc, hmem⟩ := exists_mem_around d.value_nonneg h
  rw [toFloat_of_mem hc hmem]
  exact isRounding_of_mem hc d.value_nonneg hmem negative

theorem isFinite_toFloat_iff (d : Decimal) (negative : Bool) :
    (d.toFloat negative).isFinite = true ↔ d.value < 2 ^ 1024 - 2 ^ 970 := by
  constructor
  · intro h
    by_contra hge
    rw [toFloat_of_ge (not_lt.1 hge), isFinite_infinity] at h
    cases h
  · intro h
    exact (isRounding_toFloat h negative).isFinite

/-- The words are those of doubles that are not finite. -/
theorem isFinite_of_ofWord? {negative : Bool} {x : Float} (h : ofWord? negative cs = some x) : x.isFinite = false := by
  unfold ofWord? at h
  dsimp only at h
  split at h
  · cases h
    exact isFinite_infinity negative
  · split at h
    · cases h
      exact isFinite_nan negative
    · cases h

/-- What is read as a finite double is a decimal. -/
theorem exists_read?_of_readFinite? {x : Float} (h : readFinite? cs = some x) :
    ∃ negative d, read? cs = some (negative, d) ∧ d.toFloat negative = x ∧ x.isFinite = true := by
  obtain ⟨hread, hfinite⟩ := Option.filter_eq_some_iff.1 h
  unfold readFloat? at hread
  cases hsplit : splitSign cs with
  | mk negative rest =>
    simp only [hsplit] at hread
    split at hread
    · rename_i d hd
      refine ⟨negative, d, ?_, Option.some.inj hread, hfinite⟩
      rw [read?_of_splitSign hsplit, hd, Option.map_some]
    · -- a word, but its double is not finite
      rw [isFinite_of_ofWord? hread] at hfinite
      cases hfinite

/-- The texts of decimals that are not too large for a double. -/
def IsBounded (cs : List Char) : Prop := ∃ negative r, Spells cs negative r ∧ r < 2 ^ 1024 - 2 ^ 970

/-- Finite doubles are read from the texts of decimals that are not too large, rounded to the nearest. -/
theorem readFinite?_eq_some_iff {x : Float} :
    readFinite? cs = some x ↔
      ∃ negative r, Spells cs negative r ∧ r < 2 ^ 1024 - 2 ^ 970 ∧ IsRounding x negative r := by
  constructor
  · intro h
    obtain ⟨negative, d, hd, rfl, hfinite⟩ := exists_read?_of_readFinite? h
    have hlt := (isFinite_toFloat_iff d negative).1 hfinite
    exact ⟨negative, d.value, spells_iff.2 ⟨d, hd, rfl⟩, hlt, isRounding_toFloat hlt negative⟩
  · rintro ⟨negative, r, hspells, hlt, hrounding⟩
    obtain ⟨d, hd, rfl⟩ := spells_iff.1 hspells
    have hx := (isRounding_toFloat hlt negative).unique hrounding
    rw [readFinite?, readFloat?_of_read? hd, Option.filter_some, if_pos ((isFinite_toFloat_iff d negative).2 hlt), hx]

theorem exists_readFinite?_iff : (∃ x, readFinite? cs = some x) ↔ IsBounded cs := by
  constructor
  · rintro ⟨x, hx⟩
    obtain ⟨negative, r, hspells, hlt, -⟩ := readFinite?_eq_some_iff.1 hx
    exact ⟨negative, r, hspells, hlt⟩
  · rintro ⟨negative, r, hspells, hlt⟩
    obtain ⟨d, hd, rfl⟩ := spells_iff.1 hspells
    exact ⟨_, readFinite?_eq_some_iff.2 ⟨negative, _, hspells, hlt, isRounding_toFloat hlt negative⟩⟩

end Decimal

/-! ## Numbers -/

/-- The texts of integers of 64 bits. -/
def Text.Numeral.IsWord (cs : List Char) : Prop := ∃ z, Spells cs z ∧ -2 ^ 63 ≤ z ∧ z < 2 ^ 63

theorem Text.Numeral.isWord_iff {cs : List Char} : IsWord cs ↔ ∃ n : Int64, readInt64 cs = .ok n := by
  constructor
  · rintro ⟨z, hz, hlow, hhigh⟩
    refine ⟨Int64.ofInt z, readInt64_eq_ok_iff.2 ?_⟩
    rwa [Int64.toInt_ofInt_of_le hlow hhigh]
  · rintro ⟨n, hn⟩
    exact ⟨n.toInt, readInt64_eq_ok_iff.1 hn, n.le_toInt, n.toInt_lt⟩

namespace Number

open Text.Numeral (IsWord)
open Decimal (IsBounded)

variable {cs : List Char}

theorem read?_eq_int_iff {n : Int64} : read? cs = some (.int n) ↔ Text.Numeral.Spells cs n.toInt := by
  rw [← Text.Numeral.readInt64_eq_ok_iff]
  unfold read?
  cases Text.Numeral.readInt64 cs with
  | ok k => simp
  | error fault => simp

theorem read?_of_not_isWord (h : ¬ IsWord cs) : read? cs = (Decimal.readFinite? cs).map .float := by
  rw [Text.Numeral.isWord_iff] at h
  unfold read?
  cases hcs : Text.Numeral.readInt64 cs with
  | ok n => exact absurd ⟨n, hcs⟩ h
  | error fault => rfl

theorem exists_read?_of_isWord (h : IsWord cs) : ∃ n, read? cs = some (.int n) := by
  obtain ⟨n, hn⟩ := Text.Numeral.isWord_iff.1 h
  exact ⟨n, read?_eq_int_iff.2 (Text.Numeral.readInt64_eq_ok_iff.1 hn)⟩

theorem read?_eq_float_iff {x : Float} :
    read? cs = some (.float x) ↔
      ¬ IsWord cs ∧ ∃ negative r, Decimal.Spells cs negative r ∧ r < 2 ^ 1024 - 2 ^ 970 ∧
        Binary.IsRounding x negative r := by
  rw [← Decimal.readFinite?_eq_some_iff]
  by_cases hcs : IsWord cs
  · obtain ⟨n, hn⟩ := exists_read?_of_isWord hcs
    simp [hn, hcs]
  · rw [read?_of_not_isWord hcs]
    simp [hcs]

theorem exists_read?_float_iff : (∃ x, read? cs = some (.float x)) ↔ ¬ IsWord cs ∧ IsBounded cs := by
  rw [← Decimal.exists_readFinite?_iff]
  simp only [read?_eq_float_iff, ← Decimal.readFinite?_eq_some_iff, exists_and_left]

theorem read?_eq_none_iff : read? cs = none ↔ ¬ IsWord cs ∧ ¬ IsBounded cs := by
  by_cases hcs : IsWord cs
  · obtain ⟨n, hn⟩ := exists_read?_of_isWord hcs
    simp [hn, hcs]
  · rw [read?_of_not_isWord hcs, ← Decimal.exists_readFinite?_iff, Option.map_eq_none_iff, Option.eq_none_iff_forall_ne_some]
    simp [hcs]

/-- What is read as a number is the text of a decimal, be it that of an integer. -/
theorem exists_spells_of_read? {x : Number} (h : read? cs = some x) : ∃ negative r, Decimal.Spells cs negative r := by
  cases x with
  | int n =>
    obtain ⟨negative, hspells⟩ := Decimal.spells_of_numeral (read?_eq_int_iff.1 h)
    exact ⟨negative, _, hspells⟩
  | float x =>
    obtain ⟨-, negative, r, hspells, -⟩ := read?_eq_float_iff.1 h
    exact ⟨negative, r, hspells⟩

theorem read?_of_not_spells (h : ∀ negative r, ¬ Decimal.Spells cs negative r) : read? cs = none := by
  by_contra hne
  obtain ⟨x, hx⟩ := Option.ne_none_iff_exists'.1 hne
  obtain ⟨negative, r, hspells⟩ := exists_spells_of_read? hx
  exact h negative r hspells

/-- A text with any other character than those of numbers is no number. -/
theorem read?_of_mem {c : Char} (hc : c ∈ cs) (hdigit : c.isDigit = false) (hpunctuation : c ∉ Decimal.punctuation) :
    read? cs = none := by
  refine read?_of_not_spells fun negative r hspells => ?_
  rcases hspells.characters c hc with h | h
  · rw [hdigit] at h
    cases h
  · exact hpunctuation h

/-- The text of an integer of 64 bits is the text of a decimal that is not too large. -/
theorem isBounded_of_numeral {z : Int} (h : Text.Numeral.Spells cs z) (hz : (z.natAbs : ℚ) < 2 ^ 1024 - 2 ^ 970) :
    IsBounded cs := by
  obtain ⟨negative, hspells⟩ := Decimal.spells_of_numeral h
  exact ⟨negative, _, hspells, hz⟩

theorem isBounded_of_isWord (h : IsWord cs) : IsBounded cs := by
  obtain ⟨z, hspells, hlow, hhigh⟩ := h
  refine isBounded_of_numeral hspells (lt_of_lt_of_le ?_ Binary.le_overflow)
  have hz : z.natAbs < 2 ^ 64 := by omega
  have hword : (z.natAbs : ℚ) < 2 ^ (64 : Int) := by exact_mod_cast hz
  exact hword.trans (two_zpow_lt_iff.2 (by norm_num))

/-- A text that is read as a double is no number if the double is not finite. -/
theorem read?_of_not_isFinite {x : Float} (hword : ¬ IsWord cs) (h : Decimal.readFloat? cs = some x)
    (hx : x.isFinite = false) : read? cs = none := by
  rw [read?_of_not_isWord hword, Decimal.readFinite?, h, Option.filter_some, hx]
  rfl

/-- A decimal that is too large is read as an infinity, so it is no number. -/
theorem read?_of_ge {negative : Bool} {r : ℚ} (h : Decimal.Spells cs negative r) (hr : 2 ^ 1024 - 2 ^ 970 ≤ r) :
    Decimal.readFloat? cs = some (Binary.infinity negative) ∧ read? cs = none := by
  have hword : ¬ IsWord cs := by
    intro hword
    obtain ⟨negative', r', h', hlt⟩ := isBounded_of_isWord hword
    obtain ⟨-, rfl⟩ := h.unique h'
    exact hlt.not_ge hr
  obtain ⟨d, hd, rfl⟩ := Decimal.spells_iff.1 h
  have hinfinite : Decimal.readFloat? cs = some (Binary.infinity negative) := by
    rw [Decimal.readFloat?_of_read? hd, Decimal.toFloat_of_ge hr]
  exact ⟨hinfinite, read?_of_not_isFinite hword hinfinite (Decimal.isFinite_infinity negative)⟩

end Number

/-! ## Blanks -/

namespace Text

variable {before cs after : List Char}

theorem trimEnd_append (hafter : ∀ c ∈ after, isBlank c = true) (cs : List Char) : trimEnd (cs ++ after) = trimEnd cs := by
  unfold trimEnd
  rw [List.reverse_append, List.dropWhile_append_of_pos fun c hc => hafter c (List.mem_reverse.1 hc)]

/-- Blanks at either end do not count. -/
theorem trim_append (hbefore : ∀ c ∈ before, isBlank c = true) (hafter : ∀ c ∈ after, isBlank c = true)
    (cs : List Char) : trim (before ++ (cs ++ after)) = trim cs := by
  unfold trim trimStart
  rw [List.dropWhile_append_of_pos hbefore, List.dropWhile_append]
  split
  · -- there is nothing but blanks
    rename_i hblank
    rw [List.isEmpty_iff.1 hblank, List.dropWhile_eq_nil_iff.2 hafter]
  · exact trimEnd_append hafter _

theorem trim_eq_self (h : ∀ c ∈ cs, isBlank c = false) : trim cs = cs := by
  have hdrop : ∀ ds : List Char, (∀ c ∈ ds, isBlank c = false) → ds.dropWhile isBlank = ds := by
    intro ds hds
    cases ds with
    | nil => rfl
    | cons c ds => exact List.dropWhile_cons_of_neg (by rw [hds c List.mem_cons_self]; exact Bool.false_ne_true)
  unfold trim trimStart trimEnd
  rw [hdrop cs h, hdrop _ fun c hc => h c (List.mem_reverse.1 hc), List.reverse_reverse]

theorem mem_dropWhile {c : Char} (hc : c ∈ cs) (hblank : isBlank c = false) : c ∈ cs.dropWhile isBlank := by
  have hsplit : c ∈ cs.takeWhile isBlank ∨ c ∈ cs.dropWhile isBlank := by
    rwa [← List.mem_append, List.takeWhile_append_dropWhile]
  refine hsplit.resolve_left fun htake => ?_
  rw [List.mem_takeWhile_imp htake] at hblank
  cases hblank

/-- Trimming removes nothing but blanks. -/
theorem mem_trim {c : Char} (hc : c ∈ cs) (hblank : isBlank c = false) : c ∈ trim cs := by
  have hstart : c ∈ trimStart cs := mem_dropWhile hc hblank
  exact List.mem_reverse.2 (mem_dropWhile (List.mem_reverse.2 hstart) hblank)

theorem toNat_of_isDigit {c : Char} (h : c.isDigit = true) : 48 ≤ c.toNat ∧ c.toNat ≤ 57 :=
  Char.isDigit_iff_toNat.1 h

theorem not_isBlank_of_isDigit {c : Char} (h : c.isDigit = true) : isBlank c = false := by
  have hrange := toNat_of_isDigit h
  simp [isBlank]
  omega

end Text

/-- There are no blanks in the text of a number. -/
theorem Number.trim_of_read? {cs : List Char} {x : Number} (h : read? cs = some x) : Text.trim cs = cs := by
  have hpunctuation : Decimal.punctuation.all (!Text.isBlank ·) = true := by decide
  obtain ⟨negative, r, hspells⟩ := exists_spells_of_read? h
  refine Text.trim_eq_self fun c hc => ?_
  rcases hspells.characters c hc with hdigit | hmem
  · exact Text.not_isBlank_of_isDigit hdigit
  · simpa using List.all_eq_true.1 hpunctuation c hmem

/-! ## The words for infinities and NaN -/

namespace Text

/-- The words for infinities and for NaN. -/
def specialWords : List (List Char) :=
  [['i', 'n', 'f'], ['i', 'n', 'f', 'i', 'n', 'i', 't', 'y'], ['n', 'a', 'n']]

theorem toLower_of_isDigit {c : Char} (h : c.isDigit = true) : c.toLower = c := by
  have hrange := toNat_of_isDigit h
  apply Char.toLower_eq_of_not_isUpper
  simp only [Char.isUpper, decide_eq_true_eq, UInt32.le_iff_toNat_le, ge_iff_le]
  change ¬ (65 ≤ c.toNat ∧ c.toNat ≤ 90)
  omega

variable {word : List Char} (h : word.map Char.toLower ∈ specialWords)
include h

theorem isAlpha_of_mem_specialWord {c : Char} (hc : c ∈ word) (hlower : c.toLower = c) : c.isAlpha = true := by
  have hletters : specialWords.all (·.all Char.isAlpha) = true := by decide
  exact List.all_eq_true.1 (List.all_eq_true.1 hletters _ h) c (List.mem_map.2 ⟨c, hc, hlower⟩)

theorem not_isDigit_of_mem_specialWord : ∀ c ∈ word, c.isDigit = false := by
  intro c hc
  by_contra hdigit
  rw [Bool.not_eq_false] at hdigit
  have halpha := isAlpha_of_mem_specialWord h hc (toLower_of_isDigit hdigit)
  have hrange := toNat_of_isDigit hdigit
  simp only [Char.isAlpha, Char.isUpper, Char.isLower, Bool.or_eq_true, Bool.and_eq_true, decide_eq_true_eq,
    UInt32.le_iff_toNat_le, ge_iff_le] at halpha
  change (65 ≤ c.toNat ∧ c.toNat ≤ 90) ∨ (97 ≤ c.toNat ∧ c.toNat ≤ 122) at halpha
  omega

theorem not_sign_of_mem_specialWord : ∀ c ∈ word, c ≠ '-' ∧ c ≠ '+' := by
  intro c hc
  constructor
  · rintro rfl
    cases isAlpha_of_mem_specialWord h hc rfl
  · rintro rfl
    cases isAlpha_of_mem_specialWord h hc rfl

end Text

namespace Decimal

variable {word : List Char} (h : word.map Char.toLower ∈ Text.specialWords)
include h

theorem readUnsigned?_specialWord : readUnsigned? word = none := by
  rw [Option.eq_none_iff_forall_ne_some]
  intro d hd
  have hsplit : splitSign word = (false, word) :=
    splitSign_text .absent fun c hc => Text.not_sign_of_mem_specialWord h c (List.mem_of_mem_head? hc)
  have hread : read? word = some (false, d) := by rw [read?_of_splitSign hsplit, hd, Option.map_some]
  obtain ⟨c, hc, hdigit⟩ := (spells_iff.2 ⟨d, hread, rfl⟩).exists_isDigit
  rw [Text.not_isDigit_of_mem_specialWord h c hc] at hdigit
  cases hdigit

theorem exists_ofWord? (negative : Bool) : ∃ x, ofWord? negative word = some x := by
  simp only [Text.specialWords, List.mem_cons, List.not_mem_nil, or_false] at h
  rcases h with h | h | h
  · exact ⟨Binary.infinity negative, by simp [ofWord?, h]⟩
  · exact ⟨Binary.infinity negative, by simp [ofWord?, h]⟩
  · exact ⟨Binary.nan negative, by simp [ofWord?, h]⟩

/-- The words are read, in capitals or not and with a sign or without, but their doubles are not finite. -/
theorem readFloat?_specialWord (sign : Text.Sign) :
    ∃ x, readFloat? (sign.text ++ word) = some x ∧ x.isFinite = false := by
  have hsplit : splitSign (sign.text ++ word) = (sign.isMinus, word) :=
    splitSign_text sign fun c hc => Text.not_sign_of_mem_specialWord h c (List.mem_of_mem_head? hc)
  obtain ⟨x, hx⟩ := exists_ofWord? h sign.isMinus
  refine ⟨x, ?_, isFinite_of_ofWord? hx⟩
  simp only [readFloat?, hsplit, readUnsigned?_specialWord h, hx]

end Decimal

/-- So the words are no numbers. -/
theorem Number.read?_specialWord {word : List Char} (h : word.map Char.toLower ∈ Text.specialWords) (sign : Text.Sign) :
    read? (sign.text ++ word) = none := by
  obtain ⟨x, hx, hfinite⟩ := Decimal.readFloat?_specialWord h sign
  refine read?_of_not_isFinite ?_ hx hfinite
  rintro ⟨z, hz, -⟩
  obtain ⟨negative, hspells⟩ := Decimal.spells_of_numeral hz
  obtain ⟨c, hc, hdigit⟩ := hspells.exists_isDigit
  rcases List.mem_append.1 hc with hc | hc
  · rcases Text.Sign.mem_text hc with rfl | rfl
    · cases hdigit
    · cases hdigit
  · rw [Text.not_isDigit_of_mem_specialWord h c hc] at hdigit
    cases hdigit

/-! ## Texts as numbers -/

/-- What a text with no blanks around it is read as. It is an integer exactly if it spells one of 64 bits, and a
double exactly if it spells no such integer but a decimal that is not too large: then the double is finite, and
it is the one to which the decimal is rounded. Otherwise it is no number. So larger integers are doubles
as long as they are not too large. Decimals that are too large and the words for infinities and NaN, in capitals
or not and with a sign or without, are read as doubles that are not finite, and are no numbers. -/
structure Number.ReadsAs (u : List Char) (number : Option Number) : Prop where
  int : ∀ z : Int, (∃ n : Int64, number = some (.int n) ∧ n.toInt = z) ↔
    Text.Numeral.Spells u z ∧ -2 ^ 63 ≤ z ∧ z < 2 ^ 63
  float : ∀ f, number = some (.float f) ↔ ¬ Text.Numeral.IsWord u ∧
    ∃ negative r, Decimal.Spells u negative r ∧ r < 2 ^ 1024 - 2 ^ 970 ∧ Binary.IsRounding f negative r
  exists_float : (∃ f, number = some (.float f)) ↔ ¬ Text.Numeral.IsWord u ∧ Decimal.IsBounded u
  finite : ∀ f, number = some (.float f) → f.isFinite = true
  refused : number = none ↔ ¬ Text.Numeral.IsWord u ∧ ¬ Decimal.IsBounded u
  large : ∀ z, Text.Numeral.Spells u z → z < -2 ^ 63 ∨ 2 ^ 63 ≤ z → (z.natAbs : ℚ) < 2 ^ 1024 - 2 ^ 970 →
    ∃ f, number = some (.float f) ∧ f.isFinite = true
  overflow : ∀ negative r, Decimal.Spells u negative r → 2 ^ 1024 - 2 ^ 970 ≤ r →
    (∃ x, Decimal.readFloat? u = some x ∧ x.isFinite = false) ∧ number = none
  special : ∀ (sign : Text.Sign) (word : List Char), word.map Char.toLower ∈ Text.specialWords →
    u = sign.text ++ word → (∃ x, Decimal.readFloat? u = some x ∧ x.isFinite = false) ∧ number = none

theorem Number.isFinite_of_read? {u : List Char} {f : Float} (h : read? u = some (.float f)) : f.isFinite = true := by
  obtain ⟨-, negative, r, -, -, hrounding⟩ := read?_eq_float_iff.1 h
  exact hrounding.isFinite

theorem Number.readsAs_read? (u : List Char) : ReadsAs u (read? u) where
  int z := by
    constructor
    · rintro ⟨n, hn, rfl⟩
      exact ⟨read?_eq_int_iff.1 hn, n.le_toInt, n.toInt_lt⟩
    · rintro ⟨hz, hlow, hhigh⟩
      have hn := Int64.toInt_ofInt_of_le hlow hhigh
      exact ⟨Int64.ofInt z, read?_eq_int_iff.2 (by rwa [hn]), hn⟩
  float f := read?_eq_float_iff
  exists_float := exists_read?_float_iff
  finite f := isFinite_of_read?
  refused := read?_eq_none_iff
  large z hz hout hlt := by
    have hword : ¬ Text.Numeral.IsWord u := by
      rintro ⟨z', hz', hlow, hhigh⟩
      have := Decimal.numeral_unique hz hz'
      omega
    obtain ⟨f, hf⟩ := exists_read?_float_iff.2 ⟨hword, isBounded_of_numeral hz hlt⟩
    exact ⟨f, hf, isFinite_of_read? hf⟩
  overflow negative r hspells hr := by
    obtain ⟨hinfinite, hnone⟩ := read?_of_ge hspells hr
    exact ⟨⟨_, hinfinite, Decimal.isFinite_infinity negative⟩, hnone⟩
  special sign word hword hu := by
    rw [hu]
    exact ⟨Decimal.readFloat?_specialWord hword sign, read?_specialWord hword sign⟩

namespace Value

/-- A text stands for the number that it spells between its blanks, and blanks at either end never change it. -/
theorem text_coercion (x : String) :
    Number.ReadsAs (Text.trim x.toList) (str x).toNumber? ∧
    ∀ before after : List Char, (∀ c ∈ before, Text.isBlank c = true) → (∀ c ∈ after, Text.isBlank c = true) →
      (str (String.ofList (before ++ (x.toList ++ after)))).toNumber? = (str x).toNumber? := by
  refine ⟨Number.readsAs_read? _, fun before after hbefore hafter => ?_⟩
  rw [toNumber?, toNumber?, String.toList_ofList, Text.trim_append hbefore hafter]

/-- The least integer that is no longer one of 64 bits, a power of ten that is too large, an infinity in capitals,
and an integer between blanks. -/
theorem text_coercion_at_the_ends :
    ((∃ z : Int, z = 2 ^ 63 ∧ Text.Numeral.Spells (Text.trim " +9223372036854775808\n".toList) z) ∧
      ∃ f, (str " +9223372036854775808\n").toNumber? = some (.float f) ∧ f.isFinite = true) ∧
    ((∃ r, 2 ^ 1024 - 2 ^ 970 ≤ r ∧ Decimal.Spells (Text.trim "1e309".toList) false r) ∧
      (∃ x, Decimal.readFloat? (Text.trim "1e309".toList) = some x ∧ x.isFinite = false) ∧ (str "1e309").toNumber? = none) ∧
    ("INF".toList.map Char.toLower ∈ Text.specialWords ∧
      (∃ x, Decimal.readFloat? (Text.trim "-INF".toList) = some x ∧ x.isFinite = false) ∧ (str "-INF").toNumber? = none) ∧
    (str "\u00a0-7\t").toNumber? = (str "-7").toNumber? := by
  have hinteger : Text.Numeral.Spells (Text.trim " +9223372036854775808\n".toList) (2 ^ 63) :=
    @Text.Numeral.Spells.intro .plus "9223372036854775808".toList (by decide) (List.all_eq_true.1 (by decide))
  have hpower : Decimal.Spells (Text.trim "1e309".toList) false (Decimal.value ⟨1, 309⟩) :=
    Decimal.spells_iff.2 ⟨_, by decide, rfl⟩
  have hlarge : (2 : ℚ) ^ 1024 - 2 ^ 970 ≤ Decimal.value ⟨1, 309⟩ := by
    have h309 : Decimal.value ⟨1, 309⟩ = 10 ^ (309 : Int) := by rw [Decimal.value_mk, Nat.cast_one, one_mul]
    have hpow : (2 : ℚ) ^ (1024 : Int) < 10 ^ (309 : Int) := by exact_mod_cast Decimal.two_pow_1024_lt
    rw [h309]
    exact (Binary.overflow_lt.trans hpow).le
  have hsmall : (((2 : Int) ^ 63).natAbs : ℚ) < 2 ^ 1024 - 2 ^ 970 := by
    have hword : (((2 : Int) ^ 63).natAbs : ℚ) = 2 ^ (63 : Int) := by norm_num
    rw [hword]
    exact (two_zpow_lt_iff.2 (by norm_num)).trans_le Binary.le_overflow
  have hblank : Text.isBlank '\u00a0' = true ∧ Text.isBlank '\t' = true := by decide
  refine ⟨⟨⟨_, rfl, hinteger⟩, (text_coercion _).1.large _ hinteger (Or.inr le_rfl) hsmall⟩,
    ⟨⟨_, hlarge, hpower⟩, (text_coercion _).1.overflow _ _ hpower hlarge⟩,
    ⟨by decide, (text_coercion _).1.special .minus "INF".toList (by decide) (by decide)⟩, ?_⟩
  exact (text_coercion "-7").2 ['\u00a0'] ['\t'] (by simpa using hblank.1) (by simpa using hblank.2)

end Value

end StackLang
