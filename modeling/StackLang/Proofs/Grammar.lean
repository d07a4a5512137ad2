/-
The texts of numbers. An integer is written with digits behind an optional sign. A decimal is written with digits
and at most one point among them, behind an optional sign, and may end with an exponent: a mark and an integer.
Reading accepts these texts and no others, and what it reads is the number that they spell.
-/
import StackLang.Proofs.Layout

namespace StackLang

/-- The sign in front of a number, which may be left out. -/
inductive Text.Sign where
  | absent
  | plus
  | minus

namespace Text.Sign

/-- How a sign is written. -/
def text : Sign → List Char
  | .absent => []
  | .plus => ['+']
  | .minus => ['-']

/-- Whether a sign is a minus. -/
def isMinus : Sign → Bool
  | .minus => true
  | _ => false

/-- The number of a magnitude behind a sign. -/
def apply (sign : Sign) (n : Nat) : Int := if sign.isMinus then -n else n

theorem natAbs_apply (sign : Sign) (n : Nat) : (sign.apply n).natAbs = n := by
  unfold apply
  split
  · exact Int.natAbs_neg n
  · rfl

theorem mem_text {sign : Sign} {c : Char} (h : c ∈ sign.text) : c = '+' ∨ c = '-' := by
  cases sign with
  | absent => cases h
  | plus => exact Or.inl (List.mem_singleton.1 h)
  | minus => exact Or.inr (List.mem_singleton.1 h)

end Text.Sign

/-! ## Integers -/

namespace Text.Numeral

/-- A text spells an integer: an optional sign and at least one digit. -/
inductive Spells : List Char → Int → Prop where
  | intro (sign : Sign) {digits : List Char} (hne : digits ≠ []) (hdigits : ∀ c ∈ digits, c.isDigit = true) :
      Spells (sign.text ++ digits) (sign.apply (Nat.ofDigitChars 10 digits 0))

variable {bound acc n : Nat} {excess : Fault} {cs : List Char}

/-- What is read are digits, and their value has stayed in the range. -/
theorem of_readDigits (hacc : acc ≤ bound) (h : readDigits bound excess acc cs = .ok n) :
    (∀ c ∈ cs, c.isDigit = true) ∧ Nat.ofDigitChars 10 cs acc = n ∧ n ≤ bound := by
  induction cs generalizing acc with
  | nil =>
    cases h
    exact ⟨by simp, rfl, hacc⟩
  | cons c cs ih =>
    unfold readDigits digit? at h
    by_cases hc : c.isDigit = true
    · simp only [if_pos hc] at h
      split at h
      · rename_i hle
        obtain ⟨hcs, hvalue, hn⟩ := ih hle h
        refine ⟨List.forall_mem_cons.2 ⟨hc, hcs⟩, ?_, hn⟩
        rw [Nat.ofDigitChars_cons, Nat.mul_comm, hvalue]
      · cases h
    · simp only [if_neg hc] at h
      cases h

theorem readMagnitude_eq_ok_iff :
    readMagnitude bound excess cs = .ok n ↔
      cs ≠ [] ∧ (∀ c ∈ cs, c.isDigit = true) ∧ Nat.ofDigitChars 10 cs 0 = n ∧ n ≤ bound := by
  constructor
  · intro h
    have hne : cs ≠ [] := by rintro rfl; cases h
    rw [readMagnitude_eq hne] at h
    exact ⟨hne, of_readDigits (Nat.zero_le _) h⟩
  · rintro ⟨hne, hcs, rfl, hle⟩
    rw [readMagnitude_eq hne, readDigits_eq hcs hle]

theorem map_eq_ok_iff {α β ε : Type} {x : Except ε α} {f : α → β} {b : β} :
    x.map f = .ok b ↔ ∃ a, x = .ok a ∧ f a = b := by
  cases x with
  | error e => simp [Except.map]
  | ok a => simp [Except.map]

theorem toInt_ofNat {k : Nat} (h : k ≤ pow2 63 - 1) : (Int64.ofNat k).toInt = k := by
  have hpow : pow2 63 = 2 ^ 63 := rfl
  exact Int64.toInt_ofNat_of_lt (by omega)

theorem toInt_ofInt_neg {k : Nat} (h : k ≤ pow2 63) : (Int64.ofInt (-k)).toInt = -k := by
  have hpow : pow2 63 = 2 ^ 63 := rfl
  exact Int64.toInt_ofInt_of_le (by omega) (by omega)

theorem readInt64_minus (cs : List Char) :
    readInt64 ('-' :: cs) = (readMagnitude (pow2 63) .tooSmall cs).map fun n : Nat => Int64.ofInt (-(n : Int)) := by
  simp only [readInt64]
  cases readMagnitude (pow2 63) .tooSmall cs with
  | error fault => rfl
  | ok n => rfl

/-- An integer of 64 bits is read from the texts that spell it. -/
theorem readInt64_eq_ok_iff {n : Int64} : readInt64 cs = .ok n ↔ Spells cs n.toInt := by
  constructor
  · intro h
    unfold readInt64 at h
    split at h
    · cases h
    · rename_i cs
      change readInt64 ('-' :: cs) = .ok n at h
      rw [readInt64_minus] at h
      obtain ⟨k, hk, rfl⟩ := map_eq_ok_iff.1 h
      obtain ⟨hne, hcs, rfl, hle⟩ := readMagnitude_eq_ok_iff.1 hk
      rw [toInt_ofInt_neg hle]
      exact .intro .minus hne hcs
    · obtain ⟨k, hk, rfl⟩ := map_eq_ok_iff.1 h
      obtain ⟨hne, hcs, rfl, hle⟩ := readMagnitude_eq_ok_iff.1 hk
      rw [toInt_ofNat hle]
      exact .intro .plus hne hcs
    · obtain ⟨k, hk, rfl⟩ := map_eq_ok_iff.1 h
      obtain ⟨hne, hcs, rfl, hle⟩ := readMagnitude_eq_ok_iff.1 hk
      rw [toInt_ofNat hle]
      exact .intro .absent hne hcs
  · generalize hz : n.toInt = z
    rintro ⟨sign, hne, hcs⟩
    have hlow := Int64.le_toInt n
    have hhigh := Int64.toInt_lt n
    have hpow : pow2 63 = 2 ^ 63 := rfl
    rename_i digits
    have hread : ∀ bound excess, Nat.ofDigitChars 10 digits 0 ≤ bound →
        readMagnitude bound excess digits = .ok (Nat.ofDigitChars 10 digits 0) :=
      fun bound excess hle => readMagnitude_eq_ok_iff.2 ⟨hne, hcs, rfl, hle⟩
    cases sign with
    | absent =>
      have hvalue : n.toInt = Nat.ofDigitChars 10 digits 0 := hz
      show readInt64 digits = _
      rw [readInt64_of_digits hne hcs, hread _ _ (by omega)]
      show Except.ok (Int64.ofNat _) = _
      rw [← Int64.ofInt_eq_ofNat, ← hvalue, Int64.ofInt_toInt]
    | plus =>
      have hvalue : n.toInt = Nat.ofDigitChars 10 digits 0 := hz
      show (readMagnitude _ _ digits).map _ = _
      rw [hread _ _ (by omega)]
      show Except.ok (Int64.ofNat _) = _
      rw [← Int64.ofInt_eq_ofNat, ← hvalue, Int64.ofInt_toInt]
    | minus =>
      have hvalue : n.toInt = -Nat.ofDigitChars 10 digits 0 := hz
      show readInt64 ('-' :: digits) = _
      rw [readInt64_minus, hread _ _ (by omega)]
      show Except.ok (Int64.ofInt _) = _
      rw [← hvalue, Int64.ofInt_toInt]

end Text.Numeral

/-! ## Decimals -/

namespace Decimal

open Text (Sign)

/-- What may stand behind the digits before the point: nothing, or the point and the digits behind it. -/
inductive SpellsFraction : List Char → List Char → Prop where
  | absent : SpellsFraction [] []
  | present {digits : List Char} (hdigits : ∀ c ∈ digits, c.isDigit = true) : SpellsFraction ('.' :: digits) digits

/-- What may stand behind all these digits: nothing, or an exponent. -/
inductive SpellsExponent : List Char → Int → Prop where
  | absent : SpellsExponent [] 0
  | present {mark : Char} (hmark : mark = 'e' ∨ mark = 'E') {cs : List Char} {e : Int} (h : Text.Numeral.Spells cs e) :
      SpellsExponent (mark :: cs) e

/-- A text spells `± r`: an optional sign, digits with at most one point and at least one digit in all, and
optionally an exponent. -/
inductive Spells : List Char → Bool → ℚ → Prop where
  | intro (sign : Sign) {whole point fraction exponent : List Char} {e : Int}
      (hwhole : ∀ c ∈ whole, c.isDigit = true) (hpoint : SpellsFraction point fraction)
      (hne : whole ++ fraction ≠ []) (hexponent : SpellsExponent exponent e) :
      Spells (sign.text ++ (whole ++ (point ++ exponent))) sign.isMinus
        (Nat.ofDigitChars 10 (whole ++ fraction) 0 * 10 ^ (e - fraction.length))

variable {cs : List Char} {e : Int} {d : Decimal} {negative : Bool} {r : ℚ}

/-! ### Reading the parts -/

/-- A sign is split off from what does not start with another sign. -/
theorem splitSign_text (sign : Sign) (hcs : ∀ c ∈ cs.head?, c ≠ '-' ∧ c ≠ '+') :
    splitSign (sign.text ++ cs) = (sign.isMinus, cs) := by
  cases sign with
  | plus => rfl
  | minus => rfl
  | absent =>
    show splitSign cs = (false, cs)
    unfold splitSign
    split
    · exact absurd rfl (hcs '-' rfl).1
    · exact absurd rfl (hcs '+' rfl).2
    · rfl

theorem exists_sign (cs : List Char) :
    ∃ (sign : Sign) (rest : List Char), splitSign cs = (sign.isMinus, rest) ∧ cs = sign.text ++ rest := by
  unfold splitSign
  split
  · exact ⟨.minus, _, rfl, rfl⟩
  · exact ⟨.plus, _, rfl, rfl⟩
  · exact ⟨.absent, _, rfl, rfl⟩

theorem not_sign_of_isDigit {c : Char} (h : c.isDigit = true) : c ≠ '-' ∧ c ≠ '+' :=
  ⟨Text.Numeral.ne_of_isDigit h rfl, Text.Numeral.ne_of_isDigit h rfl⟩

/-- The sign and the digits of an integer are told apart by the first character. -/
theorem splitSign_of_digits (sign : Sign) {digits : List Char} (hdigits : ∀ c ∈ digits, c.isDigit = true) :
    splitSign (sign.text ++ digits) = (sign.isMinus, digits) :=
  splitSign_text sign fun c hc => not_sign_of_isDigit (hdigits c (List.mem_of_mem_head? hc))

/-- A text spells at most one integer. -/
theorem numeral_unique {z z' : Int} (h : Text.Numeral.Spells cs z) (h' : Text.Numeral.Spells cs z') : z = z' := by
  have hvalue : ∀ {z}, Text.Numeral.Spells cs z →
      z = if (splitSign cs).1 then -(ofDigits (splitSign cs).2 : Int) else ofDigits (splitSign cs).2 := by
    rintro _ ⟨sign, -, hdigits⟩
    rw [splitSign_of_digits sign hdigits, ofDigits_eq]
    rfl
  exact (hvalue h).trans (hvalue h').symm

theorem readExponent?_mark {mark : Char} (hmark : mark = 'e' ∨ mark = 'E') (cs : List Char) :
    readExponent? (mark :: cs) =
      if (splitSign cs).2 ≠ [] ∧ (splitSign cs).2.all Char.isDigit then
        some (if (splitSign cs).1 then -(ofDigits (splitSign cs).2 : Int) else ofDigits (splitSign cs).2)
      else none := if_pos hmark

theorem readExponent?_eq_some_iff : readExponent? cs = some e ↔ SpellsExponent cs e := by
  constructor
  · intro h
    cases cs with
    | nil =>
      cases h
      exact .absent
    | cons mark cs =>
      by_cases hmark : mark = 'e' ∨ mark = 'E'
      · obtain ⟨sign, digits, hsplit, rfl⟩ := exists_sign cs
        rw [readExponent?_mark hmark, hsplit, ofDigits_eq] at h
        split at h
        · rename_i hdigits
          cases h
          exact .present hmark (.intro sign hdigits.1 (List.all_eq_true.1 hdigits.2))
        · cases h
      · have hnone : readExponent? (mark :: cs) = none := if_neg hmark
        cases h.symm.trans hnone
  · intro h
    cases h with
    | absent => rfl
    | present hmark hspells =>
      obtain ⟨sign, hne, hdigits⟩ := hspells
      rw [readExponent?_mark hmark, splitSign_of_digits sign hdigits, if_pos ⟨hne, List.all_eq_true.2 hdigits⟩, ofDigits_eq]
      rfl

theorem exists_fraction (cs : List Char) :
    ∃ point, cs = point ++ (splitFraction cs).2 ∧ SpellsFraction point (splitFraction cs).1 := by
  unfold splitFraction
  split
  · rename_i cs
    refine ⟨'.' :: cs.takeWhile Char.isDigit, ?_, .present (List.all_eq_true.1 List.all_takeWhile)⟩
    rw [List.cons_append, List.takeWhile_append_dropWhile]
  · exact ⟨[], rfl, .absent⟩

/-- An exponent starts with its mark. -/
theorem SpellsExponent.head (h : SpellsExponent cs e) : ∀ c ∈ cs.head?, c.isDigit = false ∧ c ≠ '.' := by
  cases h with
  | absent => rintro _ ⟨⟩
  | present hmark _ =>
    rintro _ ⟨⟩
    rcases hmark with rfl | rfl
    · exact ⟨rfl, by decide⟩
    · exact ⟨rfl, by decide⟩

section Parts

variable {whole point fraction exponent : List Char}

theorem readUnsigned?_of_spells (hwhole : ∀ c ∈ whole, c.isDigit = true) (hpoint : SpellsFraction point fraction)
    (hne : whole ++ fraction ≠ []) (hexponent : SpellsExponent exponent e) :
    readUnsigned? (whole ++ (point ++ exponent)) = some ⟨ofDigits (whole ++ fraction), e - fraction.length⟩ := by
  have hread := readExponent?_eq_some_iff.2 hexponent
  cases hpoint with
  | absent =>
    rw [List.append_nil] at hne
    rw [List.nil_append, readUnsigned?_plain hwhole hne hexponent.head hread, List.append_nil, List.length_nil,
      Int.ofNat_zero, Int.sub_zero]
  | present hfraction =>
    exact readUnsigned?_point hwhole hne hfraction (fun c hc => (hexponent.head c hc).1) hread

theorem exists_of_readUnsigned? (h : readUnsigned? cs = some d) :
    ∃ whole point fraction exponent e, cs = whole ++ (point ++ exponent) ∧ (∀ c ∈ whole, c.isDigit = true) ∧
      SpellsFraction point fraction ∧ whole ++ fraction ≠ [] ∧ SpellsExponent exponent e ∧
      d = ⟨ofDigits (whole ++ fraction), e - fraction.length⟩ := by
  obtain ⟨point, hcs, hpoint⟩ := exists_fraction (cs.dropWhile Char.isDigit)
  unfold readUnsigned? at h
  dsimp only at h
  split at h
  · cases h
  · rename_i hne
    obtain ⟨e, he, rfl⟩ := Option.map_eq_some_iff.1 h
    refine ⟨_, point, _, _, e, ?_, List.all_eq_true.1 List.all_takeWhile, hpoint,
      fun h => hne (List.append_eq_nil_iff.1 h), readExponent?_eq_some_iff.1 he, rfl⟩
    rw [← hcs, List.takeWhile_append_dropWhile]

/-- What a decimal without its sign starts with is no sign. -/
theorem not_sign_of_mem_head? (hwhole : ∀ c ∈ whole, c.isDigit = true) (hpoint : SpellsFraction point fraction)
    (hne : whole ++ fraction ≠ []) : ∀ c ∈ (whole ++ (point ++ exponent)).head?, c ≠ '-' ∧ c ≠ '+' := by
  intro c hc
  cases whole with
  | cons d whole =>
    cases hc
    exact not_sign_of_isDigit (hwhole _ List.mem_cons_self)
  | nil =>
    cases hpoint with
    | absent => exact absurd rfl hne
    | present _ =>
      cases hc
      decide

end Parts

theorem read?_of_splitSign {rest : List Char} (h : splitSign cs = (negative, rest)) :
    read? cs = (readUnsigned? rest).map fun d => (negative, d) := by
  unfold read?
  rw [h]

/-- The texts that spell decimals are those that are read, and what is read has the value that is spelled. -/
theorem spells_iff : Spells cs negative r ↔ ∃ d, read? cs = some (negative, d) ∧ d.value = r := by
  constructor
  · rintro ⟨sign, hwhole, hpoint, hne, hexponent⟩
    refine ⟨_, ?_, by rw [← ofDigits_eq, ← value_mk]⟩
    rw [read?_of_splitSign (splitSign_text sign (not_sign_of_mem_head? hwhole hpoint hne)),
      readUnsigned?_of_spells hwhole hpoint hne hexponent, Option.map_some]
  · rintro ⟨d, hd, rfl⟩
    obtain ⟨sign, rest, hsplit, rfl⟩ := exists_sign cs
    rw [read?_of_splitSign hsplit] at hd
    obtain ⟨d', hd', heq⟩ := Option.map_eq_some_iff.1 hd
    obtain ⟨rfl, rfl⟩ := Prod.mk.inj heq
    obtain ⟨whole, point, fraction, exponent, e, rfl, hwhole, hpoint, hne, hexponent, rfl⟩ :=
      exists_of_readUnsigned? hd'
    rw [value_mk, ofDigits_eq]
    exact .intro sign hwhole hpoint hne hexponent

/-- A text spells at most one decimal. -/
theorem Spells.unique {negative' : Bool} {r' : ℚ} (h : Spells cs negative r) (h' : Spells cs negative' r') :
    negative = negative' ∧ r = r' := by
  obtain ⟨d, hd, rfl⟩ := spells_iff.1 h
  obtain ⟨d', hd', rfl⟩ := spells_iff.1 h'
  cases hd.symm.trans hd'
  exact ⟨rfl, rfl⟩

/-- Integers are decimals without a point and an exponent. -/
theorem spells_of_numeral {z : Int} (h : Text.Numeral.Spells cs z) : ∃ negative, Spells cs negative z.natAbs := by
  obtain ⟨sign, hne, hdigits⟩ := h
  have hspells := Spells.intro sign hdigits .absent (by rwa [List.append_nil]) .absent
  refine ⟨sign.isMinus, ?_⟩
  rw [Text.Sign.natAbs_apply]
  simpa using hspells

/-! ### The characters of a text that spells a number -/

/-- There is a digit in it. -/
theorem Spells.exists_isDigit (h : Spells cs negative r) : ∃ c ∈ cs, c.isDigit = true := by
  obtain ⟨sign, hwhole, hpoint, hne, -⟩ := h
  rename_i whole point fraction exponent e
  cases whole with
  | cons c whole => exact ⟨c, by simp, hwhole c List.mem_cons_self⟩
  | nil =>
    cases hpoint with
    | absent => exact absurd rfl hne
    | present hdigits =>
      obtain ⟨c, ds, rfl⟩ := List.exists_cons_of_ne_nil hne
      exact ⟨c, by simp, hdigits c List.mem_cons_self⟩

/-- The characters other than digits that stand in the text of a number. -/
def punctuation : List Char := ['+', '-', '.', 'e', 'E']

theorem mem_punctuation_of_mem_text {sign : Sign} {c : Char} (h : c ∈ sign.text) : c ∈ punctuation := by
  rcases Text.Sign.mem_text h with rfl | rfl
  · decide
  · decide

theorem mem_numeral {z : Int} {c : Char} (h : Text.Numeral.Spells cs z) (hc : c ∈ cs) :
    c.isDigit = true ∨ c ∈ punctuation := by
  obtain ⟨sign, -, hdigits⟩ := h
  rcases List.mem_append.1 hc with hc | hc
  · exact Or.inr (mem_punctuation_of_mem_text hc)
  · exact Or.inl (hdigits c hc)

theorem Spells.characters (h : Spells cs negative r) : ∀ c ∈ cs, c.isDigit = true ∨ c ∈ punctuation := by
  obtain ⟨sign, hwhole, hpoint, -, hexponent⟩ := h
  intro c hc
  simp only [List.mem_append] at hc
  rcases hc with hc | hc | hc | hc
  · exact Or.inr (mem_punctuation_of_mem_text hc)
  · exact Or.inl (hwhole c hc)
  · cases hpoint with
    | absent => cases hc
    | present hdigits =>
      rcases List.mem_cons.1 hc with rfl | hc
      · exact Or.inr (by decide)
      · exact Or.inl (hdigits c hc)
  · cases hexponent with
    | absent => cases hc
    | present hmark hspells =>
      rcases List.mem_cons.1 hc with rfl | hc
      · rcases hmark with rfl | rfl
        · exact Or.inr (by decide)
        · exact Or.inr (by decide)
      · exact mem_numeral hspells hc

end Decimal

end StackLang
