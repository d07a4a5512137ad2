/-
Literals read back. The digits of a finite double are read as that double, and its point or exponent keeps it
from being taken for an integer. A text's literal ends at the first quote that is no part of an escape: the
escapes of two characters are never the same, nor is one the beginning of the other, and no escape starts
with a quote. No control character stands for itself.
-/
import StackLang.Proofs.Double
import StackLang.Proofs.Layout
import StackLang.Stack.Lemmas
import StackLang.Value.Number

namespace StackLang

/-! ## Numbers -/

namespace Binary

theorem renderMagnitude_head (m : Nat) (q : Int) : ∃ c cs, renderMagnitude m q = c :: cs ∧ c.isDigit = true :=
  Decimal.render_head _ _

theorem mem_renderMagnitude {m : Nat} {q : Int} {c : Char} (h : c ∈ renderMagnitude m q) :
    c.isDigit = true ∨ c ∈ Decimal.marks :=
  Decimal.mem_render _ _ h

end Binary

namespace Decimal

open Binary

theorem splitSign_append (negative : Bool) {c : Char} (cs : List Char) (h : c.isDigit = true) :
    splitSign ((if negative then ['-'] else []) ++ c :: cs) = (negative, c :: cs) := by
  cases negative with
  | true => rfl
  | false => exact splitSign_of_isDigit cs h

theorem toFloat_of_value_eq_zero {d : Decimal} (h : d.value = 0) (negative : Bool) :
    d.toFloat negative = ofRatio negative 0 1 := by
  have hcoef : d.coefficient = 0 := by
    have := (mul_eq_zero.1 h).resolve_right (ten_zpow_pos d.exponent).ne'
    exact_mod_cast this
  unfold toFloat
  rw [if_pos hcoef]

/-- The digits of a finite double are read as that double. -/
theorem readFinite?_render {x : Float} {negative : Bool} {m : Nat} {q : Int}
    (h : Double.ofFloat x = .finite negative m q) : readFinite? (Double.finite negative m q).render = some x := by
  obtain ⟨hc, hx⟩ := Double.eq_of_finite h
  obtain ⟨c, cs, hcs, hdigit⟩ := renderMagnitude_head m q
  obtain ⟨d, hd, hvalue⟩ := readUnsigned?_render .literal (if m = 0 then ⟨0, 0⟩ else shortest m q)
  have hread : read? (Double.finite negative m q).render = some (negative, d) := by
    simp only [read?, Double.render, hcs, splitSign_append negative cs hdigit]
    rw [← hcs, renderMagnitude, hd, Option.map_some]
  have hfloat : d.toFloat negative = x := by
    rw [hx]
    by_cases hm : m = 0
    · rw [if_pos hm, value_mk 0 0, Nat.cast_zero, zero_mul] at hvalue
      rw [toFloat_of_value_eq_zero hvalue, ofRatio]
      -- zero stands in the lowest binade, whose bit patterns start at zero
      have hq : q = minExponent := hc.normal.resolve_right (by omega)
      rw [hm, hq, encode, Int.sub_self]
      rfl
    · rw [if_neg hm] at hvalue
      have hpos : 0 < m := Nat.pos_of_ne_zero hm
      exact toFloat_of_mem hc (by rw [hvalue]; exact shortest_mem hpos) negative
  have hfinite : x.isFinite = true := Double.isFinite_iff.2 ⟨negative, m, q, h⟩
  rw [readFinite?, readFloat?_of_read? hread, hfloat, Option.filter_some, if_pos hfinite]

end Decimal

namespace Number

theorem read?_int (n : Int64) : read? (Value.int n).literal = some (.int n) := by
  simp only [read?, Value.literal, Text.Numeral.readInt64_ofInt]

/-- A finite double is not taken for an integer: there is a point or an exponent in its literal. -/
theorem read?_float {x : Float} (h : x.isFinite = true) : read? (Value.float x).literal = some (.float x) := by
  obtain ⟨negative, m, q, hx⟩ := Binary.Double.isFinite_iff.1 h
  obtain ⟨c, hc, hmark⟩ := Decimal.mark_mem_render .literal (if m = 0 then ⟨0, 0⟩ else Decimal.shortest m q)
  have hmem : c ∈ (Binary.Double.finite negative m q).render := List.mem_append_right _ hc
  have hno : c.isDigit = false ∧ c ≠ '-' ∧ c ≠ '+' := by
    rcases hmark with rfl | rfl
    · decide
    · decide
  obtain ⟨fault, hfault⟩ := Text.Numeral.readInt64_error ⟨c, hmem, hno⟩
  simp only [read?, Value.literal, hx, hfault, Decimal.readFinite?_render hx, Option.map_some]

end Number

/-! ## Texts -/

namespace Text

theorem not_isControl_of_range {c : Char} (h : 0x20 ≤ c.toNat ∧ c.toNat < 0x7F) : isControl c = false := by
  unfold isControl
  rw [Bool.or_eq_false_iff, Bool.and_eq_false_iff, decide_eq_false_iff_not, decide_eq_false_iff_not]
  omega

theorem toNat_le_of_isControl {c : Char} (h : isControl c = true) : c.toNat < 160 := by
  unfold isControl at h
  rw [Bool.or_eq_true, Bool.and_eq_true, decide_eq_true_eq, decide_eq_true_eq, decide_eq_true_eq] at h
  omega

/-- The code point notation of a control character has four digits, of which the last two count. -/
theorem hexDigits_four : ∀ n < 160, hexDigits 4 n = ['0', '0', (n / 16).digitChar, (n % 16).digitChar] := by
  decide +kernel

theorem digitChar_inj : ∀ m < 16, ∀ n < 16, m.digitChar = n.digitChar → m = n := by
  decide +kernel

theorem digitChar_not_isControl : ∀ n < 16, isControl n.digitChar = false := by
  decide +kernel

/-- The last two digits of the code point notation of a control character. -/
def hexPair (c : Char) : List Char := [(c.toNat / 16).digitChar, (c.toNat % 16).digitChar]

theorem codePointEscape_of_isControl {c : Char} (h : isControl c = true) :
    codePointEscape 4 c = ['\\', 'u', '\x7b', '0', '0'] ++ hexPair c ++ ['\x7d'] := by
  unfold codePointEscape
  rw [hexDigits_four _ (toNat_le_of_isControl h)]
  rfl

theorem hexPair_append_inj {c d : Char} (hc : isControl c = true) (hd : isControl d = true) {s t : List Char}
    (h : hexPair c ++ s = hexPair d ++ t) : c = d ∧ s = t := by
  have hc' := toNat_le_of_isControl hc
  have hd' := toNat_le_of_isControl hd
  simp only [hexPair, List.cons_append, List.nil_append, List.cons.injEq] at h
  obtain ⟨hhigh, hlow, hrest⟩ := h
  have hhigh := digitChar_inj _ (by omega) _ (by omega) hhigh
  have hlow := digitChar_inj _ (by omega) _ (by omega) hlow
  exact ⟨Char.toNat_inj.1 (by omega), hrest⟩

namespace Literal

/-- The characters that have a mark of their own behind a backslash. -/
def marked : List (Char × Char) := [('"', '"'), ('\\', '\\'), ('\n', 'n'), ('\r', 'r'), ('\t', 't')]

/-- A character is written with its mark, by its code point, or as it is. -/
theorem escape_cases (c : Char) :
    (∃ mark, (c, mark) ∈ marked ∧ escape c = ['\\', mark]) ∨
    (isControl c = true ∧ escape c = ['\\', 'u', '\x7b', '0', '0'] ++ hexPair c ++ ['\x7d']) ∨
    (isControl c = false ∧ c ≠ '"' ∧ c ≠ '\\' ∧ escape c = [c]) := by
  unfold escape
  split
  · exact Or.inl ⟨'"', by decide, rfl⟩
  · exact Or.inl ⟨'\\', by decide, rfl⟩
  · exact Or.inl ⟨'n', by decide, rfl⟩
  · exact Or.inl ⟨'r', by decide, rfl⟩
  · exact Or.inl ⟨'t', by decide, rfl⟩
  · rename_i hquote hbackslash _ _ _
    by_cases hc : isControl c = true
    · exact Or.inr (Or.inl ⟨hc, by rw [if_pos hc, codePointEscape_of_isControl hc]⟩)
    · exact Or.inr (Or.inr ⟨Bool.not_eq_true _ ▸ hc, hquote, hbackslash, if_neg hc⟩)

theorem escape_head (c : Char) : ∃ d ds, escape c = d :: ds ∧ d ≠ '"' := by
  rcases escape_cases c with ⟨mark, -, h⟩ | ⟨-, h⟩ | ⟨-, hquote, -, h⟩
  · exact ⟨'\\', _, h, by decide⟩
  · exact ⟨'\\', _, h, by decide⟩
  · exact ⟨c, _, h, hquote⟩

theorem not_isControl_of_mem_escape {c d : Char} (h : d ∈ escape c) : isControl d = false := by
  rcases escape_cases c with ⟨mark, hmark, he⟩ | ⟨hc, he⟩ | ⟨hc, -, -, he⟩
  · have hmarks : ∀ p ∈ marked, isControl p.2 = false := by decide
    rw [he] at h
    simp only [List.mem_cons, List.not_mem_nil, or_false] at h
    rcases h with rfl | rfl
    · rfl
    · exact hmarks _ hmark
  · have hc' := toNat_le_of_isControl hc
    rw [he] at h
    simp only [hexPair, List.mem_append, List.mem_cons, List.not_mem_nil, or_false] at h
    rcases h with ((rfl | rfl | rfl | rfl | rfl) | (rfl | rfl)) | rfl
    · rfl
    · rfl
    · rfl
    · rfl
    · rfl
    · exact digitChar_not_isControl _ (by omega)
    · exact digitChar_not_isControl _ (by omega)
    · rfl
  · rw [he] at h
    rw [List.mem_singleton.1 h]
    exact hc

/-- The escapes of two characters are not the same, nor is one the beginning of the other. -/
theorem escape_append_inj {c d : Char} {s t : List Char} (h : escape c ++ s = escape d ++ t) : c = d ∧ s = t := by
  have hmarks : ∀ p ∈ marked, ∀ p' ∈ marked, p.2 = p'.2 → p.1 = p'.1 := by decide
  have hu : ∀ p ∈ marked, p.2 ≠ 'u' := by decide
  -- a mark, a code point and the character itself against each other: the second character tells the
  -- first two apart, and the third never starts with a backslash
  rcases escape_cases c with ⟨m, hm, hc⟩ | ⟨hcc, hc⟩ | ⟨-, -, hbc, hc⟩ <;>
    rcases escape_cases d with ⟨n, hn, hd⟩ | ⟨hcd, hd⟩ | ⟨-, -, hbd, hd⟩ <;>
    rw [hc, hd] at h <;>
    simp only [List.append_assoc, List.cons_append, List.nil_append, List.cons.injEq, true_and] at h
  · exact ⟨hmarks _ hm _ hn h.1, h.2⟩
  · exact absurd h.1 (hu _ hm)
  · exact absurd h.1.symm hbd
  · exact absurd h.1.symm (hu _ hn)
  · obtain ⟨hcd, hst⟩ := hexPair_append_inj hcc hcd h
    exact ⟨hcd, (List.cons.inj hst).2⟩
  · exact absurd h.1.symm hbd
  · exact absurd h.1 hbc
  · exact absurd h.1 hbc
  · exact h

/-- A text ends at the first quote that is no part of an escape. -/
theorem flatMap_escape_append_inj {cs ds s t : List Char}
    (h : cs.flatMap escape ++ '"' :: s = ds.flatMap escape ++ '"' :: t) : cs = ds ∧ s = t := by
  induction cs generalizing ds with
  | nil =>
    cases ds with
    | nil => exact ⟨rfl, (List.cons.inj h).2⟩
    | cons d ds =>
      obtain ⟨e, es, he, hquote⟩ := escape_head d
      rw [List.flatMap_cons, he] at h
      exact absurd (List.cons.inj h).1.symm hquote
  | cons c cs ih =>
    cases ds with
    | nil =>
      obtain ⟨e, es, he, hquote⟩ := escape_head c
      rw [List.flatMap_cons, he] at h
      exact absurd (List.cons.inj h).1 hquote
    | cons d ds =>
      rw [List.flatMap_cons, List.flatMap_cons, List.append_assoc, List.append_assoc] at h
      obtain ⟨rfl, hrest⟩ := escape_append_inj h
      obtain ⟨rfl, hst⟩ := ih hrest
      exact ⟨rfl, hst⟩

theorem encode_append_inj {cs ds s t : List Char} (h : encode cs ++ s = encode ds ++ t) : cs = ds ∧ s = t := by
  simp only [encode, List.cons_append, List.append_assoc, List.nil_append, List.cons.injEq, true_and] at h
  exact flatMap_escape_append_inj h

theorem not_isControl_of_mem_encode {c : Char} {cs : List Char} (h : c ∈ encode cs) : isControl c = false := by
  simp only [encode, List.mem_cons, List.mem_append, List.mem_flatMap, List.not_mem_nil, or_false] at h
  rcases h with rfl | ⟨d, -, hd⟩ | rfl
  · rfl
  · exact not_isControl_of_mem_escape hd
  · rfl

end Literal

end Text

end StackLang
