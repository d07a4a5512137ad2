/-
Numerals read back. The digits of a number are read as that number wherever it lies in the wanted range,
and a text with any other character in it is no numeral.
-/
import Mathlib.Algebra.Group.Nat.Defs
import StackLang.Text.Numeral

namespace StackLang.Text.Numeral

variable {bound acc : Nat} {excess : Fault} {c : Char} {cs : List Char} {n : Nat}

/-! ## Digits -/

theorem isDigit_of_mem_ofNat (h : c ∈ ofNat n) : c.isDigit = true :=
  Nat.isDigit_of_mem_toDigits (by decide) (by decide) h

theorem ofNat_ne_nil (n : Nat) : ofNat n ≠ [] := Nat.toDigits_ne_nil

theorem ofDigitChars_ofNat (n : Nat) : Nat.ofDigitChars 10 (ofNat n) 0 = n := Nat.ofDigitChars_ten_toDigits

theorem le_ofDigitChars (acc : Nat) (cs : List Char) : acc ≤ Nat.ofDigitChars 10 cs acc := by
  rw [Nat.ofDigitChars_eq_ofDigitChars_zero]
  have : acc ≤ 10 ^ cs.length * acc := Nat.le_mul_of_pos_left acc (Nat.pow_pos (by decide))
  omega

/-- A character that is a digit is no sign. -/
theorem ne_of_isDigit {d : Char} (h : c.isDigit = true) (hd : d.isDigit = false) : c ≠ d := by
  rintro rfl
  rw [h] at hd
  cases hd

theorem mem_ofInt {z : Int} (h : c ∈ ofInt z) : c.isDigit = true ∨ c = '-' := by
  unfold ofInt at h
  split at h
  · rcases List.mem_cons.1 h with rfl | h
    · exact Or.inr rfl
    · exact Or.inl (isDigit_of_mem_ofNat h)
  · exact Or.inl (isDigit_of_mem_ofNat h)

theorem ofInt_ne_nil (z : Int) : ofInt z ≠ [] := by
  unfold ofInt
  split
  · exact List.cons_ne_nil _ _
  · exact ofNat_ne_nil _

/-! ## Reading -/

theorem readDigits_eq (hcs : ∀ c ∈ cs, c.isDigit = true) (h : Nat.ofDigitChars 10 cs acc ≤ bound) :
    readDigits bound excess acc cs = .ok (Nat.ofDigitChars 10 cs acc) := by
  induction cs generalizing acc with
  | nil => rfl
  | cons c cs ih =>
    rw [Nat.ofDigitChars_cons, Nat.mul_comm] at h ⊢
    have hdigit : digit? c = some (c.toNat - '0'.toNat) := if_pos (hcs c List.mem_cons_self)
    -- the value so far only grows, so that it stays below the bound all the way
    have hle := Nat.le_trans (le_ofDigitChars _ cs) h
    simp only [readDigits, hdigit, if_pos hle]
    exact ih (fun d hd => hcs d (List.mem_cons_of_mem c hd)) h

theorem readDigits_error (h : ∃ c ∈ cs, c.isDigit = false) :
    ∃ fault, readDigits bound excess acc cs = .error fault := by
  induction cs generalizing acc with
  | nil => simp at h
  | cons d cs ih =>
    unfold readDigits
    by_cases hd : d.isDigit = true
    · have hdigit : digit? d = some (d.toNat - '0'.toNat) := if_pos hd
      simp only [hdigit]
      split
      · obtain ⟨c, hc, hcd⟩ := h
        rcases List.mem_cons.1 hc with rfl | hc
        · rw [hd] at hcd; cases hcd
        · exact ih ⟨c, hc, hcd⟩
      · exact ⟨excess, rfl⟩
    · have hdigit : digit? d = none := if_neg hd
      simp only [hdigit]
      exact ⟨.invalidDigit, rfl⟩

theorem readMagnitude_eq (hcs : cs ≠ []) : readMagnitude bound excess cs = readDigits bound excess 0 cs := by
  cases cs with
  | nil => exact absurd rfl hcs
  | cons c cs => rfl

theorem readMagnitude_ofNat (h : n ≤ bound) : readMagnitude bound excess (ofNat n) = .ok n := by
  have hn := ofDigitChars_ofNat n
  rw [readMagnitude_eq (ofNat_ne_nil n), readDigits_eq (fun c hc => isDigit_of_mem_ofNat hc) (by rw [hn]; exact h), hn]

theorem readInt64_of_digits (hne : cs ≠ []) (hcs : ∀ c ∈ cs, c.isDigit = true) :
    readInt64 cs = (readMagnitude (pow2 63 - 1) .tooLarge cs).map fun n => Int64.ofNat n := by
  unfold readInt64
  split
  · exact absurd rfl hne
  · exact absurd rfl (ne_of_isDigit (hcs '-' List.mem_cons_self) rfl)
  · exact absurd rfl (ne_of_isDigit (hcs '+' List.mem_cons_self) rfl)
  · rfl

theorem readInt64_ofInt (n : Int64) : readInt64 (ofInt n.toInt) = .ok n := by
  have hlow := Int64.le_toInt n
  have hhigh := Int64.toInt_lt n
  have hpow : pow2 63 = 2 ^ 63 := rfl
  unfold ofInt
  split
  · have hle : n.toInt.natAbs ≤ pow2 63 := by omega
    have habs : -(n.toInt.natAbs : Int) = n.toInt := by omega
    simp only [readInt64, readMagnitude_ofNat hle]
    show Except.ok (Int64.ofInt (-(n.toInt.natAbs : Int))) = _
    rw [habs, Int64.ofInt_toInt]
  · have hle : n.toInt.natAbs ≤ pow2 63 - 1 := by omega
    have habs : (n.toInt.natAbs : Int) = n.toInt := by omega
    rw [readInt64_of_digits (ofNat_ne_nil _) fun c hc => isDigit_of_mem_ofNat hc, readMagnitude_ofNat hle]
    simp only [Except.map, ← Int64.ofInt_eq_ofNat, habs, Int64.ofInt_toInt]

theorem readWord_ofNat (h : n < pow2 64) : readWord (ofNat n) = .ok n := by
  have hdigits : ∀ c ∈ ofNat n, c.isDigit = true := fun c hc => isDigit_of_mem_ofNat hc
  have hmagnitude : readMagnitude (pow2 64 - 1) .tooLarge (ofNat n) = .ok n := readMagnitude_ofNat (by omega)
  generalize ofNat n = cs at hdigits hmagnitude
  unfold readWord
  split
  · cases hmagnitude
  · exact absurd rfl (ne_of_isDigit (hdigits '+' List.mem_cons_self) rfl)
  · exact hmagnitude

/-- A text with a character that is neither a digit nor a sign is no integer. -/
theorem readInt64_error (h : ∃ c ∈ cs, c.isDigit = false ∧ c ≠ '-' ∧ c ≠ '+') :
    ∃ fault, readInt64 cs = .error fault := by
  obtain ⟨c, hc, hdigit, hminus, hplus⟩ := h
  have hmagnitude : ∀ (bound : Nat) (excess : Fault) (cs : List Char), c ∈ cs →
      ∃ fault, readMagnitude bound excess cs = .error fault := by
    intro bound excess cs hc
    rw [readMagnitude_eq (List.ne_nil_of_mem hc)]
    exact readDigits_error ⟨c, hc, hdigit⟩
  unfold readInt64
  split
  · exact ⟨.empty, rfl⟩
  · obtain ⟨fault, hf⟩ := hmagnitude (pow2 63) .tooSmall _ ((List.mem_cons.1 hc).resolve_left hminus)
    exact ⟨fault, by rw [hf]; rfl⟩
  · obtain ⟨fault, hf⟩ := hmagnitude (pow2 63 - 1) .tooLarge _ ((List.mem_cons.1 hc).resolve_left hplus)
    exact ⟨fault, by rw [hf]; rfl⟩
  · obtain ⟨fault, hf⟩ := hmagnitude (pow2 63 - 1) .tooLarge _ hc
    exact ⟨fault, by rw [hf]; rfl⟩

end StackLang.Text.Numeral
