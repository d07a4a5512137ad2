/-
Doubles and their bit patterns. A floating-point value is determined by what it stands for: sign,
significand and exponent of a finite one can be put together again, there is one infinity of each sign,
and only one NaN.
-/
import Mathlib
import StackLang.Proofs.Rounding

namespace StackLang.Binary.Double

/-! ## Bit patterns -/

/-- The sign's share of a bit pattern. -/
def signBits (negative : Bool) : Nat := if negative then pow2 63 else 0

/-- The exponent field of a bit pattern. -/
def field (bits : UInt64) : Nat := bits.toNat / 2 ^ 52 % 2 ^ 11

theorem signBits_decide (n : Nat) : signBits (pow2 63 ≤ n) = if 2 ^ 63 ≤ n then 2 ^ 63 else 0 := by
  unfold signBits
  simp only [decide_eq_true_eq]
  rfl

theorem signBits_true : signBits true = 2 ^ 63 := rfl

theorem signBits_false : signBits false = 0 := rfl

/-- What a bit pattern stands for, and how it is put together again from that. -/
theorem ofBits_cases (bits : UInt64) :
    (field bits = 2047 ∧ bits.toNat % 2 ^ 52 ≠ 0 ∧ ofBits bits = .nan) ∨
    (∃ negative, field bits = 2047 ∧ bits.toNat % 2 ^ 52 = 0 ∧ ofBits bits = .infinite negative ∧
      bits.toNat = infinityBits + signBits negative) ∨
    (∃ negative m q, field bits ≠ 2047 ∧ ofBits bits = .finite negative m q ∧ Canonical m q ∧
      bits.toNat = encode m q + signBits negative) := by
  have hbits := bits.toNat_lt
  have hfield : bits.toNat / pow2 52 % pow2 11 = field bits := rfl
  have hfraction : bits.toNat % pow2 52 = bits.toNat % 2 ^ 52 := rfl
  have hsign := signBits_decide bits.toNat
  unfold ofBits
  dsimp only
  rw [hfield, hfraction]
  by_cases hspecial : field bits = 2047
  · rw [if_pos hspecial]
    unfold field at hspecial
    by_cases hzero : bits.toNat % 2 ^ 52 = 0
    · refine Or.inr (Or.inl ⟨_, hspecial, hzero, if_pos hzero, ?_⟩)
      rw [hsign]
      unfold infinityBits
      rw [pow2_eq]
      split <;> omega
    · exact Or.inl ⟨hspecial, hzero, if_neg hzero⟩
  · refine Or.inr (Or.inr ?_)
    rw [if_neg hspecial]
    by_cases hlowest : field bits = 0
    · -- the lowest binade has no implicit digit
      refine ⟨_, _, _, hspecial, if_pos hlowest, ⟨by omega, le_refl _, by decide, Or.inl rfl⟩, ?_⟩
      rw [hsign]
      unfold encode
      unfold field at hlowest
      rw [Int.sub_self, Int.toNat_zero, Nat.zero_mul, Nat.zero_add]
      split <;> omega
    · refine ⟨_, _, _, hspecial, if_neg hlowest, ⟨?_, ?_, ?_, Or.inr (Nat.le_add_right _ _)⟩, ?_⟩
      · rw [pow2_eq]; omega
      · unfold minExponent; omega
      · unfold field at hspecial ⊢; omega
      · rw [hsign]
        unfold encode minExponent
        unfold field at hspecial hlowest ⊢
        simp only [pow2_eq]
        split <;> omega

/-! ## Floating-point values -/

section Model

open Float.Model

theorem unpackExponent_iff (bits : UInt64) :
    @UnpackedFloat.unpackExponent .binary64 bits.toBitVec = -1#_ ↔ field bits = 2047 := by
  rw [UnpackedFloat.unpackExponent_def, ← BitVec.toNat_inj, BitVec.extractLsb'_toNat, Nat.shiftRight_eq_div_pow]
  rfl

theorem unpackMantissa_iff (bits : UInt64) :
    @UnpackedFloat.unpackMantissa .binary64 bits.toBitVec = 0#_ ↔ bits.toNat % 2 ^ 52 = 0 := by
  rw [UnpackedFloat.unpackMantissa_def, ← BitVec.toNat_inj, BitVec.extractLsb'_toNat, Nat.shiftRight_zero]
  rfl

/-- There is only one NaN. -/
theorem eq_of_nan {x y : Float} (hx : ofFloat x = .nan) (hy : ofFloat y = .nan) : x = y := by
  have hbits : ∀ z : Float, ofFloat z = .nan → z.toBits.toBitVec = UnpackedFloat.packedNaN .binary64 := by
    intro z hz
    rcases ofBits_cases z.toBits with ⟨hf, hm, -⟩ | ⟨_, _, _, h, _⟩ | ⟨_, _, _, _, h, _⟩
    · exact z.toModel.valid.eq_packedNaN ((unpackExponent_iff _).2 hf) (mt (unpackMantissa_iff _).1 hm)
    · cases hz.symm.trans h
    · cases hz.symm.trans h
  apply Float.toBits_inj.1
  exact UInt64.toBitVec_inj.1 ((hbits x hx).trans (hbits y hy).symm)

/-- Every bit pattern but those of NaN is the one of a floating-point value. -/
theorem toBits_ofBits {bits : UInt64} (h : field bits ≠ 2047) : (Float.ofBits bits).toBits = bits := by
  have hvalid : Format.binary64.Valid bits.toBitVec := ⟨fun he => absurd ((unpackExponent_iff bits).1 he) h⟩
  exact congrArg Float.toBits (Float.ofBits_toBits (Float.ofModel ⟨bits, hvalid⟩))

theorem isFinite_eq (x : Float) : x.isFinite = decide (field x.toBits ≠ 2047) := by
  rw [Bool.eq_iff_iff, decide_eq_true_eq, ne_eq, ← unpackExponent_iff]
  show (UnpackedFloat.unpack .binary64 x.toBits.toBitVec).isFinite = true ↔ _
  unfold UnpackedFloat.unpack
  dsimp only
  split
  · split <;> simp_all [UnpackedFloat.isFinite]
  · split
    · split <;> simp_all [UnpackedFloat.isFinite]
    · simp_all [UnpackedFloat.isFinite]

end Model

theorem isFinite_iff {x : Float} : x.isFinite = true ↔ ∃ negative m q, ofFloat x = .finite negative m q := by
  rw [isFinite_eq, decide_eq_true_eq]
  rcases ofBits_cases x.toBits with ⟨hf, -, h⟩ | ⟨_, hf, -, h, -⟩ | ⟨negative, m, q, hf, h, -⟩
  · simp [hf, ofFloat, h]
  · simp [hf, ofFloat, h]
  · simp [hf, ofFloat, h]

/-- A finite double is put together again from its sign, significand and exponent. -/
theorem eq_of_finite {x : Float} {negative : Bool} {m : Nat} {q : Int} (h : ofFloat x = .finite negative m q) :
    Canonical m q ∧ x = Float.ofBits (UInt64.ofNat (encode m q + signBits negative)) := by
  rcases ofBits_cases x.toBits with ⟨_, _, h'⟩ | ⟨_, _, _, h', _⟩ | ⟨negative', m', q', -, h', hc, hbits⟩
  · cases h.symm.trans h'
  · cases h.symm.trans h'
  · obtain ⟨rfl, rfl, rfl⟩ := Double.finite.inj (h.symm.trans h')
    refine ⟨hc, ?_⟩
    rw [← hbits, UInt64.ofNat_toNat, Float.ofBits_toBits]

/-- What a finite double stands for is read back from its bit pattern. -/
theorem ofFloat_encode {m : Nat} {q : Int} (hc : Canonical m q) (negative : Bool) :
    ofFloat (Float.ofBits (UInt64.ofNat (encode m q + signBits negative))) = .finite negative m q := by
  have hlt := hc.encode_lt
  have hsign : signBits negative = 0 ∨ signBits negative = 2 ^ 63 := by
    cases negative with
    | false => exact Or.inl signBits_false
    | true => exact Or.inr signBits_true
  generalize hbits : UInt64.ofNat (encode m q + signBits negative) = bits
  have hnat : bits.toNat = encode m q + signBits negative := by
    rw [← hbits]
    apply UInt64.toNat_ofNat_of_lt'
    simp only [infinityBits, pow2_eq] at hlt
    simp only [UInt64.size]
    omega
  have hfield : field bits ≠ 2047 := by
    unfold field
    rw [hnat]
    simp only [infinityBits, pow2_eq] at hlt
    omega
  unfold ofFloat
  rw [toBits_ofBits hfield]
  rcases ofBits_cases bits with ⟨h, -, -⟩ | ⟨_, h, -⟩ | ⟨negative', m', q', -, h, hc', hnat'⟩
  · exact absurd h hfield
  · exact absurd h hfield
  · have hlt' := hc'.encode_lt
    have hsum : encode m q + signBits negative = encode m' q' + signBits negative' := hnat.symm.trans hnat'
    simp only [infinityBits, pow2_eq] at hlt hlt'
    have hneg : negative = negative' := by
      cases negative <;> cases negative' <;> simp only [signBits_true, signBits_false] at hsum ⊢ <;> omega
    subst hneg
    obtain ⟨rfl, rfl⟩ := hc.encode_inj hc' (Nat.add_right_cancel hsum)
    exact h

/-- The sign of a finite double is the first bit of its pattern. -/
theorem negative_of_finite {x : Float} {negative : Bool} {m : Nat} {q : Int} (h : ofFloat x = .finite negative m q) :
    negative = decide (pow2 63 ≤ x.toBits.toNat) := by
  unfold ofFloat ofBits at h
  dsimp only at h
  split at h
  · split at h <;> cases h
  · split at h
    · cases h; rfl
    · cases h; rfl

/-- A floating-point value is determined by what it stands for. -/
theorem ofFloat_inj {x y : Float} (h : ofFloat x = ofFloat y) : x = y := by
  rcases ofBits_cases y.toBits with ⟨-, -, hy⟩ | ⟨negative, -, -, hy, hbits⟩ | ⟨negative, m, q, -, hy, -, hbits⟩
  · exact eq_of_nan (h.trans hy) hy
  · rcases ofBits_cases x.toBits with ⟨-, -, hx⟩ | ⟨negative', -, -, hx, hbits'⟩ | ⟨_, _, _, -, hx, -⟩
    · cases hx.symm.trans (h.trans hy)
    · obtain rfl := Double.infinite.inj (hx.symm.trans (h.trans hy))
      exact Float.toBits_inj.1 (UInt64.toNat_inj.1 (hbits'.trans hbits.symm))
    · cases hx.symm.trans (h.trans hy)
  · rw [(eq_of_finite (h.trans hy)).2, (eq_of_finite hy).2]

end StackLang.Binary.Double
