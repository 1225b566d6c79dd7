import ConceptAtlas.Decimal.Binary64

/-!
# Doubles without a magnitude

A double is its bits, and of the many patterns of bits that could stand for what is no number only
one is in use. So there is one double that is not a number, and there are two that are infinite; a
double that is classified as one of them is that one (`eq_notANumber`, `eq_infinity`).
-/

namespace ConceptAtlas.Decimal

open Float.Model

/-- Doubles with the same bits are the same. -/
theorem eq_of_toBits_eq {x y : Float} (h : x.toBits = y.toBits) : x = y := by
  obtain ⟨⟨b, hb⟩⟩ := x
  obtain ⟨⟨c, hc⟩⟩ := y
  obtain rfl : b = c := h
  rfl

theorem toNat_unpackExponent (b : BitVec 64) :
    (@UnpackedFloat.unpackExponent .binary64 b).toNat = b.toNat / Nat.pow 2 52 % 2048 := by
  simp [UnpackedFloat.unpackExponent, Nat.shiftRight_eq_div_pow]

theorem toNat_unpackMantissa (b : BitVec 64) :
    (@UnpackedFloat.unpackMantissa .binary64 b).toNat = b.toNat % Nat.pow 2 52 := by
  simp [UnpackedFloat.unpackMantissa]

namespace Binary64

variable {x : Float} {negative : Bool}

/-- **There is one double that is not a number.** -/
theorem eq_notANumber (h : classify x = .notANumber) : x = notANumber := by
  unfold classify at h
  dsimp only at h
  split at h
  · rename_i hfield
    split at h
    · nomatch h
    · rename_i hfraction
      refine eq_of_toBits_eq (UInt64.toBitVec_inj.1 ?_)
      have hnan : notANumber.toBits.toBitVec = UnpackedFloat.packedNaN .binary64 := by
        decide +kernel
      rw [hnan]
      -- The bits of a double are valid, so what stands for no number is the canonical pattern.
      refine x.toModel.valid.eq_packedNaN (BitVec.eq_of_toNat_eq ?_) fun hzero ↦ hfraction ?_
      · rw [toNat_unpackExponent]
        exact hfield
      · have hmantissa := toNat_unpackMantissa x.toModel.toBits.toBitVec
        rw [hzero] at hmantissa
        exact hmantissa.symm
  · split at h <;> nomatch h

/-- **There is one infinite double of each sign.** -/
theorem eq_infinity (h : classify x = .infinite negative) : x = infinity negative := by
  unfold classify at h
  dsimp only at h
  split at h
  · rename_i hfield
    split at h
    · rename_i hfraction
      cases h
      refine eq_of_toBits_eq (UInt64.toNat_inj.1 ?_)
      have hlt : x.toBits.toNat < 2 ^ 64 := x.toBits.toNat_lt
      simp only [Nat.pow_eq] at hfield hfraction ⊢
      -- The sign is the only bit that the field and the fraction leave open.
      by_cases hsign : x.toBits.toNat / 2 ^ 63 = 1
      · have hminus : (infinity true).toBits.toNat = 2 ^ 63 + 2047 * 2 ^ 52 := by decide +kernel
        rw [beq_iff_eq.2 hsign, hminus]
        omega
      · have hplus : (infinity false).toBits.toNat = 2047 * 2 ^ 52 := by decide +kernel
        rw [beq_eq_false_iff_ne.2 hsign, hplus]
        omega
    · nomatch h
  · split at h <;> nomatch h

end Binary64

end ConceptAtlas.Decimal
