import Mathlib
import ConceptAtlas.Proofs.Decimal.Special

/-!
# When two doubles are equal

A double stands for a rational number, for an infinity, or for no number (`Number`). Doubles compare
as what they stand for: zero has two spellings, and everything else has one (`beq_iff_number_eq`).

One spelling rests on the form that the fields of a double can have: a mantissa of 53 bits, or the
least exponent (`Binary64.Canonical`). Two magnitudes of this form that are the same number are the
same magnitude, since a larger exponent would need a mantissa that is too short for it
(`Canonical.eq_of_toRat_eq`).
-/

namespace ConceptAtlas.Decimal

open Float.Model

/-! ### Magnitudes -/

namespace Binary64

variable {a b : Binary64} {x y : Float} {negative : Bool}

/-- The number that a magnitude is. -/
def toRat (b : Binary64) : ℚ := b.mantissa * 2 ^ b.exponent

theorem toRat_nonneg (b : Binary64) : 0 ≤ b.toRat :=
  mul_nonneg (Nat.cast_nonneg _) (zpow_nonneg (by norm_num) _)

theorem toRat_eq_zero_iff : b.toRat = 0 ↔ b.mantissa = 0 := by
  rw [toRat, mul_eq_zero, Nat.cast_eq_zero]
  exact or_iff_left (zpow_ne_zero _ (by norm_num))

theorem ratio_snd_ne_zero (b : Binary64) : b.ratio.2 ≠ 0 := by
  rw [ratio]
  split
  · exact one_ne_zero
  · exact pow_ne_zero _ two_ne_zero

/-- The ratio of a magnitude is its number. -/
theorem ratio_fst_eq (b : Binary64) : (b.ratio.1 : ℚ) = b.toRat * b.ratio.2 := by
  rw [ratio, toRat]
  split
  · rename_i h
    obtain ⟨k, hk⟩ := Int.eq_ofNat_of_zero_le h
    simp [hk]
  · rename_i h
    obtain ⟨k, hk⟩ := Int.eq_ofNat_of_zero_le (a := -b.exponent) (by omega)
    obtain hexp : b.exponent = -(k : ℤ) := by omega
    simp [hexp]

/-- The form of the magnitudes that doubles have. -/
structure Canonical (b : Binary64) : Prop where
  short : b.mantissa < 2 ^ 53
  least : minExponent ≤ b.exponent
  full : 2 ^ 52 ≤ b.mantissa ∨ b.exponent = minExponent

theorem Canonical.exponent_le (ha : a.Canonical) (hb : b.Canonical) (h : a.toRat = b.toRat) :
    b.exponent ≤ a.exponent := by
  by_contra hlt
  rw [not_le] at hlt
  obtain ⟨k, hk⟩ : ∃ k : ℕ, b.exponent = a.exponent + (k + 1) :=
    ⟨(b.exponent - a.exponent - 1).toNat, by omega⟩
  have hfull : 2 ^ 52 ≤ b.mantissa := by
    refine hb.full.resolve_right fun hmin ↦ ?_
    have := ha.least
    omega
  have hmantissa : a.mantissa = b.mantissa * 2 ^ (k + 1) := by
    have hexp : (2 : ℚ) ^ b.exponent = 2 ^ (k + 1) * 2 ^ a.exponent := by
      rw [hk, add_comm a.exponent, zpow_add₀ two_ne_zero]
      norm_cast
    rw [toRat, toRat, hexp, ← mul_assoc] at h
    have := mul_right_cancel₀ (zpow_ne_zero _ two_ne_zero) h
    exact_mod_cast this
  have hlong : 2 ^ 53 ≤ a.mantissa := by
    calc 2 ^ 53 = 2 ^ 52 * 2 := by norm_num
      _ ≤ b.mantissa * 2 ^ (k + 1) := Nat.mul_le_mul hfull (Nat.le_self_pow k.succ_ne_zero 2)
      _ = a.mantissa := hmantissa.symm
  exact absurd ha.short (not_lt.2 hlong)

/-- A number is at most one magnitude. -/
theorem Canonical.eq_of_toRat_eq (ha : a.Canonical) (hb : b.Canonical) (h : a.toRat = b.toRat) :
    a = b := by
  have hexp : a.exponent = b.exponent :=
    le_antisymm (hb.exponent_le ha h.symm) (ha.exponent_le hb h)
  obtain ⟨m, e⟩ := a
  obtain ⟨n, f⟩ := b
  obtain rfl : e = f := hexp
  have hmantissa : (m : ℚ) = n := mul_right_cancel₀ (zpow_ne_zero _ two_ne_zero) h
  rw [Nat.cast_injective hmantissa]

/-! ### Fields -/

theorem canonical_of_classify (h : classify x = .finite negative b) : b.Canonical := by
  unfold classify at h
  simp only [Nat.pow_eq] at h
  split at h
  · split at h <;> nomatch h
  · split at h
    · cases h
      exact ⟨by dsimp only; omega, le_rfl, .inr rfl⟩
    · cases h
      exact ⟨by dsimp only; omega, by simp only [minExponent]; omega, .inl (by simp)⟩

/-- The bits of a finite double are its sign and its magnitude. -/
theorem toNat_toBits_of_classify (h : classify x = .finite negative b) :
    x.toBits.toNat = (if negative then 2 ^ 63 else 0) +
      if b.mantissa < 2 ^ 52 then b.mantissa
      else (b.exponent + 1075).toNat * 2 ^ 52 + (b.mantissa - 2 ^ 52) := by
  have hlt : x.toBits.toNat < 2 ^ 64 := x.toBits.toNat_lt
  unfold classify at h
  simp only [Nat.pow_eq] at h
  split at h
  · split at h <;> nomatch h
  · split at h
    · cases h
      simp only [beq_iff_eq]
      split <;> split <;> omega
    · cases h
      simp only [beq_iff_eq]
      split <;> split <;> omega

theorem eq_of_classify_eq (hx : classify x = .finite negative b)
    (hy : classify y = .finite negative b) : x = y :=
  eq_of_toBits_eq (UInt64.toNat_inj.1
    ((toNat_toBits_of_classify hx).trans (toNat_toBits_of_classify hy).symm))

/-- A double that is zero has no bit but its sign. -/
theorem exists_packedZero (h : classify x = .finite negative b) (hzero : b.mantissa = 0) :
    ∃ s, x.toBits.toBitVec = UnpackedFloat.packedZero .binary64 s := by
  have hbits := toNat_toBits_of_classify h
  rw [hzero, if_pos (show 0 < 2 ^ 52 by norm_num)] at hbits
  cases negative with
  | true => exact ⟨.negative, BitVec.eq_of_toNat_eq (hbits.trans (by decide))⟩
  | false => exact ⟨.positive, BitVec.eq_of_toNat_eq (hbits.trans (by decide))⟩

end Binary64

/-! ### Numbers -/

/-- What a double stands for. -/
inductive Number
  | rational (q : ℚ)
  | infinite (negative : Bool)
  | notANumber

/-- The number that a double stands for. -/
def number (x : Float) : Number :=
  match Binary64.classify x with
  | .finite negative b => .rational (if negative then -b.toRat else b.toRat)
  | .infinite negative => .infinite negative
  | .notANumber => .notANumber

variable {x y : Float}

theorem number_eq_notANumber_iff : number x = .notANumber ↔
    x.toBits.toBitVec = UnpackedFloat.packedNaN .binary64 := by
  have hnan : notANumber.toBits.toBitVec = UnpackedFloat.packedNaN .binary64 := by decide +kernel
  constructor
  · intro h
    have hx : Binary64.classify x = .notANumber := by
      unfold number at h
      split at h <;> first | assumption | nomatch h
    rw [Binary64.eq_notANumber hx, hnan]
  · intro h
    obtain rfl : x = notANumber := eq_of_toBits_eq (UInt64.toBitVec_inj.1 (h.trans hnan.symm))
    have hclass : Binary64.classify notANumber = .notANumber := by decide +kernel
    rw [number, hclass]

theorem isNaN_iff : x.isNaN = true ↔ number x = .notANumber :=
  (UnpackedFloat.isNaN_unpack_iff_of_valid x.toModel.valid).trans number_eq_notANumber_iff.symm

/-- Both spellings of zero stand for it. -/
theorem number_of_packedZero {s : UnpackedFloat.Sign}
    (h : x.toBits.toBitVec = UnpackedFloat.packedZero .binary64 s) : number x = .rational 0 := by
  have hclass : ∃ negative, Binary64.classify x = .finite negative ⟨0, Binary64.minExponent⟩ := by
    have hbits : x.toBits = ⟨UnpackedFloat.packedZero .binary64 s⟩ := UInt64.toBitVec_inj.1 h
    rw [Binary64.classify, hbits]
    cases s with
    | negative => exact ⟨true, by decide +kernel⟩
    | positive => exact ⟨false, by decide +kernel⟩
  obtain ⟨negative, hx⟩ := hclass
  have hzero : Binary64.toRat ⟨0, Binary64.minExponent⟩ = 0 := Binary64.toRat_eq_zero_iff.2 rfl
  rw [number, hx]
  simp [hzero]

/-- The sign and the magnitude of a number that is not zero are known from it. -/
theorem signed_injective {m n : Bool} {p q : ℚ} (hp : 0 ≤ p) (hq : 0 ≤ q)
    (h : (if m then -p else p) = if n then -q else q) : p = q ∧ (p ≠ 0 → m = n) := by
  cases m <;> cases n <;> simp only [Bool.false_eq_true, if_false, if_true] at h
  · exact ⟨h, fun _ ↦ rfl⟩
  · obtain rfl : p = 0 := by linarith
    exact ⟨by linarith, fun hne ↦ absurd rfl hne⟩
  · obtain rfl : p = 0 := by linarith
    exact ⟨by linarith, fun hne ↦ absurd rfl hne⟩
  · exact ⟨neg_injective h, fun _ ↦ rfl⟩

/-- Doubles that stand for the same number are the same, or each of them is a zero. -/
theorem eq_or_zero_of_number_eq (h : number x = number y) : x = y ∨
    ∃ s t, x.toBits.toBitVec = UnpackedFloat.packedZero .binary64 s ∧
      y.toBits.toBitVec = UnpackedFloat.packedZero .binary64 t := by
  cases hx : Binary64.classify x with
  | finite m a =>
    cases hy : Binary64.classify y with
    | finite n b =>
      simp only [number, hx, hy, Number.rational.injEq] at h
      obtain ⟨hmagnitude, hsign⟩ := signed_injective a.toRat_nonneg b.toRat_nonneg h
      obtain rfl : a = b := (Binary64.canonical_of_classify hx).eq_of_toRat_eq
        (Binary64.canonical_of_classify hy) hmagnitude
      by_cases hzero : a.mantissa = 0
      · obtain ⟨s, hs⟩ := Binary64.exists_packedZero hx hzero
        obtain ⟨t, ht⟩ := Binary64.exists_packedZero hy hzero
        exact .inr ⟨s, t, hs, ht⟩
      · obtain rfl : m = n := hsign (mt Binary64.toRat_eq_zero_iff.1 hzero)
        exact .inl (Binary64.eq_of_classify_eq hx hy)
    | infinite n => simp [number, hx, hy] at h
    | notANumber => simp [number, hx, hy] at h
  | infinite m =>
    cases hy : Binary64.classify y with
    | infinite n =>
      obtain rfl : m = n := by simpa [number, hx, hy] using h
      exact .inl ((Binary64.eq_infinity hx).trans (Binary64.eq_infinity hy).symm)
    | finite n b => simp [number, hx, hy] at h
    | notANumber => simp [number, hx, hy] at h
  | notANumber =>
    have hy : number y = .notANumber := by rw [← h, number, hx]
    rw [number_eq_notANumber_iff] at hy
    have hx' : number x = .notANumber := by rw [number, hx]
    rw [number_eq_notANumber_iff] at hx'
    exact .inl (eq_of_toBits_eq (UInt64.toBitVec_inj.1 (hx'.trans hy.symm)))

/-- **Doubles are equal if they stand for the same number.** -/
theorem beq_iff_number_eq : (x == y) = true ↔ number x = number y ∧ number x ≠ .notANumber := by
  have hbeq : (x == y) = true ↔ _ :=
    UnpackedFloat.unpack_beq_unpack_iff x.toModel.valid y.toModel.valid
  rw [hbeq]
  constructor
  · rintro ⟨hx, hy, hbits | ⟨hx₀, hy₀⟩ | ⟨hx₀, hy₀⟩⟩
    · obtain rfl : x = y := eq_of_toBits_eq (UInt64.toBitVec_inj.1 hbits)
      exact ⟨rfl, mt number_eq_notANumber_iff.1 hx⟩
    · exact ⟨(number_of_packedZero hx₀).trans (number_of_packedZero hy₀).symm,
        mt number_eq_notANumber_iff.1 hx⟩
    · exact ⟨(number_of_packedZero hx₀).trans (number_of_packedZero hy₀).symm,
        mt number_eq_notANumber_iff.1 hx⟩
  · rintro ⟨h, hx⟩
    refine ⟨mt number_eq_notANumber_iff.2 hx, mt number_eq_notANumber_iff.2 (h ▸ hx), ?_⟩
    rcases eq_or_zero_of_number_eq h with rfl | ⟨s, t, hx₀, hy₀⟩
    · exact .inl rfl
    · cases s <;> cases t
      · exact .inl (hx₀.trans hy₀.symm)
      · exact .inr (.inr ⟨hx₀, hy₀⟩)
      · exact .inr (.inl ⟨hx₀, hy₀⟩)
      · exact .inl (hx₀.trans hy₀.symm)

theorem number_eq_iff :
    number x = number y ↔ ((x == y) || (x.isNaN && y.isNaN)) = true := by
  rw [Bool.or_eq_true, Bool.and_eq_true, beq_iff_number_eq, isNaN_iff, isNaN_iff]
  constructor
  · intro h
    by_cases hx : number x = .notANumber
    · exact .inr ⟨hx, h ▸ hx⟩
    · exact .inl ⟨h, hx⟩
  · rintro (⟨h, -⟩ | ⟨hx, hy⟩)
    · exact h
    · exact hx.trans hy.symm

end ConceptAtlas.Decimal
