import Mathlib.Tactic.Ring
import ConceptAtlas.Decimal.Binary64

/-!
# Integers as doubles

The largest double is `2 ^ 1024 - 2 ^ 971`, and the next one would be `2 ^ 1024`. An integer is
rounded to the nearer of the two, half to the even mantissa, which is that of the one that is
missing. So an integer is too large for a double from the middle on, with the middle
(`ofInt?_eq_none_iff`); up to there it may be larger than every double and is still rounded to one.
-/

namespace ConceptAtlas.Decimal

/-- Below an even number a quotient is rounded up to it from the middle on. -/
theorem roundDiv_eq_even_iff {n h k : Nat} (hn : n < (2 * k + 2) * (2 * h)) :
    roundDiv n (2 * h) = 2 * k + 2 ↔ (4 * k + 3) * h ≤ n := by
  have hpos : 0 < 2 * h := Nat.pos_of_ne_zero fun e ↦ by simp [e] at hn
  have hsplit : 2 * h * (n / (2 * h)) + n % (2 * h) = n := Nat.div_add_mod n (2 * h)
  have hr : n % (2 * h) < 2 * h := Nat.mod_lt n hpos
  have hq : n / (2 * h) < 2 * k + 2 := Nat.div_lt_of_lt_mul (Nat.mul_comm .. ▸ hn)
  have hlast : n / (2 * h) = 2 * k + 1 ↔ (2 * k + 1) * (2 * h) ≤ n := by
    rw [← Nat.le_div_iff_mul_le hpos]
    omega
  have hmiddle : (4 * k + 3) * h = (2 * k + 1) * (2 * h) + h := by ring
  constructor
  · intro hround
    have hodd : n / (2 * h) = 2 * k + 1 := by
      simp only [roundDiv] at hround
      split at hround
      · omega
      · split at hround
        · omega
        · split at hround <;> omega
    have hhalf : h ≤ n % (2 * h) := by
      by_contra hless
      rw [roundDiv, if_pos (by omega)] at hround
      omega
    rw [hodd, Nat.mul_comm] at hsplit
    omega
  · intro hle
    have hodd : n / (2 * h) = 2 * k + 1 := hlast.2 (by omega)
    rw [hodd, Nat.mul_comm (2 * h)] at hsplit
    simp only [roundDiv, hodd]
    split
    · omega
    · split
      · rfl
      · rw [if_neg (by omega)]

namespace Binary64

/-- An integer has its highest bit at the top of the mantissa. -/
theorem ratioExponent_one {n : Nat} (h : 0 < n) : ratioExponent n 1 = (n.log2 : Int) - 52 := by
  have hle : 2 ^ n.log2 ≤ n := Nat.log2_self_le h.ne'
  have hlog : ((Nat.log2 1 : Nat) : Int) = 0 := by decide
  rw [ratioExponent, hlog, sub_zero, minExponent, if_neg, max_eq_right (by omega)]
  · ring
  · split
    · rename_i hlarge
      have hsum : ((n.log2 : Int) - 53).toNat + 53 = n.log2 := by omega
      rw [hsum, Nat.one_mul, decide_eq_true_iff]
      exact Nat.not_lt.2 hle
    · rename_i hsmall
      have hsum : n.log2 + (-((n.log2 : Int) - 53)).toNat = 53 := by omega
      rw [Nat.one_mul, decide_eq_true_iff, ← hsum]
      exact Nat.not_lt.2 ((Nat.pow_add ..).trans_le (Nat.mul_le_mul_right _ hle))

/-- The highest bit of an integer decides, and one place below the top the mantissa: it is rounded
up to the next power of two or not. -/
theorem ofRatio?_one_eq_none_iff_exponent {n : Nat} (h : 0 < n) :
    ofRatio? n 1 = none ↔ 971 < (n.log2 : Int) - 52 ∨
      (n.log2 : Int) - 52 = 971 ∧ roundDiv n (2 * 2 ^ 970) = 2 * (2 ^ 52 - 1) + 2 := by
  rw [ofRatio?, if_neg (by omega), ratioExponent_one h, maxExponent]
  generalize (n.log2 : Int) - 52 = e
  have hpow (k : Nat) : Nat.pow 2 (k + 1) = 2 * 2 ^ k := Nat.pow_succ'
  have htop : e = 971 → (if 0 ≤ e then roundDiv n (1 * Nat.pow 2 e.toNat)
      else roundDiv (n * Nat.pow 2 (-e).toNat) 1) = roundDiv n (2 * 2 ^ 970) := by
    rintro rfl
    have hexponent : (971 : Int).toNat = 970 + 1 := by decide
    rw [if_pos (by decide), Nat.one_mul, hexponent]
    exact congrArg (roundDiv n) (hpow 970)
  have hhalf : Nat.pow 2 53 = 2 * (2 ^ 52 - 1) + 2 := by decide
  rw [hhalf]
  dsimp only
  generalize (if 0 ≤ e then _ else _ : Nat) = m at htop ⊢
  simp only [ite_eq_left_iff, reduceCtorEq, imp_false, Classical.not_not, apply_ite exponent]
  split
  · rename_i hround
    constructor
    · intro hlt
      rcases Int.lt_or_eq_of_le (Int.lt_add_one_iff.1 hlt) with hlt | heq
      · exact .inl hlt
      · exact .inr ⟨heq.symm, htop heq.symm ▸ hround⟩
    · omega
  · rename_i hround
    refine ⟨.inl, fun hlarge ↦ hlarge.resolve_right ?_⟩
    rintro ⟨heq, htwice⟩
    exact hround ((htop heq).trans htwice)

theorem ofRatio?_one_eq_none_iff {n : Nat} :
    ofRatio? n 1 = none ↔ (2 ^ 54 - 1) * 2 ^ 970 ≤ n := by
  -- All powers that matter are multiples of one.
  have hunit (k : Nat) : 0 < 2 ^ k := Nat.two_pow_pos k
  have hmultiple (k m : Nat) : 2 ^ (k + m) = 2 ^ k * 2 ^ m := Nat.pow_add ..
  have hmono {k m : Nat} : k ≤ m → 2 ^ k ≤ 2 ^ m := Nat.pow_le_pow_right Nat.two_pos
  specialize hunit 970
  rcases Nat.eq_zero_or_pos n with rfl | hpos
  · exact iff_of_false nofun (by omega)
  have hlower : 2 ^ n.log2 ≤ n := Nat.log2_self_le hpos.ne'
  have hupper : n < 2 ^ (n.log2 + 1) := Nat.lt_log2_self
  rw [ofRatio?_one_eq_none_iff_exponent hpos]
  rcases Nat.lt_trichotomy n.log2 1023 with hlog | hlog | hlog
  · have hless : 2 ^ (n.log2 + 1) ≤ 2 ^ (53 + 970) := hmono (by omega)
    rw [hmultiple] at hless
    omega
  · have hsum : n.log2 + 1 = 54 + 970 := by omega
    rw [hsum, hmultiple] at hupper
    rw [roundDiv_eq_even_iff (by omega)]
    omega
  · have hmore : 2 ^ (54 + 970) ≤ 2 ^ n.log2 := hmono (by omega)
    rw [hmultiple] at hmore
    omega

end Binary64

/-- The middle between the largest double and the one that would be next. -/
def overflowBound : Nat := (2 ^ 54 - 1) * 2 ^ 970

theorem middle_le_pow {m k : Nat} (h : 54 + m ≤ k) : (2 ^ 54 - 1) * 2 ^ m ≤ 2 ^ k :=
  calc (2 ^ 54 - 1) * 2 ^ m ≤ 2 ^ 54 * 2 ^ m := Nat.mul_le_mul_right _ (Nat.sub_le ..)
    _ = 2 ^ (54 + m) := (Nat.pow_add 2 54 m).symm
    _ ≤ 2 ^ k := Nat.pow_le_pow_right (by decide) h

theorem overflowBound_le_pow {k : Nat} (h : 1024 ≤ k) : overflowBound ≤ 2 ^ k := middle_le_pow h

/-- **An integer is too large for a double** from that middle on. -/
theorem ofInt?_eq_none_iff {n : Int} : ofInt? n = none ↔ overflowBound ≤ n.natAbs := by
  rw [ofInt?, Option.map_eq_none_iff, Binary64.ofRatio?_one_eq_none_iff, overflowBound]

theorem exists_ofInt?_iff {n : Int} : (∃ x, ofInt? n = some x) ↔ n.natAbs < overflowBound := by
  rw [← Nat.not_le, ← ofInt?_eq_none_iff, ← Option.isSome_iff_exists, Option.isSome_iff_ne_none]

end ConceptAtlas.Decimal
