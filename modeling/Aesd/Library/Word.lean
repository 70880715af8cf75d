import Mathlib

/-! Conversions between fixed-width machine words: reduction to an unsigned word and
reinterpretation as a two's complement signed word. -/
namespace Word

/-- The value of `x` converted to an unsigned word of `w` bits. -/
def unsigned (w : ℕ) (x : ℤ) : ℕ := (x % 2 ^ w).toNat

/-- The value of `x` converted to a signed word of `w` bits. -/
def signed (w : ℕ) (x : ℤ) : ℤ := Int.bmod x (2 ^ w)

lemma unsigned_of_lt {w : ℕ} {x : ℤ} (h0 : 0 ≤ x) (h : x < 2 ^ w) : unsigned w x = x.toNat := by
  rw [unsigned, Int.emod_eq_of_lt h0 h]

lemma unsigned_natCast {w n : ℕ} (h : n < 2 ^ w) : unsigned w n = n := by
  rw [unsigned_of_lt (by omega) (by exact_mod_cast h), Int.toNat_natCast]

lemma signed_of_mem {w : ℕ} {x : ℤ} (hlo : -2 ^ w ≤ 2 * x) (hhi : 2 * x < 2 ^ w) :
    signed w x = x := by
  have hp : ((2 ^ w : ℕ) : ℤ) = 2 ^ w := by push_cast; rfl
  apply Int.bmod_eq_of_le <;> omega

lemma signed_natCast {w n : ℕ} (h : 2 * n < 2 ^ w) : signed w n = n := by
  have hz : 2 * (n : ℤ) < 2 ^ w := by exact_mod_cast h
  exact signed_of_mem (by linarith [show (0 : ℤ) < 2 ^ w by positivity]) hz

lemma signed_unsigned (w : ℕ) (x : ℤ) : signed w (unsigned w x) = signed w x := by
  have hnonneg : 0 ≤ x % 2 ^ w := Int.emod_nonneg x (by positivity)
  have hp : ((2 ^ w : ℕ) : ℤ) = 2 ^ w := by push_cast; rfl
  rw [unsigned, Int.toNat_of_nonneg hnonneg, signed, signed, ← hp, Int.emod_bmod]

/-- What is read back always fits. -/
lemma signed_mem (w : ℕ) (x : ℤ) :
    -2 ^ (w + 1) ≤ 2 * signed (w + 1) x ∧ 2 * signed (w + 1) x < 2 ^ (w + 1) := by
  have hp : ((2 ^ (w + 1) : ℕ) : ℤ) = 2 * 2 ^ w := by push_cast; ring
  have hpos : 0 < 2 ^ (w + 1) := by positivity
  have hlo := Int.le_bmod (x := x) hpos
  have hhi := Int.bmod_lt (x := x) hpos
  rw [hp] at hlo hhi
  rw [signed, pow_succ]
  constructor <;> omega

/-- Of what fits a signed or an unsigned word, only what fits both is read back as positive. -/
lemma signed_nonneg {w : ℕ} {x : ℤ} (hlo : -2 ^ w ≤ 2 * x) (hhi : x < 2 ^ w)
    (h : 0 ≤ signed w x) : 0 ≤ x ∧ 2 * x < 2 ^ w := by
  rcases lt_or_ge (2 * x) (2 ^ w) with hfits | hbig
  · rw [signed_of_mem hlo hfits] at h
    exact ⟨h, hfits⟩
  · have hp : ((2 ^ w : ℕ) : ℤ) = 2 ^ w := by push_cast; rfl
    have hwraps : signed w x = signed w (x - 2 ^ w) := by
      rw [signed, signed, ← hp, Int.sub_bmod_right]
    rw [hwraps, signed_of_mem (by omega) (by omega)] at h
    omega

end Word
