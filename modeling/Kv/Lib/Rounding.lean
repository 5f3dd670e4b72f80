import Mathlib.Algebra.Order.Ring.Nat
import Mathlib.Data.Nat.Log
import Mathlib.Tactic.Ring

namespace Rounding

/-- The multiple of `u` nearest to `x`; of two that are equally near, the even one. -/
def nearest (x u : Nat) : Nat :=
  if 2 * (x % u) < u ∨ (2 * (x % u) = u ∧ x / u % 2 = 0) then x / u * u else (x / u + 1) * u

/-- The distance between the floating-point numbers with `prec` bits around `x`. -/
def ulp (prec x : Nat) : Nat := 2 ^ (x.log2 + 1 - prec)

/-- `x` in floating point with `prec` bits and exponents without bounds. -/
def round (prec x : Nat) : Nat := nearest x (ulp prec x)

section

variable {x u : Nat}

theorem le_nearest {a : Nat} (hdvd : u ∣ a) (hle : a ≤ x) : a ≤ nearest x u := by
  obtain ⟨k, rfl⟩ := hdvd
  rcases Nat.eq_zero_or_pos u with rfl | hpos
  · simp
  · have hk : k ≤ x / u := (Nat.le_div_iff_mul_le hpos).mpr (by rwa [Nat.mul_comm])
    have hdown : u * k ≤ x / u * u := by
      rw [Nat.mul_comm]
      exact Nat.mul_le_mul_right u hk
    unfold nearest
    split
    · exact hdown
    · exact hdown.trans (Nat.mul_le_mul_right u (Nat.le_succ _))

theorem nearest_le {b : Nat} (hdvd : u ∣ b) (hle : x ≤ b) : nearest x u ≤ b := by
  obtain ⟨k, rfl⟩ := hdvd
  rcases Nat.eq_zero_or_pos u with rfl | hpos
  · simp [nearest]
  · have hdivmod : u * (x / u) + x % u = x := Nat.div_add_mod x u
    unfold nearest
    split
    · exact (Nat.div_mul_le_self x u).trans hle
    · next hup =>
      -- Rounding up needs a remainder, so the next multiple is not beyond `b`.
      have hrest : 0 < x % u := by
        by_contra hzero
        exact hup (.inl (by omega))
      have hlt : u * (x / u) < u * k := by omega
      have hk : x / u + 1 ≤ k := Nat.lt_of_mul_lt_mul_left hlt
      rw [Nat.mul_comm u k]
      exact Nat.mul_le_mul_right u hk

/-- Rounding is off by at most half the distance. -/
theorem two_mul_le_nearest (hpos : 0 < u) : 2 * x ≤ 2 * nearest x u + u := by
  have hdivmod : u * (x / u) + x % u = x := Nat.div_add_mod x u
  have hmod : x % u < u := Nat.mod_lt x hpos
  have hcomm : x / u * u = u * (x / u) := Nat.mul_comm _ _
  unfold nearest
  split
  · omega
  · rw [Nat.add_mul, hcomm]
    omega

end

variable {prec k x : Nat}

theorem ulp_pos : 0 < ulp prec x := Nat.two_pow_pos _

theorem ulp_dvd (hprec : 0 < prec) (hx : x < 2 ^ (prec + k)) : ulp prec x ∣ 2 ^ k := by
  refine Nat.pow_dvd_pow 2 ?_
  rcases Nat.eq_zero_or_pos x with rfl | hpos
  · rw [Nat.log2_zero]
    omega
  · have hlog : x.log2 < prec + k := (Nat.log2_lt (Nat.pos_iff_ne_zero.mp hpos)).mpr hx
    omega

theorem round_of_lt (hprec : 0 < prec) (hx : x < 2 ^ prec) : round prec x = x := by
  have hdvd : ulp prec x ∣ x := by
    have hone : ulp prec x ∣ 2 ^ 0 := ulp_dvd hprec hx
    exact (Nat.dvd_one.mp hone) ▸ Nat.one_dvd x
  exact Nat.le_antisymm (nearest_le hdvd le_rfl) (le_nearest hdvd le_rfl)

end Rounding
