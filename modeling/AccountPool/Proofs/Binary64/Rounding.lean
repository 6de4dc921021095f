import Mathlib.Algebra.Group.Nat.Defs
import AccountPool.Binary64.Rounding

/-!
# Rounding keeps the order

Two ratios are compared by their cross products, so everything here is a statement about natural numbers.
The quotient rounded to an integer grows with the ratio, and so does the exponent chosen for its
significand; hence of two ratios the greater one is never rounded to a lower number:
`nearestMagnitude_mono`. A product and a quotient are ratios of values in units of the least positive
number, rounded (`magnitude_mul`, `magnitude_div`), so they are ordered as the exact ones are.
-/

namespace AccountPool.Binary64

/-! ## Quotients rounded to integers -/

/-- The rounded quotient is one of the two integers around the ratio. -/
theorem roundDiv_cases (numerator denominator : Nat) :
    roundDiv numerator denominator = numerator / denominator ∨
      roundDiv numerator denominator = numerator / denominator + 1 := by
  unfold roundDiv
  dsimp only
  split
  · exact .inr rfl
  · exact .inl rfl

variable {n d n' d' : Nat}

/-- The rounded quotient grows with the ratio. -/
theorem roundDiv_mono (hd : 0 < d) (hd' : 0 < d') (h : n * d' ≤ n' * d) :
    roundDiv n d ≤ roundDiv n' d' := by
  have hn : d * (n / d) + n % d = n := Nat.div_add_mod n d
  have hn' : d' * (n' / d') + n' % d' = n' := Nat.div_add_mod n' d'
  have hquotient : n / d ≤ n' / d' := by
    refine (Nat.le_div_iff_mul_le hd').2 (Nat.le_of_mul_le_mul_right ?_ hd)
    calc n / d * d' * d = n / d * d * d' := Nat.mul_right_comm ..
      _ ≤ n * d' := Nat.mul_le_mul_right _ (Nat.div_mul_le_self n d)
      _ ≤ n' * d := h
  rcases Nat.lt_or_eq_of_le hquotient with hlt | heq
  · have hup := roundDiv_cases n d
    have hup' := roundDiv_cases n' d'
    omega
  · -- With one quotient the ratios differ by their remainders only.
    have hremainder : d' * (2 * (n % d)) ≤ d * (2 * (n' % d')) := by
      rw [← hn, ← hn', heq] at h
      grind
    have habove (hr : d < 2 * (n % d)) : d' < 2 * (n' % d') := by
      have hstrict := Nat.mul_lt_mul_of_pos_left hr hd'
      exact Nat.lt_of_mul_lt_mul_left (a := d) (by rw [Nat.mul_comm d d']; omega)
    have htie (hr : d = 2 * (n % d)) : d' ≤ 2 * (n' % d') := by
      rw [← hr, Nat.mul_comm d' d] at hremainder
      exact Nat.le_of_mul_le_mul_left hremainder hd
    unfold roundDiv
    dsimp only
    rw [heq]
    split <;> split <;> omega

/-- The rounded quotient depends on the ratio alone. -/
theorem roundDiv_congr (hd : 0 < d) (hd' : 0 < d') (h : n * d' = n' * d) :
    roundDiv n d = roundDiv n' d' :=
  Nat.le_antisymm (roundDiv_mono hd hd' (Nat.le_of_eq h)) (roundDiv_mono hd' hd (Nat.le_of_eq h.symm))

/-- A ratio up to an integer is not rounded above it. -/
theorem roundDiv_le {bound : Nat} (hd : 0 < d) (h : n ≤ bound * d) : roundDiv n d ≤ bound := by
  have hbound : roundDiv bound 1 = bound := by simp [roundDiv, Nat.mod_one]
  rw [← hbound]
  exact roundDiv_mono hd Nat.one_pos (by rwa [Nat.mul_one])

/-- A ratio from an integer on is not rounded below it. -/
theorem le_roundDiv {bound : Nat} (hd : 0 < d) (h : bound * d ≤ n) : bound ≤ roundDiv n d := by
  have hbound : roundDiv bound 1 = bound := by simp [roundDiv, Nat.mod_one]
  rw [← hbound]
  exact roundDiv_mono Nat.one_pos hd (by rwa [Nat.mul_one])

/-! ## Exponents -/

/-- A power of two may be moved to either side of a comparison. -/
theorem shiftUp_le_shiftUp {e : Int} {a b : Nat} (h : e = a - b) :
    shiftUp d e ≤ shiftUp n (-e) ↔ d * 2 ^ a ≤ n * 2 ^ b := by
  have ha : 2 ^ a = 2 ^ e.toNat * 2 ^ min a b := by
    rw [← Nat.pow_add]
    congr 1
    omega
  have hb : 2 ^ b = 2 ^ (-e).toNat * 2 ^ min a b := by
    rw [← Nat.pow_add]
    congr 1
    omega
  rw [ha, hb, ← Nat.mul_assoc, ← Nat.mul_assoc]
  exact (Nat.mul_le_mul_right_iff (Nat.two_pow_pos _)).symm

/-- The exponent of a ratio is the greatest whose power of two is not above the ratio. -/
theorem le_floorLog2 (hn : 0 < n) (hd : 0 < d) {a b : Nat} :
    (a : Int) - b ≤ floorLog2 n d ↔ d * 2 ^ a ≤ n * 2 ^ b := by
  have hlow := Nat.log2_self_le (Nat.ne_of_gt hn)
  have hhigh := Nat.lt_log2_self (n := n)
  have hlow' := Nat.log2_self_le (Nat.ne_of_gt hd)
  have hhigh' := Nat.lt_log2_self (n := d)
  have hguess : floorLog2 n d = (n.log2 : Int) - d.log2 ∨
      floorLog2 n d = (n.log2 : Int) - d.log2 - 1 := by
    unfold floorLog2
    dsimp only
    split
    · exact .inl rfl
    · exact .inr rfl
  rcases Int.lt_trichotomy ((a : Int) - b) ((n.log2 : Int) - d.log2) with hlt | heq | hgt
  · -- Below the guess the leading bits alone decide.
    have hle : d * 2 ^ a ≤ n * 2 ^ b :=
      calc d * 2 ^ a ≤ 2 ^ (d.log2 + 1) * 2 ^ a := Nat.mul_le_mul_right _ (Nat.le_of_lt hhigh')
        _ = 2 ^ (d.log2 + 1 + a) := (Nat.pow_add ..).symm
        _ ≤ 2 ^ (n.log2 + b) := Nat.pow_le_pow_right Nat.two_pos (by omega)
        _ = 2 ^ n.log2 * 2 ^ b := Nat.pow_add ..
        _ ≤ n * 2 ^ b := Nat.mul_le_mul_right _ hlow
    exact iff_of_true (by omega) hle
  · rw [← shiftUp_le_shiftUp rfl, heq]
    unfold floorLog2
    dsimp only
    split
    · next h => exact iff_of_true (Int.le_refl _) h
    · next h => exact iff_of_false (by omega) h
  · have hlt : n * 2 ^ b < d * 2 ^ a :=
      calc n * 2 ^ b < 2 ^ (n.log2 + 1) * 2 ^ b := Nat.mul_lt_mul_of_pos_right hhigh (Nat.two_pow_pos _)
        _ = 2 ^ (n.log2 + 1 + b) := (Nat.pow_add ..).symm
        _ ≤ 2 ^ (d.log2 + a) := Nat.pow_le_pow_right Nat.two_pos (by omega)
        _ = 2 ^ d.log2 * 2 ^ a := Nat.pow_add ..
        _ ≤ d * 2 ^ a := Nat.mul_le_mul_right _ hlow'
    exact iff_of_false (by omega) (Nat.not_le.2 hlt)

/-- The least positive number is two to this power, with a negative sign. -/
@[irreducible]
def leastExponent : Nat := 1074

theorem leastExponent_eq : leastExponent = 1074 := by
  unfold leastExponent
  rfl

/-- The exponent of the last binary place of the number nearest to a ratio, counted from the least one. -/
def lastPlace (n d : Nat) : Nat :=
  (max (floorLog2 n d - 52) (-1074) + 1074).toNat

/-- A ratio is below `2 ^ 53` last places. -/
theorem lt_lastPlace (hn : 0 < n) (hd : 0 < d) : n * 2 ^ leastExponent < d * 2 ^ (lastPlace n d + 53) := by
  refine Nat.not_le.1 fun hle => ?_
  have := (le_floorLog2 hn hd).2 hle
  unfold lastPlace at this
  rw [leastExponent_eq] at this
  omega

/-- A ratio is at least `2 ^ 52` last places, unless its last place is the least one. -/
theorem lastPlace_le (hn : 0 < n) (hd : 0 < d) (h : lastPlace n d ≠ 0) :
    d * 2 ^ (lastPlace n d + 52) ≤ n * 2 ^ leastExponent := by
  refine (le_floorLog2 hn hd).1 ?_
  unfold lastPlace at h
  unfold lastPlace
  rw [leastExponent_eq]
  omega

/-- The last place grows with the ratio. -/
theorem lastPlace_mono (hn : 0 < n) (hd : 0 < d) (hn' : 0 < n') (hd' : 0 < d') (h : n * d' ≤ n' * d) :
    lastPlace n d ≤ lastPlace n' d' := by
  by_cases hzero : lastPlace n d = 0
  · omega
  · have hlow := lastPlace_le hn hd hzero
    have hlow' : d' * 2 ^ (lastPlace n d + 52) ≤ n' * 2 ^ leastExponent := by
      refine Nat.le_of_mul_le_mul_left (c := d) ?_ hd
      calc d * (d' * 2 ^ (lastPlace n d + 52)) = d' * (d * 2 ^ (lastPlace n d + 52)) :=
            Nat.mul_left_comm ..
        _ ≤ d' * (n * 2 ^ leastExponent) := Nat.mul_le_mul_left _ hlow
        _ = n * d' * 2 ^ leastExponent := by rw [← Nat.mul_assoc, Nat.mul_comm d']
        _ ≤ n' * d * 2 ^ leastExponent := Nat.mul_le_mul_right _ h
        _ = d * (n' * 2 ^ leastExponent) := by rw [Nat.mul_comm n', Nat.mul_assoc]
    have hpower := Nat.lt_of_mul_lt_mul_left (Nat.lt_of_le_of_lt hlow' (lt_lastPlace hn' hd'))
    have := (Nat.pow_lt_pow_iff_right (by decide)).1 hpower
    omega

/-! ## Nearest numbers -/

/-- The significand of the nearest number, in units of the last place. -/
theorem nearestMagnitude_eq (hn : 0 < n) (hd : 0 < d) :
    nearestMagnitude n d =
      min (lastPlace n d * fractionLimit + roundDiv (n * 2 ^ leastExponent) (d * 2 ^ lastPlace n d))
        infinityMagnitude := by
  have hexponent : max (floorLog2 n d - 52) (-1074) = (lastPlace n d : Int) - 1074 := by
    unfold lastPlace
    omega
  unfold nearestMagnitude
  rw [if_neg (Nat.ne_of_gt hn)]
  dsimp only
  rw [hexponent]
  have hplace : ((lastPlace n d : Int) - 1074 + 1074).toNat = lastPlace n d := by omega
  rw [hplace]
  congr 2
  refine roundDiv_congr ?_ (Nat.mul_pos hd (Nat.two_pow_pos _)) ?_
  · exact Nat.mul_pos hd (Nat.two_pow_pos _)
  · show n * 2 ^ (-((lastPlace n d : Int) - 1074)).toNat * (d * 2 ^ lastPlace n d) =
      n * 2 ^ leastExponent * (d * 2 ^ ((lastPlace n d : Int) - 1074).toNat)
    have hpower : 2 ^ (-((lastPlace n d : Int) - 1074)).toNat * 2 ^ lastPlace n d =
        2 ^ leastExponent * 2 ^ ((lastPlace n d : Int) - 1074).toNat := by
      rw [← Nat.pow_add, ← Nat.pow_add, leastExponent_eq]
      congr 1
      omega
    rw [Nat.mul_mul_mul_comm, hpower, Nat.mul_mul_mul_comm]

/-- The nearest number grows with the ratio. -/
theorem nearestMagnitude_mono (hd : 0 < d) (hd' : 0 < d') (h : n * d' ≤ n' * d) :
    nearestMagnitude n d ≤ nearestMagnitude n' d' := by
  rcases Nat.eq_zero_or_pos n with rfl | hn
  · exact Nat.zero_le _
  have hn' : 0 < n' := Nat.pos_of_mul_pos_right (Nat.lt_of_lt_of_le (Nat.mul_pos hn hd') h)
  rw [nearestMagnitude_eq hn hd, nearestMagnitude_eq hn' hd']
  have hplace := lastPlace_mono hn hd hn' hd' h
  refine Nat.le_min.2 ⟨Nat.le_trans (Nat.min_le_left ..) ?_, Nat.min_le_right ..⟩
  have hpos := Nat.mul_pos hd (Nat.two_pow_pos (lastPlace n d))
  have hpos' := Nat.mul_pos hd' (Nat.two_pow_pos (lastPlace n' d'))
  rcases Nat.lt_or_eq_of_le hplace with hlt | heq
  · -- A greater last place outweighs any significand.
    have hhigh : roundDiv (n * 2 ^ leastExponent) (d * 2 ^ lastPlace n d) ≤ 2 ^ 53 := by
      refine roundDiv_le hpos (Nat.le_of_lt ?_)
      rw [Nat.mul_left_comm, ← Nat.pow_add, Nat.add_comm 53]
      exact lt_lastPlace hn hd
    have hlow : 2 ^ 52 ≤ roundDiv (n' * 2 ^ leastExponent) (d' * 2 ^ lastPlace n' d') := by
      refine le_roundDiv hpos' ?_
      rw [Nat.mul_left_comm, ← Nat.pow_add, Nat.add_comm 52]
      exact lastPlace_le hn' hd' (by omega)
    unfold fractionLimit
    omega
  · rw [heq] at hpos ⊢
    refine Nat.add_le_add_left (roundDiv_mono hpos hpos' ?_) _
    calc n * 2 ^ leastExponent * (d' * 2 ^ lastPlace n' d')
        = n * d' * (2 ^ leastExponent * 2 ^ lastPlace n' d') := Nat.mul_mul_mul_comm ..
      _ ≤ n' * d * (2 ^ leastExponent * 2 ^ lastPlace n' d') := Nat.mul_le_mul_right _ h
      _ = n' * 2 ^ leastExponent * (d * 2 ^ lastPlace n' d') := Nat.mul_mul_mul_comm ..

/-- The nearest number depends on the ratio alone. -/
theorem nearestMagnitude_congr (hd : 0 < d) (hd' : 0 < d') (h : n * d' = n' * d) :
    nearestMagnitude n d = nearestMagnitude n' d' :=
  Nat.le_antisymm (nearestMagnitude_mono hd hd' (Nat.le_of_eq h))
    (nearestMagnitude_mono hd' hd (Nat.le_of_eq h.symm))

/-- No magnitude is above infinity. -/
theorem nearestMagnitude_le (n d : Nat) : nearestMagnitude n d ≤ infinityMagnitude := by
  unfold nearestMagnitude
  split
  · exact Nat.zero_le _
  · exact Nat.min_le_right ..

/-- The bits without the sign are what a number is made of. -/
theorem magnitude_ofMagnitude (negative : Bool) {magnitude : Nat} (h : magnitude ≤ infinityMagnitude) :
    (ofMagnitude negative magnitude).magnitude = magnitude := by
  unfold infinityMagnitude fractionLimit at h
  unfold ofMagnitude Binary64.magnitude signBit
  cases negative <;> simp <;> omega

/-- The bits of the nearest number. -/
theorem magnitude_nearest (negative : Bool) (n d : Nat) :
    (nearest negative n d).magnitude = nearestMagnitude n d :=
  magnitude_ofMagnitude negative (nearestMagnitude_le n d)

/-! ## Values in units of the least positive number -/

/-- The absolute value, in units of the least positive number. -/
def leastUnits (f : Binary64) : Nat :=
  f.significand * 2 ^ (max f.exponentBits 1 - 1)

/-- A significand has at most 53 bits, of which the first is set unless the exponent bits are zero. -/
theorem significand_bounds (f : Binary64) :
    f.significand < 2 * fractionLimit ∧ (f.exponentBits ≠ 0 → fractionLimit ≤ f.significand) := by
  have hfraction : f.fractionBits < fractionLimit := Nat.mod_lt _ (by decide)
  unfold significand
  split <;> omega

/-- Values are ordered as bits are. -/
theorem leastUnits_mono {f g : Binary64} (h : f.magnitude ≤ g.magnitude) :
    f.leastUnits ≤ g.leastUnits := by
  have hexponent : f.exponentBits ≤ g.exponentBits := Nat.div_le_div_right h
  unfold leastUnits
  rcases Nat.lt_or_eq_of_le hexponent with hlt | heq
  · have hf := (significand_bounds f).1
    have hg := (significand_bounds g).2 (by omega)
    rcases Nat.eq_zero_or_pos f.exponentBits with hzero | hpos
    · have hsmall : f.significand ≤ fractionLimit := by
        unfold significand
        rw [if_pos hzero]
        exact Nat.le_of_lt (Nat.mod_lt _ (by decide))
      rw [hzero]
      calc f.significand * 2 ^ (max 0 1 - 1) = f.significand := Nat.mul_one _
        _ ≤ g.significand := Nat.le_trans hsmall hg
        _ ≤ g.significand * 2 ^ (max g.exponentBits 1 - 1) := Nat.le_mul_of_pos_right _ (Nat.two_pow_pos _)
    · calc f.significand * 2 ^ (max f.exponentBits 1 - 1)
          ≤ fractionLimit * 2 * 2 ^ (max f.exponentBits 1 - 1) :=
            Nat.mul_le_mul_right _ (by omega)
        _ = fractionLimit * 2 ^ (max f.exponentBits 1 - 1 + 1) := by
            rw [Nat.mul_assoc, ← Nat.pow_succ']
        _ ≤ g.significand * 2 ^ (max g.exponentBits 1 - 1) :=
            Nat.mul_le_mul hg (Nat.pow_le_pow_right Nat.two_pos (by omega))
  · have hfraction : f.fractionBits ≤ g.fractionBits := by
      have hf := Nat.div_add_mod f.magnitude fractionLimit
      have hg := Nat.div_add_mod g.magnitude fractionLimit
      unfold exponentBits at heq
      unfold fractionBits
      rw [heq] at hf
      omega
    have hsignificand : f.significand ≤ g.significand := by
      unfold significand
      rw [heq]
      split <;> omega
    rw [heq]
    exact Nat.mul_le_mul_right _ hsignificand

/-- A value in units of the least positive number is the significand at its scale. -/
theorem scale_add (f : Binary64) : f.scale + leastExponent = (max f.exponentBits 1 - 1 : Nat) := by
  unfold scale
  rw [leastExponent_eq]
  omega

/-- The product is the exact one, rounded. -/
theorem magnitude_mul (f g : Binary64) :
    (f.mul g).magnitude = nearestMagnitude (f.leastUnits * g.leastUnits) (2 ^ (leastExponent + leastExponent)) := by
  unfold mul
  dsimp only
  rw [magnitude_nearest]
  refine nearestMagnitude_congr (Nat.mul_pos Nat.one_pos (Nat.two_pow_pos _)) (Nat.two_pow_pos _) ?_
  have hf := scale_add f
  have hg := scale_add g
  have hpower : 2 ^ (f.scale + g.scale).toNat * 2 ^ (leastExponent + leastExponent) =
      2 ^ (max f.exponentBits 1 - 1) * 2 ^ (max g.exponentBits 1 - 1) *
        2 ^ (-(f.scale + g.scale)).toNat := by
    rw [← Nat.pow_add, ← Nat.pow_add, ← Nat.pow_add]
    congr 1
    omega
  unfold leastUnits
  calc f.significand * g.significand * 2 ^ (f.scale + g.scale).toNat * 2 ^ (leastExponent + leastExponent)
      = f.significand * g.significand * (2 ^ (f.scale + g.scale).toNat * 2 ^ (leastExponent + leastExponent)) := Nat.mul_assoc ..
    _ = f.significand * g.significand * (2 ^ (max f.exponentBits 1 - 1) *
          2 ^ (max g.exponentBits 1 - 1)) * 2 ^ (-(f.scale + g.scale)).toNat := by
        rw [hpower, ← Nat.mul_assoc]
    _ = f.significand * 2 ^ (max f.exponentBits 1 - 1) *
          (g.significand * 2 ^ (max g.exponentBits 1 - 1)) * (1 * 2 ^ (-(f.scale + g.scale)).toNat) := by
        rw [Nat.mul_mul_mul_comm, Nat.one_mul]

/-- A product grows with its factors. -/
theorem mul_magnitude_mono {f g f' g' : Binary64} (hf : f.magnitude ≤ f'.magnitude)
    (hg : g.magnitude ≤ g'.magnitude) : (f.mul g).magnitude ≤ (f'.mul g').magnitude := by
  rw [magnitude_mul, magnitude_mul]
  refine nearestMagnitude_mono (Nat.two_pow_pos _) (Nat.two_pow_pos _) (Nat.mul_le_mul_right _ ?_)
  exact Nat.mul_le_mul (leastUnits_mono hf) (leastUnits_mono hg)

/-- The quotient by a number other than zero is the exact one, rounded. -/
theorem magnitude_div (f : Binary64) {g : Binary64} (hg : 0 < g.leastUnits) :
    (f.div g).magnitude = nearestMagnitude f.leastUnits g.leastUnits := by
  have hsignificand : 0 < g.significand := Nat.pos_of_mul_pos_right hg
  unfold div
  dsimp only
  rw [magnitude_nearest]
  refine nearestMagnitude_congr (Nat.mul_pos hsignificand (Nat.two_pow_pos _)) hg ?_
  have hf := scale_add f
  have hg := scale_add g
  have hpower : 2 ^ (f.scale - g.scale).toNat * 2 ^ (max g.exponentBits 1 - 1) =
      2 ^ (max f.exponentBits 1 - 1) * 2 ^ (-(f.scale - g.scale)).toNat := by
    rw [← Nat.pow_add, ← Nat.pow_add]
    congr 1
    omega
  unfold leastUnits
  show f.significand * 2 ^ (f.scale - g.scale).toNat *
      (g.significand * 2 ^ (max g.exponentBits 1 - 1)) =
    f.significand * 2 ^ (max f.exponentBits 1 - 1) *
      (g.significand * 2 ^ (-(f.scale - g.scale)).toNat)
  rw [Nat.mul_mul_mul_comm, hpower, Nat.mul_mul_mul_comm]

end AccountPool.Binary64
