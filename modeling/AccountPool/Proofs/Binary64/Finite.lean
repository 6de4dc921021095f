import AccountPool.Binary64.Shortest
import AccountPool.Proofs.Binary64.Rounding

/-!
# Numbers that stay finite

A quotient by a positive integer is finite if the dividend is (`isFinite_div_ofNat`), and so is the product
of a 64-bit integer and a power of ten that is at most `belowGreatest` (`isFinite_mul_pow10`). The shortest
digits of a finite number denote a value in the interval that rounds to it, hence at most `belowGreatest`
unless the number is a greatest one: `shortest_le`.
-/

namespace AccountPool.Binary64

/-! ## Finite results -/

/-- The greatest finite number. -/
def greatest : Binary64 :=
  ofMagnitude false (infinityMagnitude - 1)

/-- A number is finite if it is not above the greatest one. -/
theorem isFinite_iff {f : Binary64} : f.isFinite = true ↔ f.magnitude ≤ greatest.magnitude := by
  have hgreatest : greatest.magnitude + 1 = infinityMagnitude := by decide
  unfold isFinite
  rw [decide_eq_true_iff]
  omega

/-- A number that is not above a finite one is finite. -/
theorem isFinite_of_le {f g : Binary64} (hg : g.isFinite = true) (h : f.magnitude ≤ g.magnitude) :
    f.isFinite = true :=
  isFinite_iff.2 (Nat.le_trans h (isFinite_iff.1 hg))

/-- The sign does not matter. -/
theorem isFinite_neg {f : Binary64} (hf : f.isFinite = true) : f.neg.isFinite = true := by
  refine isFinite_of_le hf (Nat.le_of_eq (magnitude_ofMagnitude _ ?_))
  unfold isFinite at hf
  rw [decide_eq_true_iff] at hf
  exact Nat.le_of_lt hf

/-- Zero of either sign is finite. -/
theorem isFinite_zero (negative : Bool) : (ofMagnitude negative 0).isFinite = true := by
  cases negative <;> decide

/-- Integers are rounded in order. -/
theorem magnitude_ofNat_mono {m n : Nat} (h : m ≤ n) : (ofNat m).magnitude ≤ (ofNat n).magnitude := by
  unfold ofNat
  rw [magnitude_nearest, magnitude_nearest]
  exact nearestMagnitude_mono Nat.one_pos Nat.one_pos (Nat.mul_le_mul_right 1 h)

/-- Integers of 64 bits are finite. -/
theorem isFinite_ofNat {n : Nat} (h : n < 0x10000000000000000) : (ofNat n).isFinite = true :=
  isFinite_of_le (by decide +kernel : (ofNat 0x10000000000000000).isFinite = true)
    (magnitude_ofNat_mono (Nat.le_of_lt h))

/-- A quotient by a positive integer is finite if the dividend is. -/
theorem isFinite_div_ofNat {f : Binary64} (hf : f.isFinite = true) {n : Nat} (hn : 0 < n) :
    (f.div (ofNat n)).isFinite = true := by
  have hone : 0 < (ofNat 1).leastUnits := by decide +kernel
  have hunits : (ofNat 1).leastUnits ≤ (ofNat n).leastUnits := leastUnits_mono (magnitude_ofNat_mono hn)
  have hgreatest : (greatest.div (ofNat 1)).isFinite = true := by decide +kernel
  refine isFinite_of_le hgreatest ?_
  rw [magnitude_div f (Nat.lt_of_lt_of_le hone hunits), magnitude_div greatest hone]
  refine nearestMagnitude_mono (Nat.lt_of_lt_of_le hone hunits) hone ?_
  exact Nat.mul_le_mul (leastUnits_mono (isFinite_iff.1 hf)) hunits

/-- A quotient by a power of ten is finite if the dividend is. -/
theorem isFinite_div_pow10 {f : Binary64} (hf : f.isFinite = true) (exponent : Nat) :
    (f.div (ofNat (Nat.pow 10 exponent))).isFinite = true :=
  isFinite_div_ofNat hf (Nat.pow_pos (by decide))

/-- What rounds to a finite number that is not a greatest one is at most this integer. -/
@[irreducible]
def belowGreatest : Nat :=
  (2 ^ 54 - 3) * 2 ^ 970

/-- Powers of ten up to this integer have an exponent that a finite number can have. -/
theorem exponent_le_of_pow10_le {exponent : Nat} (h : 10 ^ exponent ≤ belowGreatest) : exponent ≤ 308 := by
  obtain ⟨least, hleast, hbound⟩ : ∃ least, least = 309 ∧ belowGreatest < 10 ^ least := by
    refine ⟨309, rfl, ?_⟩
    unfold belowGreatest
    decide +kernel
  refine Nat.not_lt.1 fun hgreater => Nat.not_le.2 hbound (Nat.le_trans ?_ h)
  exact Nat.pow_le_pow_right (by decide) (by omega)

/-- The factors are rounded before the product is, and this does not make it infinite. -/
theorem isFinite_mul_extremes : ∀ exponent ≤ 308,
    ((ofNat (min (belowGreatest / 10 ^ exponent) 0xFFFFFFFFFFFFFFFF)).mul
      (ofNat (Nat.pow 10 exponent))).isFinite = true := by
  unfold belowGreatest
  decide +kernel

/-- An integer of 64 bits times a power of ten is finite if the exact product is at most
`belowGreatest`. -/
theorem isFinite_mul_pow10 {n exponent : Nat} (hn : n < 0x10000000000000000) (hexponent : exponent ≤ 308)
    (h : n * 10 ^ exponent ≤ belowGreatest) :
    ((ofNat n).mul (ofNat (Nat.pow 10 exponent))).isFinite = true := by
  refine isFinite_of_le (isFinite_mul_extremes exponent hexponent) (mul_magnitude_mono ?_ (Nat.le_refl _))
  refine magnitude_ofNat_mono (Nat.le_min.2 ⟨?_, by omega⟩)
  exact (Nat.le_div_iff_mul_le (Nat.pow_pos (by decide))).2 h

/-! ## Shortest digits -/

/-- A point of a grid around the centre is in the interval if there is one. -/
theorem Interval.holds_of_gridPoint? {around : Interval} {exponent : Int} {decimal : Decimal}
    (h : around.gridPoint? exponent = some decimal) : around.holds decimal = true := by
  unfold Interval.gridPoint? at h
  dsimp only at h
  split at h
  · next hlower hupper =>
      split at h <;> cases h
      · exact hlower
      · exact hupper
  · next hlower _ =>
      cases h
      exact hlower
  · next _ hupper =>
      cases h
      exact hupper
  · cases h

/-- The first point that is found is in the interval. -/
theorem Interval.firstPoint_holds (around : Interval) (more : Nat) (exponent : Int) :
    around.firstPoint more exponent = ⟨0, 0⟩ ∨
      around.holds (around.firstPoint more exponent) = true := by
  induction more generalizing exponent with
  | zero =>
      unfold Interval.firstPoint
      cases hpoint : around.gridPoint? exponent with
      | none => exact .inl rfl
      | some decimal => exact .inr (holds_of_gridPoint? hpoint)
  | succ more ih =>
      unfold Interval.firstPoint
      cases hpoint : around.gridPoint? exponent with
      | none => exact ih (exponent - 1)
      | some decimal => exact .inr (holds_of_gridPoint? hpoint)

/-- The shortest digits denote a value that rounds to the number, if there are any. -/
theorem shortest_holds (f : Binary64) :
    f.shortest = ⟨0, 0⟩ ∨ f.interval.holds f.shortest = true :=
  f.interval.firstPoint_holds 16 _

/-- A value in an interval is between its ends. -/
theorem Interval.bounds_of_holds {around : Interval} {decimal : Decimal}
    (h : around.holds decimal = true) :
    (around.sides decimal around.low).2 ≤ (around.sides decimal around.low).1 ∧
      (around.sides decimal around.high).1 ≤ (around.sides decimal around.high).2 := by
  unfold Interval.holds at h
  dsimp only [Interval.sides] at h ⊢
  split at h <;> simp only [Bool.and_eq_true, decide_eq_true_iff] at h <;> omega

/-- A number other than zero has a positive significand. -/
theorem significand_pos {f : Binary64} (h : f.isZero = false) : 0 < f.significand := by
  have hsplit := Nat.div_add_mod f.magnitude fractionLimit
  unfold isZero at h
  rw [beq_eq_false_iff_ne] at h
  unfold significand exponentBits fractionBits
  split
  · next hzero =>
      rw [hzero] at hsplit
      omega
  · exact Nat.add_pos_left (by decide) _

/-- Digits in the interval around a number other than zero do not denote zero. -/
theorem digits_pos_of_holds {f : Binary64} (hf : f.isZero = false) {decimal : Decimal}
    (h : f.interval.holds decimal = true) : 0 < decimal.digits := by
  have hsignificand := significand_pos hf
  have hlow : 0 < f.interval.low := by
    unfold interval
    dsimp only
    split <;> omega
  have hbound := (Interval.bounds_of_holds h).1
  dsimp only [Interval.sides] at hbound
  have hside : 0 < f.interval.low * pow10 (-decimal.exponent) * pow2 f.interval.unit :=
    Nat.mul_pos (Nat.mul_pos hlow (Nat.pow_pos (by decide))) (Nat.two_pow_pos _)
  exact Nat.pos_of_mul_pos_right (Nat.pos_of_mul_pos_right (Nat.lt_of_lt_of_le hside hbound))

/-- The upper end of the interval around a finite number that is not a greatest one. -/
theorem interval_high_le {f : Binary64} (hf : f.magnitude < greatest.magnitude) :
    f.interval.high * pow2 f.interval.unit ≤ belowGreatest * pow2 (-f.interval.unit) := by
  have hgreatest : greatest.magnitude = 2046 * fractionLimit + (fractionLimit - 1) := by decide
  have hsplit : fractionLimit * f.exponentBits + f.fractionBits = f.magnitude :=
    Nat.div_add_mod f.magnitude fractionLimit
  have hhigh : f.interval.high = 4 * f.significand + 2 := rfl
  have hunit : f.interval.unit = (max f.exponentBits 1 : Nat) - 1077 := by
    show f.scale - 2 = _
    unfold scale
    omega
  have hsignificand := (significand_bounds f).1
  have hgreatestSignificand (h : f.exponentBits = 2046) : f.significand + 2 ≤ 2 * fractionLimit := by
    unfold significand
    rw [if_neg (by omega)]
    rw [h] at hsplit
    omega
  have hexponent : f.exponentBits ≤ 2046 := by
    unfold fractionLimit at *
    omega
  -- The places are those of the greatest numbers, greater than one in all, or at most one.
  have hsmall : 4 * (2 * fractionLimit) + 2 ≤ belowGreatest := by
    unfold belowGreatest
    decide +kernel
  have hgreater : ∀ place ≤ 968, (4 * (2 * fractionLimit) - 2) * 2 ^ place ≤ belowGreatest := by
    unfold belowGreatest
    decide +kernel
  have htop : ∀ place ≤ 969, (4 * (2 * fractionLimit) - 6) * 2 ^ place ≤ belowGreatest := by
    unfold belowGreatest
    decide +kernel
  unfold pow2
  show f.interval.high * 2 ^ f.interval.unit.toNat ≤ belowGreatest * 2 ^ (-f.interval.unit).toNat
  rw [hhigh, hunit]
  rcases Nat.lt_trichotomy f.exponentBits 2046 with hlt | heq | hgt
  · by_cases hplace : f.exponentBits ≤ 1077
    · have hzero : ((max f.exponentBits 1 : Nat) - 1077 : Int).toNat = 0 := by omega
      rw [hzero]
      calc (4 * f.significand + 2) * 2 ^ 0 ≤ 4 * (2 * fractionLimit) + 2 := by omega
        _ ≤ belowGreatest := hsmall
        _ ≤ belowGreatest * 2 ^ (-((max f.exponentBits 1 : Nat) - 1077 : Int)).toNat :=
            Nat.le_mul_of_pos_right _ (Nat.two_pow_pos _)
    · have hzero : (-((max f.exponentBits 1 : Nat) - 1077 : Int)).toNat = 0 := by omega
      rw [hzero, Nat.pow_zero, Nat.mul_one]
      exact Nat.le_trans (Nat.mul_le_mul_right _ (by omega)) (hgreater _ (by omega))
  · have hzero : (-((max f.exponentBits 1 : Nat) - 1077 : Int)).toNat = 0 := by omega
    have htopSignificand := hgreatestSignificand heq
    rw [hzero, Nat.pow_zero, Nat.mul_one]
    exact Nat.le_trans (Nat.mul_le_mul_right _ (by omega)) (htop _ (by omega))
  · omega

/-- The shortest digits of a finite number that is not a greatest one denote at most `belowGreatest`. -/
theorem shortest_le {f : Binary64} (hf : f.magnitude < greatest.magnitude) :
    f.shortest.digits * pow10 f.shortest.exponent ≤ belowGreatest * pow10 (-f.shortest.exponent) := by
  rcases shortest_holds f with hzero | hholds
  · rw [hzero, Nat.zero_mul]
    exact Nat.zero_le _
  · have hvalue := (Interval.bounds_of_holds hholds).2
    dsimp only [Interval.sides] at hvalue
    refine Nat.le_of_mul_le_mul_right ?_ (Nat.two_pow_pos (-f.interval.unit).toNat)
    calc f.shortest.digits * pow10 f.shortest.exponent * pow2 (-f.interval.unit)
        ≤ f.interval.high * pow10 (-f.shortest.exponent) * pow2 f.interval.unit := hvalue
      _ = f.interval.high * pow2 f.interval.unit * pow10 (-f.shortest.exponent) :=
          Nat.mul_right_comm ..
      _ ≤ belowGreatest * pow2 (-f.interval.unit) * pow10 (-f.shortest.exponent) :=
          Nat.mul_le_mul_right _ (interval_high_le hf)
      _ = belowGreatest * pow10 (-f.shortest.exponent) * pow2 (-f.interval.unit) :=
          Nat.mul_right_comm ..

/-- The shortest digits of a greatest number. -/
theorem shortest_of_greatest {f : Binary64} (hf : f.magnitude = greatest.magnitude) :
    f.shortest = ⟨17976931348623157, 292⟩ := by
  have hmagnitude : greatest.shortest = ⟨17976931348623157, 292⟩ := by decide +kernel
  have hsame : f.shortest = greatest.shortest := by
    unfold shortest interval scale significand exponentBits fractionBits
    rw [hf]
  rw [hsame, hmagnitude]

end AccountPool.Binary64
