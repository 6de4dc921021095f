import AccountPool.Proofs.Binary64.Finite
import AccountPool.Proofs.Json.Taking

/-!
# Printed numbers are read back

An integer is read back as it was printed. The text of a finite floating-point number is read as a finite
floating-point number, though not always as the one that was printed, because the reader rounds after each
operation: `Number.exists_takes`. The shortest digits of the greatest numbers are the only ones that come
near infinity.
-/

namespace AccountPool.Json

/-! ## Digits -/

/-- A digit is less than ten. -/
theorem digitValue_lt {c : Char} (h : c.isDigit = true) : Text.digitValue c < 10 := by
  unfold Char.isDigit at h
  simp only [ge_iff_le, Bool.and_eq_true, decide_eq_true_eq, UInt32.le_iff_toNat_le] at h
  have hupper : c.val.toNat ≤ 57 := h.2
  show c.val.toNat - 48 < 10
  omega

/-- A digit other than zero is positive. -/
theorem digitValue_pos {c : Char} (h : c.isDigit = true) (hzero : c ≠ '0') : 0 < Text.digitValue c := by
  unfold Char.isDigit at h
  simp only [ge_iff_le, Bool.and_eq_true, decide_eq_true_eq, UInt32.le_iff_toNat_le] at h
  have hlower : 48 ≤ c.val.toNat := h.1
  have hother : c.val.toNat ≠ 48 := fun hsame => hzero (Char.ext (UInt32.toNat_inj.1 hsame))
  show 0 < c.val.toNat - 48
  omega

/-- A digit is no point and starts no exponent. -/
theorem ne_of_isDigit {c : Char} (h : c.isDigit = true) : c ≠ '.' ∧ c ≠ 'e' ∧ c ≠ 'E' ∧ c ≠ '-' := by
  refine ⟨?_, ?_, ?_, ?_⟩ <;> rintro rfl <;> exact absurd h (by decide)

/-- The digits of a positive number do not start with zero. -/
theorem head?_toDigits_ne {n : Nat} (h : 0 < n) : (Nat.toDigits 10 n).head? ≠ some '0' := by
  induction n using Nat.strongRecOn with
  | _ n ih =>
      rcases Nat.lt_or_ge n 10 with hlt | hge
      · rw [Nat.toDigits_of_lt_base hlt]
        show some n.digitChar ≠ some '0'
        rw [Ne, Option.some.injEq, Nat.digitChar_eq_zero]
        exact Nat.ne_of_gt h
      · obtain ⟨c, more, hdigits⟩ := List.exists_cons_of_ne_nil (Nat.toDigits_ne_nil (n := n / 10) (b := 10))
        rw [Nat.toDigits_of_base_le (by decide) hge, hdigits]
        have hhead := ih (n / 10) (by omega) (by omega)
        rwa [hdigits] at hhead

/-- Digits in front make a number greater. -/
theorem ofDigitChars_mono {m n : Nat} (h : m ≤ n) (digits : List Char) :
    Nat.ofDigitChars 10 digits m ≤ Nat.ofDigitChars 10 digits n := by
  induction digits generalizing m n with
  | nil => exact h
  | cons c digits ih =>
      rw [Nat.ofDigitChars_cons, Nat.ofDigitChars_cons]
      exact ih (by omega)

/-- More digits move what is there to higher places. -/
theorem mul_pow_le_ofDigitChars (n : Nat) (digits : List Char) :
    n * 10 ^ digits.length ≤ Nat.ofDigitChars 10 digits n := by
  induction digits generalizing n with
  | nil => exact Nat.le_of_eq (Nat.mul_one n)
  | cons c digits ih =>
      rw [Nat.ofDigitChars_cons, List.length_cons, Nat.pow_succ', ← Nat.mul_assoc, Nat.mul_comm n]
      refine Nat.le_trans (ih _) (ofDigitChars_mono (by omega) digits)

/-- A number is less than the power of ten that has one digit more. -/
theorem ofDigitChars_lt {n : Nat} {digits : List Char} (h : ∀ c ∈ digits, c.isDigit = true) :
    Nat.ofDigitChars 10 digits n < (n + 1) * 10 ^ digits.length := by
  induction digits generalizing n with
  | nil => simp [Nat.ofDigitChars_eq_foldl]
  | cons c digits ih =>
      have hdigit := digitValue_lt (h c List.mem_cons_self)
      have hrest := ih (n := 10 * n + Text.digitValue c) fun d hd => h d (List.mem_cons_of_mem c hd)
      rw [Nat.ofDigitChars_cons, List.length_cons, Nat.pow_succ', ← Nat.mul_assoc]
      refine Nat.lt_of_lt_of_le hrest (Nat.mul_le_mul_right _ ?_)
      omega

namespace Reader

/-! ## Significands -/

/-- What is filled keeps within 64 bits. -/
theorem fill_lt {significand : Nat} (h : significand < 0x10000000000000000) (digits : List Char) :
    (fill significand digits).1 < 0x10000000000000000 := by
  induction digits generalizing significand with
  | nil => exact h
  | cons c digits ih =>
      unfold fill
      dsimp only
      split
      · next hnext => exact ih hnext
      · exact h

/-- What is filled is a number of the first digits, and those left out would only add to it. -/
theorem fill_le (significand : Nat) (digits : List Char) :
    (fill significand digits).2 ≤ digits.length ∧
      (fill significand digits).1 * 10 ^ (digits.length - (fill significand digits).2) ≤
        Nat.ofDigitChars 10 digits significand := by
  induction digits generalizing significand with
  | nil => exact ⟨Nat.le_refl _, Nat.le_of_eq (Nat.mul_one _)⟩
  | cons c digits ih =>
      unfold fill
      dsimp only
      split
      · have hrest := ih (10 * significand + Text.digitValue c)
        rw [List.length_cons, Nat.add_sub_add_right, Nat.ofDigitChars_cons]
        exact ⟨Nat.succ_le_succ hrest.1, hrest.2⟩
      · exact ⟨Nat.zero_le _, mul_pow_le_ofDigitChars significand (c :: digits)⟩

/-- A number that fits is filled with all of its digits. -/
theorem fill_eq {significand : Nat} {digits : List Char}
    (h : Nat.ofDigitChars 10 digits significand < 0x10000000000000000) :
    fill significand digits = (Nat.ofDigitChars 10 digits significand, digits.length) := by
  induction digits generalizing significand with
  | nil => rfl
  | cons c digits ih =>
      rw [Nat.ofDigitChars_cons] at h ⊢
      have hnext : 10 * significand + Text.digitValue c < 0x10000000000000000 := by
        refine Nat.lt_of_le_of_lt (Nat.le_trans ?_ (mul_pow_le_ofDigitChars _ digits)) h
        exact Nat.le_mul_of_pos_right _ (Nat.pow_pos (by decide))
      unfold fill
      dsimp only
      rw [if_pos hnext]
      have hrest : fill (10 * significand + Text.digitValue c) digits = _ := ih h
      rw [hrest]
      rfl

/-- At least one digit is taken if there is one and it fits. -/
theorem fill_pos {significand : Nat} {digits : List Char} (hdigits : digits ≠ [])
    (hall : ∀ c ∈ digits, c.isDigit = true) (h : 10 * significand + 9 < 0x10000000000000000) :
    0 < (fill significand digits).2 := by
  obtain ⟨c, digits, rfl⟩ := List.exists_cons_of_ne_nil hdigits
  have hdigit := digitValue_lt (hall c List.mem_cons_self)
  unfold fill
  dsimp only
  rw [if_pos (by omega)]
  exact Nat.succ_pos _

/-! ## Scaled significands -/

open Binary64 (belowGreatest)

/-- Powers that are taken off keep a number finite, and the exponent negative. -/
theorem shrink_finite {f : Binary64} {exponent : Int} (hf : f.isFinite = true) (hneg : exponent < 0) :
    (shrink f exponent).1.isFinite = true ∧ (shrink f exponent).2 < 0 := by
  fun_induction shrink f exponent with
  | case1 f exponent h ih => exact ih (Binary64.isFinite_div_ofNat hf (by decide +kernel)) (by omega)
  | case2 f exponent h => exact ⟨hf, hneg⟩

/-- A scaled significand is finite. -/
theorem scaled?_finite {significand : Nat} (h : significand < 0x10000000000000000) {exponent : Int}
    {f : Binary64} (hscaled : scaled? significand exponent = some f) : f.isFinite = true := by
  have hfinite := Binary64.isFinite_ofNat h
  unfold scaled? at hscaled
  dsimp only at hscaled
  split at hscaled
  · next hneg =>
      have hshrunk := (shrink_finite hfinite hneg).1
      split at hscaled <;> cases hscaled
      · exact hshrunk
      · exact Binary64.isFinite_div_pow10 hshrunk _
  · split at hscaled
    · split at hscaled
      · cases hscaled
        exact hfinite
      · cases hscaled
    · split at hscaled
      · next hproduct =>
          cases hscaled
          exact hproduct
      · cases hscaled

/-- A negative exponent never makes a significand overflow. -/
theorem exists_scaled?_of_neg (significand : Nat) {exponent : Int} (h : exponent < 0) :
    ∃ f, scaled? significand exponent = some f := by
  unfold scaled?
  dsimp only
  rw [if_pos h]
  split <;> exact ⟨_, rfl⟩

/-- A positive power of ten times a significand does not overflow if the exact product is below that of the
greatest number. -/
theorem exists_scaled?_of_le {significand exponent : Nat} (hpos : 0 < significand)
    (hlt : significand < 0x10000000000000000) (h : significand * 10 ^ exponent ≤ belowGreatest) :
    ∃ f, scaled? significand exponent = some f := by
  have hexponent : exponent ≤ 308 :=
    Binary64.exponent_le_of_pow10_le (Nat.le_trans (Nat.le_mul_of_pos_left _ hpos) h)
  have hfinite := Binary64.isFinite_mul_pow10 hlt hexponent h
  unfold scaled?
  dsimp only
  rw [if_neg (by omega), if_neg (by omega), Int.toNat_natCast, if_pos hfinite]
  exact ⟨_, rfl⟩

/-- A number that was scaled, with its sign. -/
theorem takes_scaled {negative : Bool} {significand : Nat} {exponent : Int} {f : Binary64} {rest : List Char}
    (h : scaled? significand exponent = some f) :
    (scaled negative significand exponent).Takes [] rest (.binary (if negative then f.neg else f)) := by
  unfold scaled
  rw [h]
  exact takes_pure _

/-! ## Parts of numbers -/

/-- What may follow a number: nothing that would belong to it. -/
def Delimits (rest : List Char) : Prop :=
  rest.head?.all (fun c => !c.isDigit && c != '.' && c != 'e' && c != 'E') = true

variable {negative : Bool} {rest : List Char}

/-- Behind a number there is no digit. -/
theorem Delimits.not_isDigit (h : Delimits rest) : rest.head?.all (!Char.isDigit ·) = true := by
  unfold Delimits at h
  cases hhead : rest.head? with
  | none => rfl
  | some c =>
      rw [hhead] at h
      simp only [Option.all_some, Bool.and_eq_true] at h
      exact h.1.1.1

/-- Behind a number there is no point and no exponent. -/
theorem Delimits.head?_ne (h : Delimits rest) :
    rest.head? ≠ some '.' ∧ ¬(rest.head? = some 'e' ∨ rest.head? = some 'E') := by
  unfold Delimits at h
  cases hhead : rest.head? with
  | none => simp
  | some c =>
      rw [hhead] at h
      simp only [Option.all_some, Bool.and_eq_true, bne_iff_ne] at h
      obtain ⟨⟨⟨_, hpoint⟩, he⟩, hE⟩ := h
      simp [hpoint, he, hE]

/-- How a number goes on behind the digits in front of its point. -/
def afterWhole (negative : Bool) (significand : Nat) (exponent : Int) (next : Option Char) :
    Reader Number :=
  if next = some '.' then fractionTail negative significand exponent
  else if next = some 'e' ∨ next = some 'E' then exponentTail negative significand exponent
  else if exponent = 0 then
    match signedInteger? negative significand with
    | some n => pure n
    | none => scaled negative significand 0
  else scaled negative significand exponent

/-- A number starts with digits, a zero standing alone. -/
theorem takes_numberTail {whole t : List Char} {n : Number} (hwhole : whole ≠ [])
    (hall : ∀ c ∈ whole, c.isDigit = true) (hzero : whole.head? = some '0' → whole = ['0'])
    (hnext : (t ++ rest).head?.all (!Char.isDigit ·) = true)
    (h : (afterWhole negative (fill 0 whole).1 (whole.length - (fill 0 whole).2 : Int)
      (t ++ rest).head?).Takes t rest n) :
    (numberTail negative).Takes (whole ++ t) rest n := by
  obtain ⟨c, more, rfl⟩ := List.exists_cons_of_ne_nil hwhole
  have hdigit := hall c List.mem_cons_self
  refine takes_peek.look ?_
  show (if !c.isDigit then _ else _ : Reader Number).Takes _ _ _
  rw [if_neg (by simp [hdigit])]
  refine Takes.bind (s := c :: more) (a := c :: more) ?_ (takes_peek.look ?_)
  · split
    · next hc =>
        subst hc
        cases hzero rfl
        exact (takes_skip '0').andThen (takes_pure _)
    · exact takes_run hall hnext
  · have hseparate : ¬(c = '0' ∧ (((t ++ rest).head?).map Char.isDigit).getD false = true) := by
      rintro ⟨-, hdigit⟩
      cases hhead : (t ++ rest).head? with
      | none =>
          rw [hhead] at hdigit
          cases hdigit
      | some d =>
          rw [hhead] at hdigit hnext
          simp only [Option.all_some, Bool.not_eq_true', Option.map_some, Option.getD_some] at hnext hdigit
          rw [hnext] at hdigit
          cases hdigit
    rw [if_neg hseparate]
    exact h

/-- A fraction, with a point in front and nothing behind. -/
theorem takes_fraction {fraction : List Char} {significand : Nat} {exponent : Int} {f : Binary64}
    (hfraction : fraction ≠ []) (hall : ∀ c ∈ fraction, c.isDigit = true) (hrest : Delimits rest)
    (h : scaled? (fill significand fraction).1 (exponent - (fill significand fraction).2) = some f) :
    (fractionTail negative significand exponent).Takes ('.' :: fraction) rest
      (.binary (if negative then f.neg else f)) := by
  refine Takes.bind (s := ['.']) (takes_skip '.') ?_
  refine Takes.andThen (takes_run hall hrest.not_isDigit) (takes_peek.look ?_)
  show (if fraction = [] then _ else _ : Reader Number).Takes _ _ _
  rw [if_neg hfraction]
  show (if rest.head? = some 'e' ∨ rest.head? = some 'E' then exponentTail negative _ _
    else scaled negative _ _ : Reader Number).Takes _ _ _
  rw [if_neg hrest.head?_ne.2]
  exact takes_scaled h

/-- The letter, the sign and the digits of an exponent. -/
def exponentChars (exponent : Int) : List Char :=
  'e' :: (if exponent < 0 then '-' else '+') :: Nat.toDigits 10 exponent.natAbs

/-- A fraction, with a point in front and an exponent behind. -/
theorem takes_fraction_exponent {fraction t : List Char} {significand : Nat} {exponent : Int} {n : Number}
    (hfraction : fraction ≠ []) (hall : ∀ c ∈ fraction, c.isDigit = true)
    (h : (exponentTail negative (fill significand fraction).1
      (exponent - (fill significand fraction).2)).Takes ('e' :: t) rest n) :
    (fractionTail negative significand exponent).Takes ('.' :: fraction ++ 'e' :: t) rest n := by
  refine Takes.bind (s := ['.']) (takes_skip '.') ?_
  refine Takes.bind (takes_run hall rfl) (takes_peek.look ?_)
  show (if fraction = [] then _ else _ : Reader Number).Takes _ _ _
  rw [if_neg hfraction]
  show (if some 'e' = some 'e' ∨ some 'e' = some 'E' then exponentTail negative _ _
    else scaled negative _ _ : Reader Number).Takes _ _ _
  rw [if_pos (.inl rfl)]
  exact h

/-- The number of the first digits is not greater than that of all. -/
theorem digitsValue_take_le (digits : List Char) (count : Nat) :
    Text.digitsValue (digits.take count) ≤ Text.digitsValue digits := by
  show Nat.ofDigitChars 10 (digits.take count) 0 ≤ Nat.ofDigitChars 10 digits 0
  refine Nat.le_trans ?_ (Nat.le_of_eq (congrArg (Nat.ofDigitChars 10 · 0) (digits.take_append_drop count)))
  rw [Nat.ofDigitChars_append]
  refine Nat.le_trans ?_ (mul_pow_le_ofDigitChars _ _)
  exact Nat.le_mul_of_pos_right _ (Nat.pow_pos (by decide))

/-- A small exponent does not leave its range. -/
theorem exponentOverflow?_eq_none {digits : List Char} (h : Text.digitsValue digits < 0x80000000) :
    exponentOverflow? digits = none := by
  unfold exponentOverflow?
  refine List.find?_eq_none.2 fun count _ => ?_
  have hprefix := digitsValue_take_le digits count
  rw [decide_eq_true_iff]
  omega

/-- The decimal digits of a number are read as the number. -/
theorem digitsValue_toDigits (n : Nat) : Text.digitsValue (Nat.toDigits 10 n) = n :=
  Nat.ofDigitChars_toDigits (by decide) (by decide)

/-- The letter, the sign and the digits of a printed exponent are taken; what the digits come to is left to
the reader. -/
theorem takes_exponentTail {significand : Nat} {exponent shift : Int} {n : Number}
    (hrest : Delimits rest)
    (h : ∀ cursor : Cursor, (match exponentOverflow? (Nat.toDigits 10 shift.natAbs) with
      | some count =>
          if significand ≠ 0 ∧ !(decide (shift < 0)) then
            throw ⟨.numberOutOfRange, cursor.offset + count⟩
          else pure (.binary (.ofMagnitude negative 0))
      | none => scaled negative significand (exponent + shift) : Reader Number).Takes [] rest n) :
    (exponentTail negative significand exponent).Takes (exponentChars shift) rest n := by
  have hall : ∀ c ∈ Nat.toDigits 10 shift.natAbs, c.isDigit = true :=
    fun c => Nat.isDigit_of_mem_toDigits (by decide) (by decide)
  have hvalue := digitsValue_toDigits shift.natAbs
  have hne := Nat.toDigits_ne_nil (n := shift.natAbs) (b := 10)
  unfold exponentChars
  generalize Nat.toDigits 10 shift.natAbs = digits at *
  obtain ⟨c, more, rfl⟩ := List.exists_cons_of_ne_nil hne
  have hdigit := hall c List.mem_cons_self
  refine Takes.bind (s := ['e']) (takes_skip 'e') (takes_peek.look ?_)
  by_cases hneg : shift < 0
  · rw [if_pos hneg]
    refine Takes.bind (s := ['-']) (t := c :: more) (takes_skip '-') ?_
    refine takes_peek.look ?_
    show (if !c.isDigit then _ else _ : Reader Number).Takes _ _ _
    rw [if_neg (by simp [hdigit])]
    refine takes_get fun cursor => (takes_run hall hrest.not_isDigit).andThen ?_
    have hshift : exponent - (Text.digitsValue (c :: more) : Int) = exponent + shift := by omega
    have hcursor := h cursor
    rw [← hshift] at hcursor
    cases hover : exponentOverflow? (c :: more) <;> rw [hover] at hcursor <;>
      simpa [hneg] using hcursor
  · rw [if_neg hneg]
    refine Takes.bind (s := ['+']) (t := c :: more) (takes_skip '+') ?_
    refine takes_peek.look ?_
    show (if !c.isDigit then _ else _ : Reader Number).Takes _ _ _
    rw [if_neg (by simp [hdigit])]
    refine takes_get fun cursor => (takes_run hall hrest.not_isDigit).andThen ?_
    have hshift : exponent + (Text.digitsValue (c :: more) : Int) = exponent + shift := by omega
    have hcursor := h cursor
    rw [← hshift] at hcursor
    cases hover : exponentOverflow? (c :: more) <;> rw [hover] at hcursor <;>
      simpa [hneg] using hcursor

/-- A printed exponent that is positive is added. -/
theorem takes_exponentTail_of_scaled {significand : Nat} {exponent shift : Int} {f : Binary64}
    (hshift : shift.natAbs < 0x80000000) (hrest : Delimits rest)
    (h : scaled? significand (exponent + shift) = some f) :
    (exponentTail negative significand exponent).Takes (exponentChars shift) rest
      (.binary (if negative then f.neg else f)) := by
  refine takes_exponentTail hrest fun cursor => ?_
  rw [exponentOverflow?_eq_none (by rwa [digitsValue_toDigits])]
  exact takes_scaled h

/-- A number with a sign is finite if it is without one. -/
theorem isFinite_signed {f : Binary64} (hf : f.isFinite = true) (negative : Bool) :
    (if negative then f.neg else f).isFinite = true := by
  cases negative
  · exact hf
  · exact Binary64.isFinite_neg hf

/-- A printed exponent that is negative does not make a number overflow. -/
theorem exists_takes_exponentTail_of_neg {significand : Nat} {exponent shift : Int}
    (hlt : significand < 0x10000000000000000) (hexponent : exponent ≤ 0) (hshift : shift < 0)
    (hrest : Delimits rest) :
    ∃ f : Binary64, f.isFinite = true ∧
      (exponentTail negative significand exponent).Takes (exponentChars shift) rest (.binary f) := by
  cases hover : exponentOverflow? (Nat.toDigits 10 shift.natAbs) with
  | some count =>
      refine ⟨_, Binary64.isFinite_zero negative, takes_exponentTail hrest fun cursor => ?_⟩
      rw [hover]
      show (if significand ≠ 0 ∧ (!decide (shift < 0)) = true then _ else _ : Reader Number).Takes _ _ _
      rw [if_neg (by simp [hshift])]
      exact takes_pure _
  | none =>
      obtain ⟨f, hf⟩ := exists_scaled?_of_neg significand (show exponent + shift < 0 by omega)
      refine ⟨_, isFinite_signed (scaled?_finite hlt hf) negative, takes_exponentTail hrest fun cursor => ?_⟩
      rw [hover]
      exact takes_scaled hf

/-! ## Whole numbers -/

/-- The digits of an integer, where no fraction and no exponent follow. -/
theorem takes_numberTail_toDigits {m : Nat} {n : Number} (hm : m < 0x10000000000000000)
    (hrest : Delimits rest) (h : signedInteger? negative m = some n) :
    (numberTail negative).Takes (Nat.toDigits 10 m) rest n := by
  have hall : ∀ c ∈ Nat.toDigits 10 m, c.isDigit = true :=
    fun c => Nat.isDigit_of_mem_toDigits (by decide) (by decide)
  have hzero (hhead : (Nat.toDigits 10 m).head? = some '0') : Nat.toDigits 10 m = ['0'] := by
    rcases Nat.eq_zero_or_pos m with rfl | hpos
    · rfl
    · exact absurd hhead (head?_toDigits_ne hpos)
  have hvalue : Nat.ofDigitChars 10 (Nat.toDigits 10 m) 0 = m :=
    Nat.ofDigitChars_toDigits (by decide) (by decide)
  rw [← List.append_nil (Nat.toDigits 10 m)]
  refine takes_numberTail Nat.toDigits_ne_nil hall hzero hrest.not_isDigit ?_
  rw [fill_eq (by rwa [hvalue]), hvalue]
  show (if rest.head? = some '.' then _ else if rest.head? = some 'e' ∨ rest.head? = some 'E' then _
    else _ : Reader Number).Takes _ _ _
  rw [if_neg hrest.head?_ne.1, if_neg hrest.head?_ne.2, if_pos (Int.sub_self _), h]
  exact takes_pure n

/-- A printed integer is read as itself. -/
theorem takes_integer (n : WideInteger) (hrest : Delimits rest) :
    ∃ c more, Number.integerText n.val = c :: more ∧ startsNumber c = true ∧
      (number c).Takes (c :: more) rest (.integer n) := by
  have hlower := n.lower
  have hupper := n.upper
  have hread (value : Int) (hvalue : value = n.val) : WideInteger.ofInt? value = some n := by
    unfold WideInteger.ofInt?
    subst hvalue
    rw [dif_pos ⟨hlower, hupper⟩]
  unfold Number.integerText
  split
  · next hneg =>
      refine ⟨'-', _, rfl, rfl, ?_⟩
      show ((skip >>= fun _ => numberTail true : Reader Number)).Takes _ _ _
      refine Takes.bind (s := ['-']) (takes_skip '-') (takes_numberTail_toDigits (by omega) hrest ?_)
      unfold signedInteger?
      rw [if_pos rfl, if_neg (by omega), hread _ (by omega)]
      rfl
  · obtain ⟨c, more, hdigits⟩ := List.exists_cons_of_ne_nil (Nat.toDigits_ne_nil (n := n.val.natAbs) (b := 10))
    have hdigit : c.isDigit = true :=
      Nat.isDigit_of_mem_toDigits (b := 10) (n := n.val.natAbs) (by decide) (by decide)
        (by rw [hdigits]; exact List.mem_cons_self)
    refine ⟨c, more, hdigits, by simp [startsNumber, hdigit], ?_⟩
    unfold number
    rw [if_neg (ne_of_isDigit hdigit).2.2.2, ← hdigits]
    refine takes_numberTail_toDigits (by omega) hrest ?_
    unfold signedInteger?
    rw [if_neg (by decide), hread _ (by omega)]
    rfl

/-! ## Floating-point numbers -/

/-- Digits around a point, of which those in front are few. -/
theorem exists_takes_point {whole fraction : List Char} (hwhole : whole ≠ [])
    (hall : ∀ c ∈ whole, c.isDigit = true) (hzero : whole.head? = some '0' → whole = ['0'])
    (hlength : whole.length ≤ 16) (hfraction : fraction ≠ [])
    (hall' : ∀ c ∈ fraction, c.isDigit = true) (hrest : Delimits rest) :
    ∃ f : Binary64, f.isFinite = true ∧
      (numberTail negative).Takes (whole ++ '.' :: fraction) rest (.binary f) := by
  have hvalue : Nat.ofDigitChars 10 whole 0 < 10 ^ 16 := by
    refine Nat.lt_of_lt_of_le (ofDigitChars_lt hall) ?_
    rw [Nat.zero_add, Nat.one_mul]
    exact Nat.pow_le_pow_right (by decide) hlength
  have hfill : fill 0 whole = (Nat.ofDigitChars 10 whole 0, whole.length) := fill_eq (by omega)
  have htaken := fill_pos hfraction hall' (show 10 * Nat.ofDigitChars 10 whole 0 + 9 < _ by omega)
  obtain ⟨f, hf⟩ := exists_scaled?_of_neg (fill (Nat.ofDigitChars 10 whole 0) fraction).1
    (show 0 - ((fill (Nat.ofDigitChars 10 whole 0) fraction).2 : Int) < 0 by omega)
  have hfinite := scaled?_finite (fill_lt (by omega) fraction) hf
  refine ⟨_, isFinite_signed hfinite negative, takes_numberTail hwhole hall hzero rfl ?_⟩
  rw [hfill]
  show (if some '.' = some '.' then _ else _ : Reader Number).Takes _ _ _
  rw [if_pos rfl, Int.sub_self]
  exact takes_fraction hfraction hall' hrest hf

/-- One digit, the others behind a point, and an exponent that does not make the number overflow. -/
theorem exists_takes_exponential {c : Char} {fraction : List Char} {shift : Int} (hc : c ≠ '0')
    (hall : ∀ d ∈ c :: fraction, d.isDigit = true) (hrest : Delimits rest)
    (hscaled : 0 ≤ shift → shift.natAbs < 0x80000000 ∧
      ∃ f, scaled? (fill (Text.digitValue c) fraction).1
        (shift - (fill (Text.digitValue c) fraction).2) = some f) :
    ∃ f : Binary64, f.isFinite = true ∧
      (numberTail negative).Takes (Number.exponential (c :: fraction) shift) rest (.binary f) := by
  have hdigit := digitValue_lt (hall c List.mem_cons_self)
  have hall' : ∀ d ∈ fraction, d.isDigit = true := fun d hd => hall d (List.mem_cons_of_mem c hd)
  have hvalue : Nat.ofDigitChars 10 [c] 0 = Text.digitValue c := by
    rw [Nat.ofDigitChars_cons, Nat.mul_zero, Nat.zero_add]
    rfl
  have hfill : fill 0 [c] = (Text.digitValue c, 1) := by
    rw [fill_eq (by rw [hvalue]; omega), hvalue]
    rfl
  have hlt := fill_lt (show Text.digitValue c < _ by omega) fraction
  -- Whether or not there is a fraction, the exponent is read behind the same significand.
  obtain ⟨f, hfinite, htail⟩ : ∃ f : Binary64, f.isFinite = true ∧
      (exponentTail negative (fill (Text.digitValue c) fraction).1
        (0 - ((fill (Text.digitValue c) fraction).2 : Int))).Takes (exponentChars shift) rest
        (.binary f) := by
    rcases Int.lt_or_le shift 0 with hneg | hnonneg
    · exact exists_takes_exponentTail_of_neg hlt (by omega) hneg hrest
    · obtain ⟨hsmall, f, hf⟩ := hscaled hnonneg
      refine ⟨_, isFinite_signed (scaled?_finite hlt hf) negative,
        takes_exponentTail_of_scaled hsmall hrest ?_⟩
      rw [← hf]
      congr 1
      omega
  refine ⟨f, hfinite, ?_⟩
  have htext : Number.exponential (c :: fraction) shift =
      [c] ++ ((if fraction = [] then [] else '.' :: fraction) ++ exponentChars shift) := rfl
  have hwhole : ∀ d ∈ [c], d.isDigit = true := fun d hd =>
    hall d (List.mem_singleton.1 hd ▸ List.mem_cons_self)
  rw [htext]
  have hzero : [c].head? = some '0' → [c] = ['0'] := fun h => absurd (Option.some.inj h) hc
  by_cases hfraction : fraction = []
  · rw [if_pos hfraction]
    refine takes_numberTail (List.cons_ne_nil c []) hwhole hzero rfl ?_
    rw [hfill]
    subst hfraction
    exact htail
  · rw [if_neg hfraction]
    refine takes_numberTail (List.cons_ne_nil c []) hwhole hzero rfl ?_
    rw [hfill]
    exact takes_fraction_exponent hfraction hall' htail

/-- What is filled is not less than what was there. -/
theorem le_fill (significand : Nat) (digits : List Char) : significand ≤ (fill significand digits).1 := by
  induction digits generalizing significand with
  | nil => exact Nat.le_refl _
  | cons c digits ih =>
      unfold fill
      dsimp only
      split
      · exact Nat.le_trans (by omega) (ih _)
      · exact Nat.le_refl _

end Reader

namespace Number

open Binary64 (Decimal pow10 belowGreatest greatest)
open Reader

/-- The digits of a decimal number start with one that is not zero, and those left out at the end are
zeros. -/
theorem scientific_eq {decimal : Decimal} (h : 0 < decimal.digits) :
    ∃ c fraction zeros, scientific decimal =
        (c :: fraction, decimal.exponent + (fraction.length + zeros : Nat)) ∧ c ≠ '0' ∧
      (∀ d ∈ c :: fraction, d.isDigit = true) ∧
      Nat.ofDigitChars 10 fraction (Text.digitValue c) * 10 ^ zeros = decimal.digits := by
  have hall : ∀ d ∈ Nat.toDigits 10 decimal.digits, d.isDigit = true :=
    fun d => Nat.isDigit_of_mem_toDigits (by decide) (by decide)
  have hvalue := Nat.ofDigitChars_toDigits (b := 10) (n := decimal.digits) (by decide) (by decide)
  have hhead := head?_toDigits_ne h
  have hne := Nat.toDigits_ne_nil (n := decimal.digits) (b := 10)
  unfold scientific
  dsimp only
  generalize Nat.toDigits 10 decimal.digits = digits at *
  let kept := (digits.reverse.dropWhile (· == '0')).reverse
  let zeros := (digits.reverse.takeWhile (· == '0')).length
  have hsplit : digits = kept ++ List.replicate zeros '0' := by
    have hzeros : digits.reverse.takeWhile (· == '0') = List.replicate zeros '0' := by
      refine List.eq_replicate_iff.2 ⟨rfl, fun d hd => ?_⟩
      exact eq_of_beq (List.all_eq_true.1 List.all_takeWhile d hd)
    calc digits = digits.reverse.reverse := digits.reverse_reverse.symm
      _ = (digits.reverse.takeWhile (· == '0') ++ digits.reverse.dropWhile (· == '0')).reverse := by
          rw [List.takeWhile_append_dropWhile]
      _ = kept ++ List.replicate zeros '0' := by
          rw [List.reverse_append, hzeros, List.reverse_replicate]
  cases hkept : kept with
  | nil =>
      rw [hkept, List.nil_append] at hsplit
      cases hzeros : zeros with
      | zero =>
          rw [hzeros] at hsplit
          exact absurd hsplit hne
      | succ count =>
          rw [hsplit, hzeros] at hhead
          exact absurd rfl hhead
  | cons c fraction =>
      rw [hkept] at hsplit
      refine ⟨c, fraction, zeros, Prod.ext hkept ?_, ?_, ?_, ?_⟩
      · rw [hsplit]
        simp
        omega
      · rintro rfl
        rw [hsplit] at hhead
        exact hhead rfl
      · intro d hd
        refine hall d ?_
        rw [hsplit]
        exact List.mem_append_left _ hd
      · rw [hsplit, Nat.ofDigitChars_append, Nat.ofDigitChars_replicate_zero, Nat.ofDigitChars_cons,
          Nat.mul_zero, Nat.zero_add] at hvalue
        rw [Nat.mul_comm]
        exact hvalue

/-- A part of the digits of a decimal number, moved to its place, is not greater than the number. -/
theorem mul_pow_le_of_le {a m : Nat} {decimal : Decimal} (ha : a * 10 ^ m ≤ decimal.digits)
    (hdecimal : decimal.digits * pow10 decimal.exponent ≤ belowGreatest * pow10 (-decimal.exponent))
    {place : Nat} (hplace : (place : Int) = decimal.exponent + m) : a * 10 ^ place ≤ belowGreatest := by
  have hpower : 10 ^ place * pow10 (-decimal.exponent) = 10 ^ m * pow10 decimal.exponent := by
    show 10 ^ place * 10 ^ (-decimal.exponent).toNat = 10 ^ m * 10 ^ decimal.exponent.toNat
    rw [← Nat.pow_add, ← Nat.pow_add]
    congr 1
    omega
  refine Nat.le_of_mul_le_mul_right ?_ (Nat.pow_pos (by decide) : 0 < pow10 (-decimal.exponent))
  calc a * 10 ^ place * pow10 (-decimal.exponent) = a * 10 ^ m * pow10 decimal.exponent := by
        rw [Nat.mul_assoc, hpower, Nat.mul_assoc]
    _ ≤ decimal.digits * pow10 decimal.exponent := Nat.mul_le_mul_right _ ha
    _ ≤ belowGreatest * pow10 (-decimal.exponent) := hdecimal

variable {negative : Bool} {rest : List Char}

/-- The exponential text of a finite number other than zero is read. -/
theorem exists_takes_scientific {f : Binary64} (hf : f.magnitude ≤ greatest.magnitude)
    {c : Char} {fraction : List Char} {shift : Int}
    (hscientific : scientific f.shortest = (c :: fraction, shift)) (hpos : 0 < f.shortest.digits)
    (hrest : Delimits rest) :
    ∃ g : Binary64, g.isFinite = true ∧
      (numberTail negative).Takes (exponential (c :: fraction) shift) rest (.binary g) := by
  obtain ⟨c', fraction', zeros, heq, hc, hall, hvalue⟩ := scientific_eq hpos
  rw [hscientific] at heq
  cases heq
  refine exists_takes_exponential hc hall hrest fun hnonneg => ?_
  rcases Nat.lt_or_eq_of_le hf with hlt | hgreatest
  · have hdecimal := Binary64.shortest_le hlt
    have hdigit := hall c List.mem_cons_self
    have hfirst := digitValue_lt hdigit
    have hfirst' := digitValue_pos hdigit hc
    have hfill := fill_le (Text.digitValue c) fraction
    have hpositive := Nat.lt_of_lt_of_le hfirst' (le_fill (Text.digitValue c) fraction)
    have hlimit := fill_lt (show Text.digitValue c < _ by omega) fraction
    generalize (fill (Text.digitValue c) fraction) = filled at *
    have hsmall : (f.shortest.exponent + (fraction.length + zeros : Nat)).toNat ≤ 308 := by
      refine Binary64.exponent_le_of_pow10_le (Nat.le_trans (Nat.le_mul_of_pos_left _ hfirst') ?_)
      refine mul_pow_le_of_le (m := fraction.length + zeros) ?_ hdecimal (by omega)
      rw [Nat.pow_add, ← Nat.mul_assoc, ← hvalue]
      exact Nat.mul_le_mul_right _ (mul_pow_le_ofDigitChars _ _)
    refine ⟨by omega, ?_⟩
    rcases Int.lt_or_le (f.shortest.exponent + (fraction.length + zeros : Nat) - (filled.2 : Int)) 0
      with hneg | hplace
    · exact exists_scaled?_of_neg filled.1 hneg
    · obtain ⟨place, hplace⟩ := Int.eq_ofNat_of_zero_le hplace
      rw [hplace]
      refine exists_scaled?_of_le hpositive hlimit ?_
      refine mul_pow_le_of_le (m := fraction.length - filled.2 + zeros) ?_ hdecimal (by omega)
      rw [Nat.pow_add, ← Nat.mul_assoc, ← hvalue]
      exact Nat.mul_le_mul_right _ hfill.2
  · -- The greatest numbers have one text, and its value does not overflow either.
    rw [Binary64.shortest_of_greatest hgreatest] at hscientific
    have htext : scientific ⟨17976931348623157, 292⟩ = ('1' :: "7976931348623157".toList, 308) := by
      decide +kernel
    rw [htext] at hscientific
    injection hscientific with hdigits hshift
    injection hdigits with hfirst hfraction
    rw [Binary64.shortest_of_greatest hgreatest, ← hshift, ← hfirst, ← hfraction]
    refine ⟨by decide, Option.isSome_iff_exists.1 ?_⟩
    decide +kernel

/-- The text of the number zero has digits only. -/
theorem isDigit_of_mem_zero : ∀ c ∈ ['0'], c.isDigit = true := by
  intro c hc
  rw [List.mem_singleton.1 hc]
  rfl

/-- The positional text of digits of which the first is not zero is read. -/
theorem exists_takes_positional {c : Char} {fraction : List Char} {shift : Int} (hc : c ≠ '0')
    (hall : ∀ d ∈ c :: fraction, d.isDigit = true) (hshift : shift ≤ 15) (hrest : Delimits rest) :
    ∃ g : Binary64, g.isFinite = true ∧
      (numberTail negative).Takes (positional (c :: fraction) shift) rest (.binary g) := by
  unfold positional
  dsimp only
  split
  · refine exists_takes_point (List.cons_ne_nil '0' []) isDigit_of_mem_zero (fun _ => rfl)
      (by decide) ?_ ?_ hrest
    · simp
    · intro d hd
      rcases List.mem_append.1 hd with hd | hd
      · rw [(List.mem_replicate.1 hd).2]
        decide
      · exact hall d hd
  · next hnonneg =>
      refine exists_takes_point ?_ ?_ ?_ ?_ ?_ ?_ hrest
      · simp
      · intro d hd
        rcases List.mem_append.1 hd with hd | hd
        · exact hall d (List.mem_of_mem_take hd)
        · rw [(List.mem_replicate.1 hd).2]
          decide
      · intro hhead
        exact absurd (Option.some.inj hhead) hc
      · rw [List.length_append, List.length_take, List.length_replicate]
        omega
      · split
        · exact List.cons_ne_nil _ _
        · assumption
      · split
        · exact isDigit_of_mem_zero
        · exact fun d hd => hall d (List.mem_of_mem_drop hd)

/-- The text of a floating-point zero is read. -/
theorem exists_takes_zero (hrest : Delimits rest) :
    ∃ g : Binary64, g.isFinite = true ∧
      (numberTail negative).Takes ['0', '.', '0'] rest (.binary g) :=
  exists_takes_point (List.cons_ne_nil '0' []) isDigit_of_mem_zero (fun _ => rfl) (by decide)
    (List.cons_ne_nil _ _) isDigit_of_mem_zero hrest

/-- The sign-free text of a finite number is read as a finite number. -/
theorem exists_takes_binaryDigits (negative : Bool) {f : Binary64} (hf : f.isFinite = true) (hrest : Delimits rest) :
    ∃ g : Binary64, g.isFinite = true ∧
      (numberTail negative).Takes (binaryDigits f) rest (.binary g) := by
  unfold binaryDigits
  split
  · exact exists_takes_zero hrest
  · next hzero =>
      rcases Binary64.shortest_holds f with hnone | hholds
      · rw [hnone]
        exact exists_takes_zero hrest
      · have hpos := Binary64.digits_pos_of_holds (by simpa using hzero) hholds
        obtain ⟨c, fraction, zeros, heq, hc, hall, -⟩ := scientific_eq hpos
        rw [heq]
        dsimp only
        split
        · next hshift => exact exists_takes_positional hc hall hshift.2 hrest
        · exact exists_takes_scientific (Binary64.isFinite_iff.1 hf) heq hpos hrest

/-- A number without a sign that is read starts with a digit. -/
theorem exists_isDigit_of_takes {s : List Char} {n : Number} (h : (numberTail negative).Takes s rest n)
    (hrest : Delimits rest) : ∃ c more, s = c :: more ∧ c.isDigit = true := by
  obtain ⟨offset, hread⟩ := h 0
  have hpeek (cursor : Cursor) (hstop : cursor.rest.head?.all (!Char.isDigit ·) = true) :
      ∃ stop, numberTail negative cursor = .error stop := by
    show ∃ stop, (peek cursor >>= fun found => _) = Except.error stop
    unfold peek
    cases hhead : cursor.rest.head? with
    | none => exact ⟨_, rfl⟩
    | some c =>
        rw [hhead] at hstop
        show ∃ stop, (if !c.isDigit then stopAfter .invalidNumber else _ : Reader Number) cursor =
          .error stop
        rw [if_pos (by simpa using hstop)]
        exact ⟨_, rfl⟩
  cases s with
  | nil =>
      obtain ⟨stop, hstop⟩ := hpeek ⟨[] ++ rest, 0⟩ hrest.not_isDigit
      rw [hstop] at hread
      cases hread
  | cons c more =>
      refine ⟨c, more, rfl, ?_⟩
      cases hdigit : c.isDigit with
      | true => rfl
      | false =>
          obtain ⟨stop, hstop⟩ := hpeek ⟨c :: more ++ rest, 0⟩ (by simp [hdigit])
          rw [hstop] at hread
          cases hread

/-- An integer as it is; of a floating-point number nothing but that it is one. -/
def outline : Number → Number
  | .integer n => .integer n
  | .binary _ => .binary (.ofMagnitude false 0)

/-- A floating-point number is finite, as the numbers of documents are. -/
def isFinite : Number → Bool
  | .integer _ => true
  | .binary f => f.isFinite

/-- The text of a number is read as the number, if it is an integer, and otherwise as some floating-point
number. -/
theorem exists_takes (n : Number) (hn : n.isFinite = true) (hrest : Delimits rest) :
    ∃ c more read, n.text = c :: more ∧ startsNumber c = true ∧
      (number c).Takes n.text rest read ∧ read.outline = n.outline ∧ read.isFinite = true := by
  cases n with
  | integer n =>
      obtain ⟨c, more, htext, hstart, htakes⟩ := takes_integer n hrest
      refine ⟨c, more, .integer n, htext, hstart, ?_, rfl, rfl⟩
      show (number c).Takes (integerText n.val) rest _
      rw [htext]
      exact htakes
  | binary f =>
      cases hsign : f.negative with
      | false =>
          obtain ⟨g, hg, htakes⟩ := exists_takes_binaryDigits false hn hrest
          obtain ⟨c, more, hdigits, hdigit⟩ := exists_isDigit_of_takes htakes hrest
          have htext : (Number.binary f).text = binaryDigits f := by
            simp [text, hsign]
          refine ⟨c, more, .binary g, htext.trans hdigits, by simp [startsNumber, hdigit], ?_, rfl, hg⟩
          unfold number
          rw [if_neg (ne_of_isDigit hdigit).2.2.2, htext]
          exact htakes
      | true =>
          obtain ⟨g, hg, htakes⟩ := exists_takes_binaryDigits true hn hrest
          have htext : (Number.binary f).text = '-' :: binaryDigits f := by
            simp [text, hsign]
          refine ⟨'-', _, .binary g, htext, rfl, ?_, rfl, hg⟩
          rw [htext]
          exact Takes.bind (s := ['-']) (takes_skip '-') htakes

end Number

end AccountPool.Json
