import AccountPool.Proofs.Config.Layers
import Mathlib.Algebra.Group.Nat.Defs
import Mathlib.Data.List.TakeWhile

/-!
# Variables that hold integers

`Text.Denotes` says which integer a text stands for: an optional sign and decimal digits, with blanks
around them. The ways to get a variable as an integer differ in what they make of a variable that is not set
and of one that is malformed, and `integer_accessors_agree` says that they agree on which is which. An integer
outside of the 64-bit range is malformed; reading it digit by digit with checked 64-bit arithmetic comes to
the same, `Text.checkedInt64?_eq`.
-/

namespace AccountPool

namespace Text

/-! ## Digits -/

/-- Decimal digits stand for a number. Each of them counts as often as the digits after it say. -/
inductive Digits : List Char → Nat → Prop where
  | last {d : Nat} (hd : d < 10) : Digits [d.digitChar] d
  | more {d n : Nat} {rest : List Char} (hd : d < 10) (hrest : Digits rest n) :
      Digits (d.digitChar :: rest) (d * 10 ^ rest.length + n)

/-- A sign, or none, and digits stand for an integer. -/
inductive Integer : List Char → Int → Prop where
  | unsigned {digits : List Char} {n : Nat} (h : Digits digits n) : Integer digits n
  | positive {digits : List Char} {n : Nat} (h : Digits digits n) : Integer ('+' :: digits) n
  | negative {digits : List Char} {n : Nat} (h : Digits digits n) : Integer ('-' :: digits) (-n)

/-- A text stands for an integer, with or without blanks around it. -/
def Denotes (text : String) (n : Int) : Prop :=
  ∃ before core after, text.toList = before ++ core ++ after ∧ (∀ c ∈ before, isBlank c = true) ∧
    (∀ c ∈ after, isBlank c = true) ∧ Integer core n

/-- A digit has its value and is no blank. -/
theorem of_digitChar {d : Nat} (hd : d < 10) :
    d.digitChar.isDigit = true ∧ digitValue d.digitChar = d ∧ isBlank d.digitChar = false := by
  refine ⟨?_, Nat.toNat_digitChar_sub_48_of_lt_ten hd, ?_⟩
  · rw [Nat.isDigit_digitChar, decide_eq_true hd]
  · have hall : ∀ d < 10, isBlank d.digitChar = false := by decide
    exact hall d hd

/-- A digit is the character of its value. -/
theorem digitChar_digitValue {c : Char} (hc : c.isDigit = true) :
    digitValue c < 10 ∧ (digitValue c).digitChar = c := by
  have hbounds : 48 ≤ c.toNat ∧ c.toNat ≤ 57 := Char.isDigit_iff_toNat.1 hc
  have hvalue : digitValue c = c.toNat - 48 := rfl
  have hlt : digitValue c < 10 := by omega
  refine ⟨hlt, Char.toNat_inj.1 ?_⟩
  rw [Nat.toNat_digitChar_of_lt_ten hlt]
  omega

/-- The first digit counts as often as the digits after it say. -/
theorem digitsValue_cons (c : Char) (rest : List Char) :
    digitsValue (c :: rest) = digitValue c * 10 ^ rest.length + digitsValue rest := by
  show Nat.ofDigitChars 10 (c :: rest) 0 = _ * 10 ^ rest.length + Nat.ofDigitChars 10 rest 0
  rw [Nat.ofDigitChars_cons, Nat.ofDigitChars_eq_ofDigitChars_zero, Nat.mul_zero, Nat.zero_add,
    Nat.mul_comm]
  rfl

/-- What stands for a number are digits, at least one. -/
theorem Digits.value {text : List Char} {n : Nat} (h : Digits text n) :
    text ≠ [] ∧ text.all Char.isDigit = true ∧ digitsValue text = n := by
  induction h with
  | last hd =>
      obtain ⟨hdigit, hvalue, -⟩ := of_digitChar hd
      refine ⟨List.cons_ne_nil _ _, by simp [hdigit], ?_⟩
      rw [digitsValue_cons, hvalue]
      show _ * 1 + 0 = _
      omega
  | more hd _ ih =>
      obtain ⟨hdigit, hvalue, -⟩ := of_digitChar hd
      obtain ⟨-, hall, hrest⟩ := ih
      refine ⟨List.cons_ne_nil _ _, by simp [hdigit, hall], ?_⟩
      rw [digitsValue_cons, hvalue, hrest]

/-- Digits, at least one, stand for a number. -/
theorem digits_digitsValue {text : List Char} (hne : text ≠ []) (hall : text.all Char.isDigit = true) :
    Digits text (digitsValue text) := by
  induction text with
  | nil => exact absurd rfl hne
  | cons c rest ih =>
      rw [List.all_cons, Bool.and_eq_true] at hall
      obtain ⟨hlt, hchar⟩ := digitChar_digitValue hall.1
      rw [digitsValue_cons]
      cases rest with
      | nil =>
          have hlast := Digits.last hlt
          rw [hchar] at hlast
          simpa [digitsValue] using hlast
      | cons next rest =>
          have hmore := Digits.more hlt (ih (List.cons_ne_nil _ _) hall.2)
          rwa [hchar] at hmore

/-- Digits stand for the number that is read from them. -/
theorem digits_iff {text : List Char} {n : Nat} : Digits text n ↔ readNat? text = some n := by
  unfold readNat?
  constructor
  · intro h
    obtain ⟨hne, hall, rfl⟩ := h.value
    rw [if_pos ⟨hne, hall⟩]
  · intro h
    split at h
    · next hdigits =>
        cases h
        exact digits_digitsValue hdigits.1 hdigits.2
    · cases h

/-- A sign and digits stand for the integer that is read from them. -/
theorem integer_iff {text : List Char} {n : Int} : Integer text n ↔ readInt? text = some n := by
  constructor
  · intro h
    cases h with
    | positive h => simp [readInt?, digits_iff.1 h]
    | negative h => simp [readInt?, digits_iff.1 h]
    | unsigned h =>
        -- The first character is a digit, so it is no sign.
        obtain ⟨-, hall, -⟩ := h.value
        have hread := digits_iff.1 h
        unfold readInt?
        split
        · simp at hall
        · simp at hall
        · rw [hread]
          rfl
  · intro h
    unfold readInt? at h
    split at h
    · obtain ⟨m, hm, rfl⟩ := Option.map_eq_some_iff.1 h
      exact .positive (digits_iff.2 hm)
    · next digits =>
        cases hread : readNat? digits with
        | none =>
            rw [hread] at h
            cases h
        | some m =>
            rw [hread] at h
            cases h
            exact .negative (digits_iff.2 hread)
    · obtain ⟨m, hm, rfl⟩ := Option.map_eq_some_iff.1 h
      exact .unsigned (digits_iff.2 hm)

/-- The characters that stand for an integer are no blanks. -/
theorem Integer.not_blank {text : List Char} {n : Int} (h : Integer text n) :
    ∀ c ∈ text, isBlank c = false := by
  have hdigits {digits : List Char} {m : Nat} (hm : Digits digits m) : ∀ c ∈ digits, isBlank c = false := by
    intro c hmem
    obtain ⟨hlt, hchar⟩ := digitChar_digitValue (List.all_eq_true.1 hm.value.2.1 c hmem)
    rw [← hchar]
    exact (of_digitChar hlt).2.2
  cases h with
  | unsigned h => exact hdigits h
  | positive h => exact List.forall_mem_cons.2 ⟨by decide, hdigits h⟩
  | negative h => exact List.forall_mem_cons.2 ⟨by decide, hdigits h⟩

/-! ## Blanks -/

/-- A text without blanks is left when the blanks before and after it are taken off. -/
theorem trim_append {before core after : List Char} (hbefore : ∀ c ∈ before, isBlank c = true)
    (hafter : ∀ c ∈ after, isBlank c = true) (hcore : ∀ c ∈ core, isBlank c = false) :
    trim (before ++ core ++ after) = core := by
  have hself {text : List Char} (htext : ∀ c ∈ text, isBlank c = false) : text.dropWhile isBlank = text := by
    cases text with
    | nil => rfl
    | cons c rest => exact List.dropWhile_cons_of_neg (by simp [htext c List.mem_cons_self])
  have hnone {text : List Char} (htext : ∀ c ∈ text, isBlank c = true) : text.dropWhile isBlank = [] :=
    List.dropWhile_eq_nil_iff.2 htext
  have hfront : (before ++ core ++ after).dropWhile isBlank = (core ++ after).dropWhile isBlank := by
    rw [List.append_assoc, List.dropWhile_append_of_pos hbefore]
  cases core with
  | nil =>
      rw [trim, hfront, List.nil_append, hnone hafter]
      rfl
  | cons c rest =>
      have hhead : (c :: rest ++ after).dropWhile isBlank = c :: rest ++ after :=
        List.dropWhile_cons_of_neg (by simp [hcore c List.mem_cons_self])
      have hback : (c :: rest).reverse.dropWhile isBlank = (c :: rest).reverse :=
        hself fun d hmem => hcore d (List.mem_reverse.1 hmem)
      rw [trim, hfront, hhead, List.reverse_append,
        List.dropWhile_append_of_pos fun d hmem => hafter d (List.mem_reverse.1 hmem), hback,
        List.reverse_reverse]

/-- A text is what is left of it with the blanks before and after it. -/
theorem exists_trim (text : List Char) :
    ∃ before after, text = before ++ trim text ++ after ∧ (∀ c ∈ before, isBlank c = true) ∧
      ∀ c ∈ after, isBlank c = true := by
  let rest := text.dropWhile isBlank
  have hrest : rest = trim text ++ (rest.reverse.takeWhile isBlank).reverse := by
    have hsplit := List.takeWhile_append_dropWhile (p := isBlank) (l := rest.reverse)
    rw [trim, ← List.reverse_append, hsplit, List.reverse_reverse]
  refine ⟨text.takeWhile isBlank, (rest.reverse.takeWhile isBlank).reverse, ?_, ?_, ?_⟩
  · rw [List.append_assoc, ← hrest]
    exact List.takeWhile_append_dropWhile.symm
  · intro c hmem
    exact List.mem_takeWhile_imp hmem
  · intro c hmem
    exact List.mem_takeWhile_imp (List.mem_reverse.1 hmem)

/-- A text stands for the integer that is read when the blanks around it are taken off. -/
theorem denotes_iff {text : String} {n : Int} :
    Denotes text n ↔ readInt? (trim text.toList) = some n := by
  constructor
  · rintro ⟨before, core, after, htext, hbefore, hafter, hcore⟩
    rw [htext, trim_append hbefore hafter hcore.not_blank]
    exact integer_iff.1 hcore
  · intro hread
    obtain ⟨before, after, htext, hbefore, hafter⟩ := exists_trim text.toList
    exact ⟨before, trim text.toList, after, htext, hbefore, hafter, integer_iff.2 hread⟩

/-- A text stands for one integer at most. -/
theorem Denotes.unique {text : String} {n n' : Int} (h : Denotes text n) (h' : Denotes text n') : n = n' :=
  Option.some.inj ((denotes_iff.1 h).symm.trans (denotes_iff.1 h'))

/-- A text that stands for an integer is not empty. -/
theorem Denotes.ne_empty {text : String} {n : Int} (h : Denotes text n) : text ≠ "" := by
  rintro rfl
  cases denotes_iff.1 h

/-- The decimal text of an integer stands for it, also with blanks around it. -/
theorem denotes_toString (n : Int) {before after : List Char} (hbefore : ∀ c ∈ before, isBlank c = true)
    (hafter : ∀ c ∈ after, isBlank c = true) :
    Denotes (String.ofList (before ++ (toString n).toList ++ after)) n := by
  have hdigits (m : Nat) : Digits m.repr.toList m := by
    have htext : m.repr.toList = Nat.toDigits 10 m := by simp [Nat.repr]
    have hvalue : digitsValue (Nat.toDigits 10 m) = m := Nat.ofDigitChars_ten_toDigits
    have hall : (Nat.toDigits 10 m).all Char.isDigit = true :=
      List.all_eq_true.2 fun c => Nat.isDigit_of_mem_toDigits (by decide) (by decide)
    have h := digits_digitsValue Nat.toDigits_ne_nil hall
    rwa [hvalue, ← htext] at h
  refine ⟨before, (toString n).toList, after, String.toList_ofList, hbefore, hafter, ?_⟩
  cases n with
  | ofNat m => exact .unsigned (hdigits m)
  | negSucc m =>
      have htext : (toString (Int.negSucc m)).toList = '-' :: (m + 1).repr.toList := by
        show ("-" ++ (m + 1).repr).toList = _
        rw [String.toList_append]
        rfl
      rw [htext]
      exact .negative (hdigits (m + 1))

/-! ## Checked arithmetic -/

/-- The result of an operation on 64-bit integers, unless it overflows. -/
def checked (n : Int) : Option Int64 :=
  if inInt64 n then some (Int64.ofInt n) else none

/-- An integer with one more digit, which is added or taken off. Each of the two operations is checked. -/
def accumulate? (negative : Bool) (n : Int64) (c : Char) : Option Int64 :=
  if c.isDigit then do
    let tens ← checked (10 * n.toInt)
    checked (if negative then tens.toInt - digitValue c else tens.toInt + digitValue c)
  else none

/-- The integer of a sign and digits, read digit by digit. -/
def checkedDigits? (negative : Bool) (digits : List Char) : Option Int64 :=
  if digits = [] then none else digits.foldlM (accumulate? negative) 0

/-- The signed 64-bit integer that a text denotes, read digit by digit. -/
def checkedInt64? (text : List Char) : Option Int64 :=
  match trim text with
  | '+' :: digits => checkedDigits? false digits
  | '-' :: digits => checkedDigits? true digits
  | digits => checkedDigits? false digits

/-- A number with a sign. -/
def signed (negative : Bool) (n : Nat) : Int :=
  if negative then -(n : Int) else n

/-- The range of signed 64-bit integers. -/
theorem inInt64_iff {n : Int} :
    inInt64 n = true ↔ -0x8000000000000000 ≤ n ∧ n < 0x8000000000000000 := by
  rw [inInt64, Bool.and_eq_true, decide_eq_true_eq, decide_eq_true_eq]

/-- A greater number with the same sign is not in range either. -/
theorem not_inInt64_signed_of_le {negative : Bool} {m n : Nat} (hle : m ≤ n)
    (hm : inInt64 (signed negative m) = false) : inInt64 (signed negative n) = false := by
  rw [Bool.eq_false_iff, ne_eq, inInt64_iff] at hm ⊢
  cases negative with
  | false =>
      simp only [signed, Bool.false_eq_true, if_false] at hm ⊢
      omega
  | true =>
      simp only [signed, if_true] at hm ⊢
      omega

/-- What is in range is the result of a checked operation. -/
theorem checked_of_fits {n : Int} (hn : inInt64 n = true) : checked n = some (Int64.ofInt n) :=
  if_pos hn

/-- What is not in range is an overflow. -/
theorem checked_of_over {n : Int} (hn : inInt64 n = false) : checked n = none :=
  if_neg (Bool.eq_false_iff.1 hn)

/-- More digits make no smaller number. -/
theorem le_foldl_digits (digits : List Char) (n : Nat) :
    n ≤ digits.foldl (fun value c => 10 * value + digitValue c) n := by
  induction digits generalizing n with
  | nil => exact Nat.le_refl n
  | cons c rest ih =>
      have hstep : n ≤ 10 * n + digitValue c := by omega
      exact Nat.le_trans hstep (ih _)

/-- The integer of a number in range has the number's value. -/
theorem toInt_ofInt_signed {negative : Bool} {n : Nat} (hn : inInt64 (signed negative n) = true) :
    (Int64.ofInt (signed negative n)).toInt = signed negative n :=
  Int64.toInt_ofInt_of_le (inInt64_iff.1 hn).1 (inInt64_iff.1 hn).2

/-- One more digit makes the number that it should, or overflows. -/
theorem accumulate?_signed {negative : Bool} {n : Nat} (hn : inInt64 (signed negative n) = true) {c : Char}
    (hc : c.isDigit = true) :
    accumulate? negative (Int64.ofInt (signed negative n)) c =
      checked (signed negative (10 * n + digitValue c)) := by
  have htens : 10 * signed negative n = signed negative (10 * n) := by
    cases negative with
    | false => rfl
    | true =>
        show 10 * -(n : Int) = -((10 * n : Nat) : Int)
        omega
  have hdigit : (if negative then signed negative (10 * n) - digitValue c
      else signed negative (10 * n) + digitValue c) = signed negative (10 * n + digitValue c) := by
    cases negative with
    | false => rfl
    | true =>
        show -((10 * n : Nat) : Int) - digitValue c = -((10 * n + digitValue c : Nat) : Int)
        omega
  rw [accumulate?, if_pos hc, toInt_ofInt_signed hn, htens]
  cases hfits : inInt64 (signed negative (10 * n)) with
  | true =>
      rw [checked_of_fits hfits]
      show checked (if _ then _ else _) = _
      rw [toInt_ofInt_signed hfits, hdigit]
  | false =>
      -- The tens overflow, so the number does.
      have hle : 10 * n ≤ 10 * n + digitValue c := by omega
      rw [checked_of_over hfits, checked_of_over (not_inInt64_signed_of_le hle hfits)]
      rfl

/-- Digit by digit the same number is read as at once. An overflow on the way stays one, for the numbers on
the way do not get smaller. -/
theorem foldlM_accumulate (negative : Bool) (digits : List Char) {n : Nat}
    (hn : inInt64 (signed negative n) = true) :
    digits.foldlM (accumulate? negative) (Int64.ofInt (signed negative n)) =
      if digits.all Char.isDigit then
        checked (signed negative (digits.foldl (fun value c => 10 * value + digitValue c) n))
      else none := by
  induction digits generalizing n with
  | nil =>
      exact (checked_of_fits hn).symm
  | cons c rest ih =>
      rw [List.foldlM_cons, List.all_cons, List.foldl_cons]
      cases hc : c.isDigit with
      | false =>
          rw [accumulate?, hc]
          rfl
      | true =>
          rw [accumulate?_signed hn hc, Bool.true_and]
          cases hnext : inInt64 (signed negative (10 * n + digitValue c)) with
          | true =>
              rw [checked_of_fits hnext]
              exact ih hnext
          | false =>
              rw [checked_of_over hnext,
                checked_of_over (not_inInt64_signed_of_le (le_foldl_digits rest _) hnext), ite_self]
              rfl

/-- A sign and digits are read digit by digit as at once. -/
theorem checkedDigits?_eq (negative : Bool) (digits : List Char) :
    checkedDigits? negative digits = (readNat? digits).bind fun n => checked (signed negative n) := by
  have hzero : inInt64 (signed negative 0) = true := by
    cases negative <;> rfl
  have hfold : digits.foldlM (accumulate? negative) 0 =
      if digits.all Char.isDigit then checked (signed negative (digitsValue digits)) else none := by
    have h := foldlM_accumulate negative digits hzero
    have hstart : Int64.ofInt (signed negative 0) = 0 := by
      cases negative <;> rfl
    rwa [hstart] at h
  rw [checkedDigits?, readNat?, hfold]
  by_cases hne : digits = []
  · simp [hne]
  · cases hall : digits.all Char.isDigit <;> simp [hne]

/-- A number that is read is what is checked, with its sign. -/
theorem bind_checked_signed (negative : Bool) (digits : List Char) :
    ((readNat? digits).bind fun n => checked (signed negative n)) =
      ((readNat? digits).map (signed negative)).bind checked := by
  rw [Option.bind_map]
  rfl

/-- Reading a text digit by digit with checked arithmetic gives what reading it at once gives. -/
theorem checkedInt64?_eq (text : List Char) : checkedInt64? text = readInt64? text := by
  have hread : readInt64? text = (readInt? (trim text)).bind checked := by
    unfold readInt64?
    cases readInt? (trim text) <;> rfl
  rw [hread, checkedInt64?]
  split
  · next digits hcore =>
      have hsign : readInt? ('+' :: digits) = (readNat? digits).map (signed false) := by
        simp only [readInt?]
        rfl
      rw [hcore, hsign, checkedDigits?_eq, bind_checked_signed]
  · next digits hcore =>
      have hsign : readInt? ('-' :: digits) = (readNat? digits).map (signed true) := by
        simp only [readInt?]
        cases readNat? digits <;> rfl
      rw [hcore, hsign, checkedDigits?_eq, bind_checked_signed]
  · next hplus hminus =>
      have hsign : readInt? (trim text) = (readNat? (trim text)).map (signed false) := by
        unfold readInt?
        split
        · next digits hcore => exact absurd hcore (hplus digits)
        · next digits hcore => exact absurd hcore (hminus digits)
        · rfl
      rw [hsign, checkedDigits?_eq, bind_checked_signed]

/-- A 64-bit integer is in range. -/
theorem inInt64_toInt (n : Int64) : inInt64 n.toInt = true :=
  inInt64_iff.2 ⟨n.le_toInt, n.toInt_lt⟩

end Text

/-! ## Getting integers -/

namespace Environment

variable {environment : Environment} {name : String} {default : Int64}

/-- What the ways to get a variable as an integer give. -/
structure IntegerResults where
  required : Except ConfigError Int64
  optional : Except ConfigError (Option Int64)
  orDefault : Int64
  count : Except ConfigError (Option Nat)

/-- What getting a variable as an integer gives, in each of the ways there are. -/
def integerResults (environment : Environment) (name : String) (default : Int64) : IntegerResults where
  required := environment.requireInt name
  optional := environment.int? name
  orDefault := environment.getInt name default
  count := environment.count? name

/-- A variable is not set, or set to the empty text. -/
def Unset (environment : Environment) (name : String) : Prop :=
  environment.bindings.find? name = none ∨ environment.bindings.find? name = some ""

/-- What should come of getting a variable as an integer: the variable is not set, denotes a 64-bit integer
or is malformed, and in each of the cases every way to get it has its own answer. -/
inductive IntegerCases (environment : Environment) (name : String) (default : Int64) :
    IntegerResults → Prop where
  | unset (hunset : environment.Unset name) :
      IntegerCases environment name default
        ⟨.error (.missingVariable name), .ok none, default, .ok none⟩
  | integer {text : String} {n : Int64} (htext : environment.SetsText name text)
      (hn : Text.Denotes text n.toInt) :
      IntegerCases environment name default
        ⟨.ok n, .ok (some n), n,
          if 0 ≤ n.toInt then .ok (some n.toInt.toNat)
          else .error (.invalidVariable name (toString n.toInt) .nonNegativeInteger)⟩
  | malformed {text : String} (htext : environment.SetsText name text)
      (hother : ∀ n : Int64, ¬ Text.Denotes text n.toInt) :
      IntegerCases environment name default
        ⟨.error (.invalidVariable name text .integer), .error (.invalidVariable name text .integer), default,
          .error (.invalidVariable name text .integer)⟩

/-- A variable that is not set has no text. -/
theorem unset_iff : environment.Unset name ↔ environment.value? name = none := by
  unfold Unset value?
  cases environment.bindings.find? name <;> simp

/-- The integer that a variable is set to is the one that its text stands for. -/
theorem setsInteger_toInt_iff {text : String} (htext : environment.SetsText name text) {n : Int64} :
    environment.SetsInteger name n.toInt ↔ Text.Denotes text n.toInt := by
  rw [setsInteger_iff (setsText_iff.1 htext), Text.denotes_iff, and_iff_left (Text.inInt64_toInt n)]

/-- A default stands in for an integer that would fail to be given. -/
theorem getInt_eq : environment.getInt name default = match environment.requireInt name with
    | .ok n => n
    | .error _ => default := by
  unfold getInt requireInt require
  cases environment.value? name with
  | none => rfl
  | some text =>
      show (Text.readInt64? text.toList).getD default = _
      cases hread : Text.readInt64? text.toList <;> simp [hread, bind, Except.bind, pure, Except.pure, throw,
        throwThe, MonadExceptOf.throw]

/-- What comes of a variable that is missing. -/
theorem integerResults_of_missing (h : environment.requireInt name = .error (.missingVariable name)) :
    environment.integerResults name default =
      ⟨.error (.missingVariable name), .ok none, default, .ok none⟩ := by
  rw [integerResults, count?, int?, getInt_eq, h]
  rfl

/-- What comes of a variable that is an integer. -/
theorem integerResults_of_ok {n : Int64} (h : environment.requireInt name = .ok n) :
    environment.integerResults name default =
      ⟨.ok n, .ok (some n), n,
        if 0 ≤ n.toInt then .ok (some n.toInt.toNat)
        else .error (.invalidVariable name (toString n.toInt) .nonNegativeInteger)⟩ := by
  rw [integerResults, count?, int?, getInt_eq, h]
  rfl

/-- What comes of a variable that is something else. -/
theorem integerResults_of_invalid {text : String}
    (h : environment.requireInt name = .error (.invalidVariable name text .integer)) :
    environment.integerResults name default =
      ⟨.error (.invalidVariable name text .integer), .error (.invalidVariable name text .integer), default,
        .error (.invalidVariable name text .integer)⟩ := by
  rw [integerResults, count?, int?, getInt_eq, h]
  rfl

/-- In each case comes of a variable what should. -/
theorem integerCases_integerResults :
    IntegerCases environment name default (environment.integerResults name default) := by
  obtain ⟨hnone, hmissing⟩ | ⟨n, hn, hinteger⟩ | ⟨text, htext, hother, hinvalid⟩ :=
    environment.requireInt_cases name
  · rw [integerResults_of_missing hmissing]
    exact .unset (unset_iff.2 hnone)
  · obtain ⟨text, htext, -⟩ := id hn
    rw [integerResults_of_ok hinteger]
    rw [← hn.toInt_ofInt] at hn
    exact .integer htext ((setsInteger_toInt_iff htext).1 hn)
  · rw [integerResults_of_invalid hinvalid]
    exact .malformed htext fun n hn => hother n.toInt ((setsInteger_toInt_iff htext).2 hn)

/-- A variable is in one of the cases only, with one answer to each way to get it. -/
theorem IntegerCases.unique {results results' : IntegerResults}
    (h : IntegerCases environment name default results)
    (h' : IntegerCases environment name default results') : results = results' := by
  have hset {text : String} (hunset : environment.Unset name) : ¬ environment.SetsText name text := by
    rw [setsText_iff, unset_iff.1 hunset]
    exact nofun
  have hsame {text text' : String} (htext : environment.SetsText name text)
      (htext' : environment.SetsText name text') : text = text' :=
    Option.some.inj (htext.1.symm.trans htext'.1)
  cases h with
  | unset hunset =>
      cases h' with
      | unset => rfl
      | integer htext' | malformed htext' => exact absurd htext' (hset hunset)
  | integer htext hn =>
      cases h' with
      | unset hunset' => exact absurd htext (hset hunset')
      | integer htext' hn' =>
          obtain rfl := hsame htext htext'
          obtain rfl := Int64.toInt_inj.1 (hn.unique hn')
          rfl
      | malformed htext' hother' =>
          obtain rfl := hsame htext htext'
          exact absurd hn (hother' _)
  | malformed htext hother =>
      cases h' with
      | unset hunset' => exact absurd htext (hset hunset')
      | integer htext' hn' =>
          obtain rfl := hsame htext htext'
          exact absurd hn' (hother _)
      | malformed htext' =>
          obtain rfl := hsame htext htext'
          rfl

/-- A variable has the answers of its case. -/
theorem integerCases_iff {results : IntegerResults} :
    IntegerCases environment name default results ↔ environment.integerResults name default = results :=
  ⟨integerCases_integerResults.unique, fun h => h ▸ integerCases_integerResults⟩

end Environment

/-- Whether a variable is unset, a 64-bit integer or malformed is the same for all ways to get it, which have the
answers of `Environment.IntegerCases` and no others. An integer is read back from its decimal text, also with
blanks around it. An integer that is out of range is malformed, and checked arithmetic on the digits refuses
exactly the texts that are refused. -/
theorem integer_accessors_agree (environment : Environment) (name : String) (default : Int64) :
    (∀ results, environment.IntegerCases name default results ↔
      environment.integerResults name default = results) ∧
    (∀ (n : Int64) (before after : List Char), (∀ c ∈ before, Text.isBlank c = true) →
      (∀ c ∈ after, Text.isBlank c = true) →
      environment.bindings.find? name = some (String.ofList (before ++ (toString n.toInt).toList ++ after)) →
      environment.requireInt name = .ok n ∧ environment.int? name = .ok (some n) ∧
        environment.getInt name default = n) ∧
    (∀ (text : String) (n : Int), environment.bindings.find? name = some text → Text.Denotes text n →
      n < -0x8000000000000000 ∨ 0x8000000000000000 ≤ n →
      environment.requireInt name = .error (.invalidVariable name text .integer) ∧
        environment.int? name = .error (.invalidVariable name text .integer) ∧
        environment.getInt name default = default ∧
        environment.count? name = .error (.invalidVariable name text .integer)) ∧
    ∀ text, Text.checkedInt64? text = Text.readInt64? text := by
  have hsets {text : String} {n : Int} (hfind : environment.bindings.find? name = some text)
      (hn : Text.Denotes text n) : environment.SetsText name text :=
    ⟨hfind, hn.ne_empty⟩
  refine ⟨fun _ => Environment.integerCases_iff, ?_, ?_, Text.checkedInt64?_eq⟩
  · intro n before after hbefore hafter hfind
    have hn := Text.denotes_toString n.toInt hbefore hafter
    have hcase : environment.IntegerCases name default _ := .integer (hsets hfind hn) hn
    have hresults := Environment.integerCases_iff.1 hcase
    exact ⟨congrArg (·.required) hresults, congrArg (·.optional) hresults, congrArg (·.orDefault) hresults⟩
  · intro text n hfind hn hrange
    have hother (n' : Int64) : ¬ Text.Denotes text n'.toInt := by
      intro hn'
      obtain rfl := hn.unique hn'
      have hbounds := Text.inInt64_iff.1 (Text.inInt64_toInt n')
      omega
    have hcase : environment.IntegerCases name default _ := .malformed (hsets hfind hn) hother
    have hresults := Environment.integerCases_iff.1 hcase
    exact ⟨congrArg (·.required) hresults, congrArg (·.optional) hresults, congrArg (·.orDefault) hresults,
      congrArg (·.count) hresults⟩

/-- The least integer between blanks is read, and the one below it is malformed. -/
theorem integer_accessors_agree_least :
    let environment : Environment :=
      ⟨.ofList [("LEAST", "\u3000-9223372036854775808 "), ("LESS", "-9223372036854775809")]⟩
    environment.requireInt "LEAST" = .ok Int64.minValue ∧ environment.getInt "LESS" 7 = 7 ∧
      environment.count? "LESS" = .error (.invalidVariable "LESS" "-9223372036854775809" .integer) := by
  intro environment
  have hleast := (integer_accessors_agree environment "LEAST" 7).2.1 Int64.minValue ['\u3000'] [' ']
    (List.forall_mem_singleton.2 rfl) (List.forall_mem_singleton.2 rfl) (by decide)
  have hless := (integer_accessors_agree environment "LESS" 7).2.2.1 "-9223372036854775809"
    (-9223372036854775809) (by decide) (Text.denotes_iff.2 (by decide)) (by decide)
  exact ⟨hleast.1, hless.2.2⟩

end AccountPool
