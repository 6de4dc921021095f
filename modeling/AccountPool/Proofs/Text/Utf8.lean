import AccountPool.Table.Key

/-!
# Texts in the order of their bytes

A text is kept as bytes, and whoever keeps it may compare bytes instead of characters. The first code unit
of a character grows with the number of its code units, and code units of one number are the digits of the
code point to base 64. So encodings differ as the characters do, whatever follows them,
`compare_codeUnits_append`, and bytes, code points and characters order texts alike, `Text.compare_bytes`.
-/

namespace AccountPool

/-! ## Comparisons of lists -/

section Lists

variable {α β : Type} [Ord α] [Ord β]

/-- A map under which the smaller one of two elements stays the smaller one keeps every comparison. -/
theorem compare_eq_of_lt_iff [Std.OrientedOrd α] [Std.LawfulEqOrd α] [Std.OrientedOrd β] {f : α → β}
    (hlt : ∀ first second, compare (f first) (f second) = .lt ↔ compare first second = .lt)
    (first second : α) : compare (f first) (f second) = compare first second := by
  cases horder : compare first second with
  | lt => exact (hlt first second).2 horder
  | eq =>
      obtain rfl := Std.LawfulEqOrd.eq_of_compare horder
      exact Std.ReflCmp.compare_self
  | gt =>
      have hswap : compare second first = .lt := Std.OrientedCmp.lt_of_gt horder
      exact Std.OrientedCmp.gt_of_lt ((hlt second first).2 hswap)

/-- Lists are compared as their elements are. -/
theorem compare_map {f : α → β} (hf : ∀ first second, compare (f first) (f second) = compare first second)
    (first second : List α) : compare (first.map f) (second.map f) = compare first second := by
  induction first generalizing second with
  | nil => cases second <;> rfl
  | cons head rest ih =>
      cases second with
      | nil => rfl
      | cons head' rest' =>
          rw [List.map_cons, List.map_cons, List.compare_cons_cons, List.compare_cons_cons, hf, ih]

/-- Lists that begin alike are compared by what follows. -/
theorem compare_append_left [Std.ReflOrd α] (common first second : List α) :
    compare (common ++ first) (common ++ second) = compare first second := by
  induction common with
  | nil => rfl
  | cons head common ih =>
      have hhead : compare head head = .eq := Std.ReflOrd.compare_self
      rw [List.cons_append, List.cons_append, List.compare_cons_cons, hhead]
      exact ih

end Lists

/-- A list of numbers comes first if its first number is smaller, or if it is the same and the rest comes
first. -/
theorem compare_cons_eq_lt {m n : Nat} {first second : List Nat} :
    compare (m :: first) (n :: second) = .lt ↔ m < n ∨ m = n ∧ compare first second = .lt := by
  rw [List.compare_cons_cons, Ordering.then_eq_lt, Nat.compare_eq_lt, Nat.compare_eq_eq]

/-! ## Code units -/

/-- The code units of a code point: a first one that tells how many there are, and digits to base 64. -/
def codeUnits (point : Nat) : List Nat :=
  if point ≤ 0x7f then [point]
  else if point ≤ 0x7ff then [0xc0 + point / 0x40, 0x80 + point % 0x40]
  else if point ≤ 0xffff then [0xe0 + point / 0x1000, 0x80 + point / 0x40 % 0x40, 0x80 + point % 0x40]
  else [0xf0 + point / 0x40000, 0x80 + point / 0x1000 % 0x40, 0x80 + point / 0x40 % 0x40,
    0x80 + point % 0x40]

/-- Every code point is below a bound. -/
theorem toNat_lt_of_char (c : Char) : c.toNat < 0x110000 := by
  have hvalid := c.valid
  unfold UInt32.isValidChar Nat.isValidChar at hvalid
  show c.val.toNat < 0x110000
  omega

/-- A character is encoded by the code units of its code point. -/
theorem map_toNat_encoding (c : Char) :
    (String.utf8EncodeChar c).map UInt8.toNat = codeUnits c.toNat := by
  have hlt := toNat_lt_of_char c
  have hval : c.val.toNat = c.toNat := rfl
  unfold String.utf8EncodeChar codeUnits
  simp only [hval]
  -- In each case the units fit into bytes, and no digit is lost at the top.
  split
  · simp only [List.map_cons, List.map_nil, UInt8.toNat_ofNat', List.cons.injEq, and_true]
    omega
  · split
    · simp only [List.map_cons, List.map_nil, UInt8.toNat_ofNat', List.cons.injEq, and_true]
      omega
    · split
      · simp only [List.map_cons, List.map_nil, UInt8.toNat_ofNat', List.cons.injEq, and_true]
        omega
      · simp only [List.map_cons, List.map_nil, UInt8.toNat_ofNat', List.cons.injEq, and_true]
        omega

/-- The code units of a smaller code point come first, whatever follows them. -/
theorem compare_codeUnits_of_lt {m n : Nat} (hlt : m < n) (hn : n < 0x110000) (first second : List Nat) :
    compare (codeUnits m ++ first) (codeUnits n ++ second) = .lt := by
  unfold codeUnits
  -- With fewer code units the first one is smaller; with as many of them the digits to base 64 decide.
  by_cases hm1 : m ≤ 0x7f
  · by_cases hn1 : n ≤ 0x7f <;> by_cases hn2 : n ≤ 0x7ff <;> by_cases hn3 : n ≤ 0xffff <;>
      simp only [hm1, hn1, hn2, hn3, if_true, if_false, List.cons_append, compare_cons_eq_lt] <;> omega
  have hn1 : ¬ n ≤ 0x7f := by omega
  by_cases hm2 : m ≤ 0x7ff
  · by_cases hn2 : n ≤ 0x7ff <;> by_cases hn3 : n ≤ 0xffff <;>
      simp only [hm1, hm2, hn1, hn2, hn3, if_true, if_false, List.cons_append, compare_cons_eq_lt] <;> omega
  have hn2 : ¬ n ≤ 0x7ff := by omega
  by_cases hm3 : m ≤ 0xffff
  · by_cases hn3 : n ≤ 0xffff <;>
      simp only [hm1, hm2, hm3, hn1, hn2, hn3, if_true, if_false, List.cons_append, compare_cons_eq_lt] <;>
      omega
  have hn3 : ¬ n ≤ 0xffff := by omega
  simp only [hm1, hm2, hm3, hn1, hn2, hn3, if_false, List.cons_append, compare_cons_eq_lt]
  omega

/-- Encodings differ as the characters do, whatever follows them. -/
theorem compare_codeUnits_append (c d : Char) (first second : List Nat) :
    compare (codeUnits c.toNat ++ first) (codeUnits d.toNat ++ second) =
      (compare c.toNat d.toNat).then (compare first second) := by
  rcases Nat.lt_trichotomy c.toNat d.toNat with hlt | heq | hgt
  · rw [Nat.compare_eq_lt.2 hlt]
    exact compare_codeUnits_of_lt hlt (toNat_lt_of_char d) first second
  · rw [heq, compare_append_left, Nat.compare_eq_eq.2 rfl]
    rfl
  · rw [Nat.compare_eq_gt.2 hgt]
    exact Std.OrientedCmp.gt_of_lt (compare_codeUnits_of_lt hgt (toNat_lt_of_char c) second first)

/-- Lists of characters are compared by their code units as by their code points. -/
theorem compare_flatMap_codeUnits (first second : List Char) :
    compare (first.flatMap fun c => codeUnits c.toNat) (second.flatMap fun c => codeUnits c.toNat) =
      compare (first.map Char.toNat) (second.map Char.toNat) := by
  have hunits (c : Char) (rest : List Nat) : ∃ unit units, codeUnits c.toNat ++ rest = unit :: units := by
    unfold codeUnits
    split
    · exact ⟨_, _, rfl⟩
    · split
      · exact ⟨_, _, rfl⟩
      · split <;> exact ⟨_, _, rfl⟩
  induction first generalizing second with
  | nil =>
      cases second with
      | nil => rfl
      | cons d second =>
          obtain ⟨unit, units, heq⟩ := hunits d (second.flatMap fun c => codeUnits c.toNat)
          rw [List.flatMap_cons, heq]
          rfl
  | cons c first ih =>
      cases second with
      | nil =>
          obtain ⟨unit, units, heq⟩ := hunits c (first.flatMap fun c => codeUnits c.toNat)
          rw [List.flatMap_cons, heq]
          rfl
      | cons d second =>
          rw [List.flatMap_cons, List.flatMap_cons, compare_codeUnits_append, ih, List.map_cons,
            List.map_cons, List.compare_cons_cons]

/-! ## Texts -/

namespace Text

/-- The bytes of a text. -/
def bytes (text : String) : List UInt8 :=
  text.toUTF8.data.toList

/-- The code points of a text. -/
def codePoints (text : String) : List Nat :=
  text.toList.map Char.toNat

/-- The bytes of a text are the code units of its characters. -/
theorem map_toNat_bytes (text : String) :
    (bytes text).map UInt8.toNat = text.toList.flatMap fun c => codeUnits c.toNat := by
  have hbytes : bytes text = text.toList.flatMap String.utf8EncodeChar := by
    rw [bytes, ← String.ofList_toList (s := text)]
    show (String.ofList text.toList).toByteArray.data.toList = _
    rw [String.toByteArray_ofList, List.utf8Encode, List.toList_data_toByteArray, String.toList_ofList]
  rw [hbytes, List.map_flatMap]
  simp only [map_toNat_encoding]

/-- Bytes are compared as numbers. -/
theorem compare_toNat (first second : UInt8) : compare first.toNat second.toNat = compare first second := by
  refine compare_eq_of_lt_iff (fun first second => ?_) first second
  show _ ↔ compareOfLessAndEq first second = .lt
  rw [Nat.compare_eq_lt, compareOfLessAndEq_eq_lt, UInt8.lt_iff_toNat_lt]

/-- Texts are compared by their bytes as by their code points. -/
theorem compare_bytes (first second : String) :
    compare (bytes first) (bytes second) = compare (codePoints first) (codePoints second) := by
  rw [← compare_map compare_toNat, map_toNat_bytes, map_toNat_bytes]
  exact compare_flatMap_codeUnits first.toList second.toList

/-- Texts are compared by their code points. -/
theorem compare_codePoints (first second : String) :
    compare (codePoints first) (codePoints second) = compare first second := by
  refine compare_eq_of_lt_iff (fun first second => ?_) first second
  show _ ↔ compareOfLessAndEq first second = .lt
  rw [compareOfLessAndEq_eq_lt]
  show _ ↔ first.toList < second.toList
  unfold codePoints
  generalize first.toList = first
  generalize second.toList = second
  induction first generalizing second with
  | nil => cases second <;> simp [List.compare_nil_cons]
  | cons c first ih =>
      cases second with
      | nil => simp [List.compare_cons_nil]
      | cons d second =>
          have hchar : c < d ↔ c.toNat < d.toNat := Iff.rfl
          rw [List.map_cons, List.map_cons, compare_cons_eq_lt, List.cons_lt_cons_iff, ih, hchar,
            Char.toNat_inj]

end Text

end AccountPool
