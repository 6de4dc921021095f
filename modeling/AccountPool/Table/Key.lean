/-!
# Keys

A key names a row of a table by a partition value and possibly a sort value. Keys are ordered by
partition, then by sort; no sort value comes before any. Texts are ordered by their characters.
-/

namespace AccountPool

/-- The key of a row. -/
structure Key where
  /-- The partition value. -/
  partition : String
  /-- The sort value, if the key has one. -/
  sort : Option String := none
deriving DecidableEq, Repr, Inhabited

namespace Key

/-- Keys are compared by partition first, then by sort value. -/
instance : Ord Key where
  compare first second :=
    (compare first.partition second.partition).then (compare first.sort second.sort)

theorem compare_def (first second : Key) :
    compare first second =
      (compare first.partition second.partition).then (compare first.sort second.sort) :=
  rfl

instance : Std.OrientedOrd Key where
  eq_swap := by
    intro first second
    rw [compare_def, compare_def, Std.OrientedOrd.eq_swap (a := first.partition),
      Std.OrientedOrd.eq_swap (a := first.sort)]
    cases compare second.partition first.partition <;>
      cases compare second.sort first.sort <;> rfl

instance : Std.TransOrd Key where
  isLE_trans := by
    intro first second third
    simp only [compare_def, Ordering.isLE_then_iff_or]
    rintro (hlt | ⟨heq, hsort⟩) (hlt' | ⟨heq', hsort'⟩)
    · exact .inl (Std.TransCmp.lt_trans hlt hlt')
    · exact .inl (Std.TransCmp.lt_of_lt_of_eq hlt heq')
    · exact .inl (Std.TransCmp.lt_of_eq_of_lt heq hlt')
    · exact .inr ⟨Std.TransCmp.eq_trans heq heq', Std.TransCmp.isLE_trans hsort hsort'⟩

instance : Std.LawfulEqOrd Key where
  compare_self := by
    intro key
    simp
  eq_of_compare := by
    intro first second heq
    rw [compare_def, Ordering.then_eq_eq] at heq
    obtain ⟨partition, sort⟩ := first
    obtain ⟨partition', sort'⟩ := second
    simpa using And.intro (Std.LawfulEqOrd.eq_of_compare heq.1) (Std.LawfulEqOrd.eq_of_compare heq.2)

/-- The key as shown in messages. -/
def display (key : Key) : String :=
  match key.sort with
  | none => key.partition
  | some sort => key.partition ++ "/" ++ sort

end Key

end AccountPool
