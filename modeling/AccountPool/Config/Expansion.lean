/-!
# Expanding variable references

A reference is a name between `$` with an opening brace and the next closing brace. References are
replaced from left to right in one pass, so what a variable holds is not expanded again. A reference
without a name is dropped, and an opening without a closing brace stays as it is.
-/

namespace AccountPool.Expansion

/-- The characters before the first closing brace and those after it. -/
def splitAtBrace : List Char → Option (List Char × List Char)
  | [] => none
  | c :: rest =>
      if c = '\x7d' then some ([], rest)
      else (splitAtBrace rest).map fun (name, after) => (c :: name, after)

/-- What follows a closing brace is shorter than the whole. -/
theorem splitAtBrace_length {text name after : List Char}
    (hsplit : splitAtBrace text = some (name, after)) : after.length < text.length := by
  induction text generalizing name with
  | nil => simp [splitAtBrace] at hsplit
  | cons c rest ih =>
      unfold splitAtBrace at hsplit
      split at hsplit
      · simp only [Option.some.injEq, Prod.mk.injEq] at hsplit
        simp [← hsplit.2]
      · obtain ⟨⟨inner, tail⟩, hfound, hpair⟩ := Option.map_eq_some_iff.1 hsplit
        simp only [Prod.mk.injEq] at hpair
        have hshorter := ih (hpair.2 ▸ hfound)
        simp only [List.length_cons]
        omega

/-- A piece of a text. -/
inductive Part where
  | char (c : Char)
  | reference (name : String)
deriving DecidableEq

/-- The pieces of a text, from left to right. -/
def parts : List Char → List Part
  | [] => []
  | [c] => [.char c]
  | c :: d :: rest =>
      if c = '$' ∧ d = '\x7b' then
        match hsplit : splitAtBrace rest with
        | none => (c :: d :: rest).map .char
        | some (name, after) =>
            have := splitAtBrace_length hsplit
            .reference (String.ofList name) :: parts after
      else .char c :: parts (d :: rest)
termination_by text => text.length

/-- What a piece becomes when `value` gives the texts of names. -/
def Part.expand (value : String → String) : Part → List Char
  | char c => [c]
  | reference name => if name.isEmpty then [] else (value name).toList

/-- The name in a piece that is a reference. -/
def Part.name? : Part → Option String
  | char _ => none
  | reference name => some name

end AccountPool.Expansion

namespace AccountPool

/-- The text with its references replaced by what `value` gives for their names. -/
def expandReferences (value : String → String) (text : String) : String :=
  String.ofList ((Expansion.parts text.toList).flatMap (Expansion.Part.expand value))

/-- The names that a text refers to. -/
def referencedNames (text : String) : List String :=
  (Expansion.parts text.toList).filterMap Expansion.Part.name?

end AccountPool
