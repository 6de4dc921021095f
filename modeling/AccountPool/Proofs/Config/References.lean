import AccountPool.Config.Expansion
import Mathlib.Data.List.Infix

/-!
# What expanding references gives

`Expansion.Expands` says what a text stands for: it is plain, or its leftmost opening is not closed, or its
leftmost opening and the next closing brace hold the name of a variable, whose value comes in their place; the
text after the brace is looked at next, the value is not. A text stands for one text only, and expansion gives
it: `expandReferences_substitutes`. Texts can be expanded in two parts if no reference is torn apart.
-/

namespace AccountPool.Expansion

/-! ## What a text stands for -/

/-- What a reference starts with. -/
def opening : List Char :=
  ['$', '\x7b']

/-- What comes in the place of a reference: nothing without a name, and nothing for a variable that is not set. -/
def inserted (source : String → Option String) (name : List Char) : List Char :=
  if name = [] then [] else ((source (String.ofList name)).getD "").toList

/-- A text stands for a result. -/
inductive Expands (source : String → Option String) : List Char → List Char → Prop where
  /-- A text without an opening stands for itself. -/
  | plain {text : List Char} (hplain : ¬ opening <:+: text) : Expands source text text
  /-- So does one whose leftmost opening is never closed. -/
  | unclosed {before rest : List Char} (hbefore : ¬ opening <:+: before) (hrest : '\x7d' ∉ rest) :
      Expands source (before ++ opening ++ rest) (before ++ opening ++ rest)
  /-- The leftmost opening, a name up to the next closing brace, and a text that stands for something itself. -/
  | reference {before name after result : List Char} (hbefore : ¬ opening <:+: before)
      (hname : '\x7d' ∉ name) (hafter : Expands source after result) :
      Expands source (before ++ opening ++ name ++ '\x7d' :: after)
        (before ++ inserted source name ++ result)

/-- Some opening is followed by a closing brace. -/
def HasReference (text : List Char) : Prop :=
  ∃ before name after, text = before ++ opening ++ name ++ '\x7d' :: after

/-- Some opening is not followed by a closing brace. -/
def IsOpen (text : List Char) : Prop :=
  ∃ before rest, text = before ++ opening ++ rest ∧ '\x7d' ∉ rest

/-- Two texts make an opening where they meet. -/
def Meet (first second : List Char) : Prop :=
  first.getLast? = some '$' ∧ second.head? = some '\x7b'

/-! ## Pieces -/

/-- A text is split at its first closing brace. -/
theorem splitAtBrace_append {name : List Char} (hname : '\x7d' ∉ name) (after : List Char) :
    splitAtBrace (name ++ '\x7d' :: after) = some (name, after) := by
  induction name with
  | nil => simp [splitAtBrace]
  | cons c name ih =>
      rw [List.mem_cons, not_or] at hname
      rw [List.cons_append, splitAtBrace, if_neg (Ne.symm hname.1), ih hname.2]
      rfl

/-- A text that is split has a closing brace. -/
theorem eq_of_splitAtBrace {text name after : List Char} (hsplit : splitAtBrace text = some (name, after)) :
    text = name ++ '\x7d' :: after ∧ '\x7d' ∉ name := by
  induction text generalizing name with
  | nil => cases hsplit
  | cons c text ih =>
      rw [splitAtBrace] at hsplit
      split at hsplit
      · next hbrace =>
          cases hsplit
          exact ⟨by rw [hbrace]; rfl, List.not_mem_nil⟩
      · next hbrace =>
          obtain ⟨⟨inner, tail⟩, hinner, hpair⟩ := Option.map_eq_some_iff.1 hsplit
          cases hpair
          obtain ⟨rfl, hmem⟩ := ih hinner
          exact ⟨rfl, by simp [hmem, Ne.symm hbrace]⟩

/-- A text that cannot be split has no closing brace. -/
theorem not_mem_of_splitAtBrace {text : List Char} (hsplit : splitAtBrace text = none) : '\x7d' ∉ text := by
  intro hmem
  obtain ⟨name, after, rfl, hname⟩ := List.eq_append_cons_of_mem hmem
  rw [splitAtBrace_append hname] at hsplit
  cases hsplit

/-- A character that does not start an opening is a piece of its own. -/
theorem parts_cons {c : Char} {text : List Char} (h : ¬ Meet [c] text) :
    parts (c :: text) = .char c :: parts text := by
  cases text with
  | nil => simp [parts]
  | cons d rest =>
      have hopening : ¬ (c = '$' ∧ d = '\x7b') := by simpa [Meet] using h
      rw [parts, if_neg hopening]

/-- An opening that is not closed consists of characters, with everything after it. -/
theorem parts_unclosed {rest : List Char} (hrest : '\x7d' ∉ rest) :
    parts (opening ++ rest) = (opening ++ rest).map .char := by
  show parts ('$' :: '\x7b' :: rest) = _
  rw [parts, if_pos ⟨rfl, rfl⟩]
  split
  · rfl
  · next hsplit =>
      obtain ⟨rfl, -⟩ := eq_of_splitAtBrace hsplit
      simp at hrest

/-- An opening that is closed is a reference. -/
theorem parts_reference {name : List Char} (hname : '\x7d' ∉ name) (after : List Char) :
    parts (opening ++ name ++ '\x7d' :: after) = .reference (String.ofList name) :: parts after := by
  show parts ('$' :: '\x7b' :: (name ++ '\x7d' :: after)) = _
  rw [parts, if_pos ⟨rfl, rfl⟩]
  split
  · next hsplit =>
      rw [splitAtBrace_append hname] at hsplit
      cases hsplit
  · next hsplit =>
      rw [splitAtBrace_append hname] at hsplit
      cases hsplit
      rfl

/-- Texts are made of characters, of openings that are not closed, and of references. -/
theorem induction_parts {motive : List Char → Prop} (nil : motive [])
    (char : ∀ c text, ¬ Meet [c] text → motive text → motive (c :: text))
    (unclosed : ∀ rest, '\x7d' ∉ rest → motive (opening ++ rest))
    (reference : ∀ name after, '\x7d' ∉ name → motive after →
      motive (opening ++ name ++ '\x7d' :: after)) (text : List Char) : motive text := by
  fun_induction parts text with
  | case1 => exact nil
  | case2 c => exact char c [] (by simp [Meet]) nil
  | case3 c d rest h hsplit =>
      obtain ⟨rfl, rfl⟩ := h
      exact unclosed rest (not_mem_of_splitAtBrace hsplit)
  | case4 c d rest h name after hsplit _ ih =>
      obtain ⟨rfl, rfl⟩ := h
      obtain ⟨rfl, hname⟩ := eq_of_splitAtBrace hsplit
      exact reference name after hname ih
  | case5 c d rest h ih => exact char c (d :: rest) (by simpa [Meet] using h) ih

/-! ## Two texts, one after the other -/

/-- Texts that make an opening where they meet do so whatever comes after. -/
theorem Meet.append {first second : List Char} (h : Meet first second) (rest : List Char) :
    Meet first (second ++ rest) := by
  obtain ⟨hlast, hhead⟩ := h
  exact ⟨hlast, by rw [List.head?_append, hhead]; rfl⟩

/-- Texts that make an opening where they meet do so whatever comes before. -/
theorem Meet.cons {first second : List Char} (h : Meet first second) (c : Char) :
    Meet (c :: first) second := by
  obtain ⟨hlast, hhead⟩ := h
  exact ⟨by rw [List.getLast?_cons, hlast]; rfl, hhead⟩

/-- No text makes an opening with one that starts with an opening. -/
theorem not_meet_opening (first rest : List Char) : ¬ Meet first (opening ++ rest) := by
  rintro ⟨-, hhead⟩
  exact absurd (Option.some.inj hhead) (by decide)

/-- What is open at the end of a text is open in front of it as well. -/
theorem IsOpen.append_left {text : List Char} (h : IsOpen text) (first : List Char) :
    IsOpen (first ++ text) := by
  obtain ⟨before, rest, rfl, hrest⟩ := h
  exact ⟨first ++ before, rest, by simp, hrest⟩

/-- A text that is plain is not open. -/
theorem not_isOpen_of_plain {text : List Char} (hplain : ¬ opening <:+: text) : ¬ IsOpen text := by
  rintro ⟨before, rest, rfl, -⟩
  exact hplain ⟨before, rest, rfl⟩

/-- The pieces of two texts are those of the first and those of the second, unless an opening of the first is
not closed there or one is made where they meet. -/
theorem parts_append {first second : List Char} (hopen : ¬ IsOpen first) (hmeet : ¬ Meet first second) :
    parts (first ++ second) = parts first ++ parts second := by
  induction first using induction_parts with
  | nil => simp [parts]
  | char c text h ih =>
      have hjoin : ¬ Meet [c] (text ++ second) := by
        cases text with
        | nil => exact hmeet
        | cons d text => exact h
      rw [List.cons_append, parts_cons hjoin, parts_cons h,
        ih (mt (IsOpen.append_left · [c]) hopen) (mt (Meet.cons · c) hmeet)]
      rfl
  | unclosed rest hrest => exact absurd ⟨[], rest, rfl, hrest⟩ hopen
  | reference name after hname ih =>
      have hafter : ¬ IsOpen after := fun h =>
        hopen (by simpa using h.append_left (opening ++ name ++ ['\x7d']))
      have hmeet' : ¬ Meet after second := by
        rintro ⟨hlast, hhead⟩
        refine hmeet ⟨?_, hhead⟩
        rw [List.getLast?_append, List.getLast?_cons, hlast]
        rfl
      rw [parts_reference hname after, List.cons_append, ← ih hafter hmeet',
        ← parts_reference hname (after ++ second)]
      simp

/-- A plain text consists of its characters. -/
theorem parts_of_plain {text : List Char} (hplain : ¬ opening <:+: text) : parts text = text.map .char := by
  induction text using induction_parts with
  | nil => simp [parts]
  | char c text h ih =>
      rw [parts_cons h, ih fun hinfix => hplain (List.infix_cons hinfix)]
      rfl
  | unclosed rest => exact absurd ⟨[], rest, rfl⟩ hplain
  | reference name after => exact absurd ⟨[], name ++ '\x7d' :: after, by simp⟩ hplain

/-! ## Expansion -/

section Expanded

variable (source : String → Option String)

/-- The characters of a text after expansion; a variable that is not set has no text. -/
def expanded (text : List Char) : List Char :=
  (parts text).flatMap (Part.expand fun name => (source name).getD "")

variable {source}

/-- A reference is expanded to what comes in its place. -/
theorem expand_reference (name : List Char) :
    (Part.reference (String.ofList name)).expand (fun name => (source name).getD "") =
      inserted source name := by
  show (if (String.ofList name).isEmpty then [] else ((source (String.ofList name)).getD "").toList) =
    if name = [] then [] else _
  have hempty : (String.ofList name).isEmpty = true ↔ name = [] := by
    rw [String.isEmpty_iff, String.ofList_eq_empty_iff]
  exact if_congr hempty rfl rfl

/-- Characters are expanded to themselves. -/
theorem flatMap_expand_char (value : String → String) (text : List Char) :
    (text.map Part.char).flatMap (Part.expand value) = text := by
  rw [List.flatMap_map]
  exact List.flatMap_singleton' text

/-- Two texts are expanded one after the other, unless a reference is torn apart. -/
theorem expanded_append {first second : List Char} (hopen : ¬ IsOpen first) (hmeet : ¬ Meet first second) :
    expanded source (first ++ second) = expanded source first ++ expanded source second := by
  rw [expanded, parts_append hopen hmeet, List.flatMap_append]
  rfl

/-- A plain text is expanded to itself. -/
theorem expanded_of_plain {text : List Char} (hplain : ¬ opening <:+: text) :
    expanded source text = text := by
  rw [expanded, parts_of_plain hplain, flatMap_expand_char]

/-- An opening that is not closed is expanded to itself, with everything after it. -/
theorem expanded_unclosed {rest : List Char} (hrest : '\x7d' ∉ rest) :
    expanded source (opening ++ rest) = opening ++ rest := by
  rw [expanded, parts_unclosed hrest, flatMap_expand_char]

/-- A reference is expanded to the value, which is not expanded itself. -/
theorem expanded_reference {name : List Char} (hname : '\x7d' ∉ name) (after : List Char) :
    expanded source (opening ++ name ++ '\x7d' :: after) =
      inserted source name ++ expanded source after := by
  rw [expanded, parts_reference hname, List.flatMap_cons, expand_reference]
  rfl

/-- A character in front of a text comes in front of what the text stands for. -/
theorem Expands.cons {c : Char} {text result : List Char} (h : ¬ Meet [c] text)
    (hexpands : Expands source text result) : Expands source (c :: text) (c :: result) := by
  have hplain {before : List Char} (h : ¬ Meet [c] before) (hbefore : ¬ opening <:+: before) :
      ¬ opening <:+: c :: before := by
    rw [List.infix_cons_iff]
    rintro (hhead | hinfix)
    · obtain ⟨hc, hhead⟩ := List.cons_prefix_cons.1 hhead
      refine h ⟨by rw [← hc]; rfl, ?_⟩
      obtain ⟨rest, rfl⟩ := hhead
      rfl
    · exact hbefore hinfix
  cases hexpands with
  | plain htext => exact .plain (hplain h htext)
  | @unclosed before rest hbefore hrest =>
      have hmeet : ¬ Meet [c] before := fun hmeet =>
        h (by simpa using hmeet.append (opening ++ rest))
      exact .unclosed (hplain hmeet hbefore) hrest
  | @reference before name after result hbefore hname hafter =>
      have hmeet : ¬ Meet [c] before := fun hmeet =>
        h (by simpa using hmeet.append (opening ++ name ++ '\x7d' :: after))
      exact .reference (hplain hmeet hbefore) hname hafter

/-- Every text stands for its expansion. -/
theorem expands_expanded (source : String → Option String) (text : List Char) :
    Expands source text (expanded source text) := by
  induction text using induction_parts with
  | nil =>
      rw [expanded_of_plain (by decide)]
      exact .plain (by decide)
  | char c text h ih =>
      have hcons : expanded source (c :: text) = c :: expanded source text := by
        rw [expanded, parts_cons h]
        rfl
      rw [hcons]
      exact ih.cons h
  | unclosed rest hrest =>
      rw [expanded_unclosed hrest]
      exact @Expands.unclosed source [] rest (by decide) hrest
  | reference name after hname ih =>
      rw [expanded_reference hname]
      exact @Expands.reference source [] name after _ (by decide) hname ih

/-- A text stands for nothing else. -/
theorem Expands.eq_expanded {text result : List Char} (h : Expands source text result) :
    result = expanded source text := by
  induction h with
  | plain hplain => rw [expanded_of_plain hplain]
  | @unclosed before rest hbefore hrest =>
      rw [List.append_assoc, expanded_append (not_isOpen_of_plain hbefore) (not_meet_opening _ _),
        expanded_of_plain hbefore, expanded_unclosed hrest]
  | @reference before name after result hbefore hname _ ih =>
      have hsplit : before ++ opening ++ name ++ '\x7d' :: after =
          before ++ (opening ++ (name ++ '\x7d' :: after)) := by simp
      rw [hsplit, expanded_append (not_isOpen_of_plain hbefore) (not_meet_opening _ _),
        expanded_of_plain hbefore, ← List.append_assoc opening, expanded_reference hname, ih,
        List.append_assoc]

/-- A text without a reference is expanded to itself. -/
theorem expanded_of_not_hasReference {text : List Char} (h : ¬ HasReference text) :
    expanded source text = text := by
  induction text using induction_parts with
  | nil => exact expanded_of_plain (by decide)
  | char c text hmeet ih =>
      have htext : ¬ HasReference text := by
        rintro ⟨before, name, after, rfl⟩
        exact h ⟨c :: before, name, after, rfl⟩
      rw [expanded, parts_cons hmeet]
      exact congrArg (c :: ·) (ih htext)
  | unclosed rest hrest => exact expanded_unclosed hrest
  | reference name after => exact absurd ⟨[], name, after, rfl⟩ h

end Expanded

end AccountPool.Expansion

namespace AccountPool

open Expansion

/-- A text stands for what expansion gives and for nothing else. -/
theorem expands_toList_iff {source : String → Option String} {text result : String} :
    Expands source text.toList result.toList ↔
      result = expandReferences (fun name => (source name).getD "") text := by
  have hexpand : expandReferences (fun name => (source name).getD "") text =
      String.ofList (expanded source text.toList) := rfl
  rw [hexpand]
  constructor
  · intro h
    rw [← h.eq_expanded, String.ofList_toList]
  · rintro rfl
    rw [String.toList_ofList]
    exact expands_expanded source text.toList

/-- For every source of variables and every text, expansion gives the one text that it stands for. A text without
a reference is given as it is, and two texts can be expanded one after the other if no opening in the first is
left unclosed and they make none where they meet. -/
theorem expandReferences_substitutes (source : String → Option String) (text : String) :
    let expand (text : String) : String := expandReferences (fun name => (source name).getD "") text
    (∀ result : String, Expands source text.toList result.toList ↔ result = expand text) ∧
    (¬ HasReference text.toList → expand text = text) ∧
    ∀ other : String, ¬ IsOpen text.toList → ¬ Meet text.toList other.toList →
      expand (text ++ other) = expand text ++ expand other := by
  intro expand
  have hexpand (text : String) : expand text = String.ofList (expanded source text.toList) := rfl
  refine ⟨fun result => expands_toList_iff, fun h => ?_, fun other hopen hmeet => ?_⟩
  · rw [hexpand, expanded_of_not_hasReference h, String.ofList_toList]
  · rw [hexpand, hexpand, hexpand, String.toList_append, expanded_append hopen hmeet, String.ofList_append]

/-- A value with a reference is not expanded, and what is open stays, for a text that is cut between a dollar sign
and an opening. -/
theorem expandReferences_substitutes_nested :
    let source (name : String) : Option String := if name = "A" then some "$\x7bB\x7d" else none
    let expand (text : String) : String := expandReferences (fun name => (source name).getD "") text
    expand ("$$\x7bA\x7d" ++ "\x7b$\x7bB") = "$$\x7bB\x7d" ++ "\x7b$\x7bB" := by
  intro source expand
  have hexpands : Expands source "$$\x7bA\x7d".toList "$$\x7bB\x7d".toList := by
    have hvalue : inserted source ['A'] = ['$', '\x7b', 'B', '\x7d'] := by decide
    have hreference := @Expands.reference source ['$'] ['A'] [] [] (by decide) (by decide) (.plain (by decide))
    rwa [hvalue] at hreference
  have hfirst : expand "$$\x7bA\x7d" = "$$\x7bB\x7d" :=
    (((expandReferences_substitutes source "$$\x7bA\x7d").1 "$$\x7bB\x7d").1 hexpands).symm
  have hsecond : expand "\x7b$\x7bB" = "\x7b$\x7bB" :=
    (((expandReferences_substitutes source "\x7b$\x7bB").1 "\x7b$\x7bB").1
      (@Expands.unclosed source ['\x7b'] ['B'] (by decide) (by decide))).symm
  have hopen : ¬ IsOpen "$$\x7bA\x7d".toList := by
    rintro ⟨before, rest, htext, hrest⟩
    obtain rfl | ⟨rest, last, rfl⟩ := rest.eq_nil_or_concat
    · exact absurd (congrArg List.getLast? htext) (by simp [opening])
    · have hlast : '\x7d' = last := by simpa using congrArg List.getLast? htext
      exact hrest (by simp [← hlast])
  have hmeet : ¬ Meet "$$\x7bA\x7d".toList "\x7b$\x7bB".toList := by
    rintro ⟨hlast, -⟩
    exact absurd hlast (by decide)
  have happend := (expandReferences_substitutes source "$$\x7bA\x7d").2.2 "\x7b$\x7bB" hopen hmeet
  exact happend.trans (congrArg₂ (· ++ ·) hfirst hsecond)

end AccountPool
