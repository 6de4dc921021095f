import AccountPool.Json.Printer
import AccountPool.Json.Reader

/-!
# Readers that take a printed text

In front of a given rest, a reader takes exactly some characters and gives a value. What readers take is
put together as the readers are, and a loop takes what its rounds take, as each round that goes on takes a
character. The first result is that a printed string is taken as what it stands for:
`Reader.takes_stringTail`.
-/

namespace AccountPool.Json.Reader

variable {α β σ : Type} {s t rest : List Char}

/-- In front of `rest` a reader takes exactly the given characters and gives a value. -/
def Takes (reader : Reader α) (taken rest : List Char) (value : α) : Prop :=
  ∀ offset, ∃ offset', reader ⟨taken ++ rest, offset⟩ = .ok (value, ⟨rest, offset'⟩)

/-! ## Combinations -/

/-- A reader that gives a value without looking. -/
theorem takes_pure (value : α) : (pure value : Reader α).Takes [] rest value :=
  fun offset => ⟨offset, rfl⟩

/-- One reader takes the first characters and the next one those behind them. -/
theorem Takes.bind {first : Reader α} {next : α → Reader β} {a : α} {b : β}
    (hfirst : first.Takes s (t ++ rest) a) (hnext : (next a).Takes t rest b) :
    (first >>= next).Takes (s ++ t) rest b := by
  intro offset
  obtain ⟨middle, hmiddle⟩ := hfirst offset
  obtain ⟨last, hlast⟩ := hnext middle
  refine ⟨last, ?_⟩
  show (first ⟨s ++ t ++ rest, offset⟩ >>= fun found => next found.1 found.2) = _
  rw [List.append_assoc, hmiddle]
  exact hlast

/-- A reader that only looks leaves all characters to the next one. -/
theorem Takes.look {first : Reader α} {next : α → Reader β} {a : α} {b : β}
    (hfirst : first.Takes [] (t ++ rest) a) (hnext : (next a).Takes t rest b) :
    (first >>= next).Takes t rest b :=
  hfirst.bind hnext

/-- The last reader may take nothing. -/
theorem Takes.andThen {first : Reader α} {next : α → Reader β} {a : α} {b : β}
    (hfirst : first.Takes s rest a) (hnext : (next a).Takes [] rest b) :
    (first >>= next).Takes s rest b := by
  rw [← List.append_nil s]
  exact Takes.bind hfirst hnext

/-- A translated value. -/
theorem Takes.map {reader : Reader α} {a : α} (h : reader.Takes s rest a) (translate : α → β) :
    (translate <$> reader).Takes s rest (translate a) := by
  show (reader >>= fun value => pure (translate value)).Takes s rest (translate a)
  exact h.andThen (takes_pure _)

/-- What is taken for a translated value is taken for the value, if no other one is translated alike. -/
theorem Takes.of_map {reader : Reader α} {translate : α → β} {a : α}
    (hinjective : ∀ other, translate other = translate a → other = a)
    (h : (translate <$> reader).Takes s rest (translate a)) : reader.Takes s rest a := by
  intro offset
  obtain ⟨offset', hmapped⟩ := h offset
  refine ⟨offset', ?_⟩
  cases hread : reader ⟨s ++ rest, offset⟩ with
  | error stop =>
      have hstop : (translate <$> reader) ⟨s ++ rest, offset⟩ = .error stop := by
        show (reader ⟨s ++ rest, offset⟩ >>= _) = _
        rw [hread]
        rfl
      rw [hstop] at hmapped
      cases hmapped
  | ok found =>
      have hfound : (translate <$> reader) ⟨s ++ rest, offset⟩ = .ok (translate found.1, found.2) := by
        show (reader ⟨s ++ rest, offset⟩ >>= _) = _
        rw [hread]
        rfl
      rw [hfound] at hmapped
      injection hmapped with hpair
      injection hpair with hvalue hcursor
      rw [← hinjective _ hvalue, ← hcursor]

/-- Where the cursor is does not matter to what is taken. -/
theorem takes_get {next : Cursor → Reader β} {b : β} (h : ∀ cursor, (next cursor).Takes t rest b) :
    ((get : Reader Cursor) >>= next).Takes t rest b :=
  fun offset => h ⟨t ++ rest, offset⟩ offset

/-! ## Single characters and runs -/

theorem takes_peek : peek.Takes [] rest rest.head? :=
  fun offset => ⟨offset, rfl⟩

theorem takes_skip (c : Char) : skip.Takes [c] rest () :=
  fun offset => ⟨offset + c.utf8Size, rfl⟩

/-- A run ends before the first character that is not of its class. -/
theorem takes_run {p : Char → Bool} (hs : ∀ c ∈ s, p c = true) (hrest : rest.head?.all (!p ·) = true) :
    (run p).Takes s rest s := by
  intro offset
  have htaken : (s ++ rest).takeWhile p = s ∧ (s ++ rest).dropWhile p = rest := by
    rw [List.takeWhile_append_of_pos hs, List.dropWhile_append_of_pos hs]
    cases rest with
    | nil => simp
    | cons c rest =>
        have hc : p c = false := by simpa using hrest
        simp [hc]
  refine ⟨offset + byteCount s, ?_⟩
  unfold run
  simp only [htaken.1, htaken.2]

/-- A token that does not start with a blank is seen at once. -/
theorem takes_peekToken (h : rest.head?.all (!isSpace ·) = true) :
    peekToken.Takes [] rest rest.head? :=
  (takes_run (s := []) nofun h).look takes_peek

/-- A word is taken character by character. -/
theorem takes_word (chars : List Char) : (word chars).Takes chars rest () := by
  induction chars with
  | nil => exact takes_pure ()
  | cons c chars ih =>
      refine takes_peek.look ?_
      show (if c = c then skip >>= fun _ => word chars else stopAfter .expectedWord).Takes _ _ _
      rw [if_pos rfl]
      exact (takes_skip c).bind ih

/-! ## Loops -/

/-- The rounds of a loop take characters one after the other, and the last one gives a value. -/
inductive Rounds (body : σ → Reader (σ ⊕ α)) (rest : List Char) : σ → List Char → α → Prop
  | last (state : σ) (s : List Char) (value : α) :
      (body state).Takes s rest (.inr value) → Rounds body rest state s value
  | next (state following : σ) (c : Char) (s t : List Char) (value : α) :
      (body state).Takes (c :: s) (t ++ rest) (.inl following) → Rounds body rest following t value →
      Rounds body rest state (c :: s ++ t) value

/-- A loop takes what its rounds take. -/
theorem Rounds.takes_loop {body : σ → Reader (σ ⊕ α)} {init : σ} {value : α}
    (h : Rounds body rest init s value) : (loop body init).Takes s rest value := by
  suffices hgo : ∀ bound, s.length < bound → (loop.go body bound init).Takes s rest value by
    intro offset
    exact hgo ((s ++ rest).length + 1) (by rw [List.length_append]; omega) offset
  induction h with
  | last state s value htakes =>
      intro bound hbound
      obtain ⟨bound, rfl⟩ := Nat.exists_eq_succ_of_ne_zero (Nat.ne_of_gt (Nat.lt_of_le_of_lt (Nat.zero_le _) hbound))
      exact htakes.andThen (takes_pure value)
  | next state following c s t value htakes _ ih =>
      intro bound hbound
      rw [List.length_append, List.length_cons] at hbound
      obtain ⟨bound, rfl⟩ := Nat.exists_eq_succ_of_ne_zero (Nat.ne_of_gt (Nat.lt_of_le_of_lt (Nat.zero_le _) hbound))
      exact htakes.bind (ih bound (by omega))

/-! ## Strings -/

/-- The four digits of a control character, and what they stand for. -/
theorem fourHexDigits_control : ∀ n < 0x20,
    fourHexDigits n = ['0', '0', (n / 16).digitChar, (n % 16).digitChar] ∧
      byteCount ['0', '0', (n / 16).digitChar, (n % 16).digitChar] = 4 ∧
      Text.hexValue? (n / 16).digitChar = some (n / 16) ∧
      Text.hexValue? (n % 16).digitChar = some (n % 16) := by
  decide

/-- The number of a control character is read from its four digits. -/
theorem takes_hexUnit {n : Nat} (h : n < 0x20) : hexUnit.Takes (fourHexDigits n) rest n := by
  intro offset
  obtain ⟨hdigits, hsize, hhigh, hlow⟩ := fourHexDigits_control n h
  have hzero : Text.hexValue? '0' = some 0 := by decide
  have hnumber : n / 16 * 16 + n % 16 = n := Nat.div_add_mod' n 16
  refine ⟨offset + 4, ?_⟩
  rw [hdigits]
  simp [hexUnit, hsize, hzero, hhigh, hlow, hnumber]

/-- A `\u` escape of a control character. -/
theorem takes_unicodeEscape {c : Char} (h : c.toNat < 0x20) :
    unicodeEscape.Takes (fourHexDigits c.toNat) rest c := by
  refine (takes_hexUnit h).andThen ?_
  rw [if_neg (by omega), if_pos (by omega), Char.ofNat_toNat]
  exact takes_pure c

/-- An escape of one letter. -/
theorem takes_simpleEscape {c escape : Char} (hletter : escape ≠ 'u') (h : simpleEscape? escape = some c) :
    stringChar.Takes ['\\', escape] rest (some c) := by
  refine takes_peek.look ?_
  refine Takes.bind (s := ['\\']) (t := [escape]) (takes_skip _) (takes_peek.look ?_)
  show (if escape = 'u' then _ else _ : Reader (Option Char)).Takes _ _ _
  rw [if_neg hletter, h]
  exact (takes_skip _).andThen (takes_pure _)

/-- A character is read from the way in which it is written inside a string. -/
theorem takes_stringChar (c : Char) : stringChar.Takes (escapedChar c) rest (some c) := by
  unfold escapedChar
  split
  · next h =>
      rw [h]
      exact takes_simpleEscape (by decide) (by decide)
  split
  · next h =>
      rw [h]
      exact takes_simpleEscape (by decide) (by decide)
  split
  · next h =>
      rw [h]
      exact takes_simpleEscape (by decide) (by decide)
  split
  · next h =>
      rw [h]
      exact takes_simpleEscape (by decide) (by decide)
  split
  · next h =>
      rw [h]
      exact takes_simpleEscape (by decide) (by decide)
  split
  · next h =>
      refine takes_simpleEscape (by decide) ?_
      rw [← Char.ofNat_toNat c, h]
      decide
  split
  · next h =>
      refine takes_simpleEscape (by decide) ?_
      rw [← Char.ofNat_toNat c, h]
      decide
  split
  · next h =>
      refine takes_peek.look ?_
      refine Takes.bind (s := ['\\']) (takes_skip _) (takes_peek.look ?_)
      refine Takes.bind (s := ['u']) (takes_skip _) ?_
      exact (takes_unicodeEscape h).map some
  · next hquote hback _ _ _ _ _ hcontrol =>
      refine takes_peek.look ?_
      show (if c = '"' then _ else if c = '\\' then _ else _ : Reader (Option Char)).Takes _ _ _
      rw [if_neg hquote, if_neg hback, if_neg hcontrol]
      exact (takes_skip c).andThen (takes_pure _)

/-- The closing quote. -/
theorem takes_stringChar_quote : stringChar.Takes ['"'] rest none :=
  takes_peek.look ((takes_skip '"').andThen (takes_pure none))

/-- A character inside a string is written with at least one character. -/
theorem exists_escapedChar (c : Char) : ∃ first more, escapedChar c = first :: more := by
  unfold escapedChar
  repeat' split
  all_goals exact ⟨_, _, rfl⟩

/-- A round of reading a string: one more character, or the text at the closing quote. -/
def stringRound (read : List Char) : Reader (List Char ⊕ String) := do
  match ← stringChar with
  | some c => pure (.inl (c :: read))
  | none => pure (.inr (String.ofList read.reverse))

/-- The text of a string is read in rounds. -/
theorem stringTail_eq : stringTail = loop stringRound [] :=
  rfl

/-- A string is read from its text once its opening quote is taken. -/
theorem takes_stringTail (text : String) :
    stringTail.Takes (text.toList.flatMap escapedChar ++ ['"']) rest text := by
  suffices hrounds : ∀ chars read : List Char, Rounds stringRound rest read
      (chars.flatMap escapedChar ++ ['"']) (String.ofList (read.reverse ++ chars)) by
    have htaken := (hrounds text.toList []).takes_loop
    rwa [List.reverse_nil, List.nil_append, String.ofList_toList, ← stringTail_eq] at htaken
  intro chars
  induction chars with
  | nil =>
      intro read
      refine .last _ _ _ (takes_stringChar_quote.andThen ?_)
      rw [List.append_nil]
      exact takes_pure _
  | cons c chars ih =>
      intro read
      obtain ⟨first, more, hwritten⟩ := exists_escapedChar c
      rw [List.flatMap_cons, List.append_assoc, hwritten]
      refine .next _ (c :: read) _ _ _ _ ?_ ?_
      · rw [← hwritten]
        exact (takes_stringChar c).andThen (takes_pure _)
      · have hrest := ih (c :: read)
        simpa using hrest

end AccountPool.Json.Reader
