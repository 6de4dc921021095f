import AccountPool.Proofs.Json.Depth
import AccountPool.Proofs.Json.RoundTrip

/-!
# Readers that are allowed more levels

A reader of values that is allowed more levels reads whatever one with fewer levels reads: `Reader.value_extends`.
With enough levels the text of a sound value is read as a value of its outline, so fewer levels give the same
or nothing. A text is therefore only read if its value is not nested too deep:
`Value.depth_le_of_parse_compact`.
-/

namespace AccountPool.Json

namespace Reader

variable {α β σ : Type}

/-- One reader gives all that another one gives. -/
def Extends (wider reader : Reader α) : Prop :=
  ∀ cursor found, reader cursor = .ok found → wider cursor = .ok found

/-- A reader gives what it gives. -/
theorem extends_refl (reader : Reader α) : reader.Extends reader :=
  fun _ _ hread => hread

/-- A reader that goes on with another one gives more if both of them do. -/
theorem Extends.bind {wider reader : Reader α} {next' next : α → Reader β} (h : wider.Extends reader)
    (hnext : ∀ value, (next' value).Extends (next value)) :
    (wider >>= next').Extends (reader >>= next) := by
  intro cursor found hread
  change (reader cursor >>= fun first => next first.1 first.2) = _ at hread
  show (wider cursor >>= fun first => next' first.1 first.2) = _
  cases hfirst : reader cursor with
  | error stop =>
      rw [hfirst] at hread
      cases hread
  | ok first =>
      rw [hfirst] at hread
      rw [h cursor first hfirst]
      exact hnext first.1 first.2 found hread

/-- A reader that goes on gives more if what it goes on with does. -/
theorem extends_bind (reader : Reader α) {next' next : α → Reader β}
    (hnext : ∀ value, (next' value).Extends (next value)) :
    (reader >>= next').Extends (reader >>= next) :=
  (extends_refl reader).bind hnext

/-- A reader gives more translated values if it gives more values. -/
theorem Extends.map {wider reader : Reader α} (h : wider.Extends reader) (translate : α → β) :
    (translate <$> wider).Extends (translate <$> reader) :=
  h.bind fun value => extends_refl (pure (translate value))

/-- A reader that stops gives nothing, so every reader gives more. -/
theorem extends_stopAfter (wider : Reader α) (reason : Reason) : wider.Extends (stopAfter reason) :=
  fun _ _ hread => nomatch hread

/-- A loop gives more if its body does. -/
theorem extends_loop {body' body : σ → Reader (σ ⊕ α)} (hbody : ∀ state, (body' state).Extends (body state))
    (init : σ) : (loop body' init).Extends (loop body init) := by
  have hgo : ∀ (bound : Nat) (state : σ), (loop.go body' bound state).Extends (loop.go body bound state) := by
    intro bound
    induction bound with
    | zero => exact fun _ => extends_refl _
    | succ bound ih =>
        intro state
        refine (hbody state).bind fun outcome => ?_
        cases outcome with
        | inl next => exact ih next
        | inr result => exact extends_refl _
  exact fun cursor => hgo _ init cursor

section Inner

variable {wider inner : Reader Value} (h : wider.Extends inner)

include h

/-- More arrays are read if more items are. -/
theorem items_extends : (items wider).Extends (items inner) := by
  refine (extends_loop (fun read => extends_bind _ fun more => ?_) []).bind fun found => extends_refl _
  split
  · exact h.bind fun value => extends_refl _
  · exact extends_refl _

/-- More objects are read if more values of members are. -/
theorem members_extends : (members wider).Extends (members inner) := by
  refine extends_loop (fun state => extends_bind _ fun key => ?_) _
  cases key with
  | none => exact extends_refl _
  | some key => exact extends_bind _ fun _ => h.bind fun value => extends_refl _

end Inner

/-- More values are read if more values inside of them are. -/
theorem valueWith_extends {wider inner : Option (Reader Value)}
    (h : ∀ reader, inner = some reader → ∃ reader', wider = some reader' ∧ reader'.Extends reader) :
    (valueWith wider).Extends (valueWith inner) := by
  refine extends_bind _ fun next => ?_
  cases next with
  | none => exact extends_refl _
  | some c =>
      dsimp only
      -- Only arrays and objects have values inside.
      repeat' (split; exact extends_refl _)
      split
      · cases inner with
        | none => exact extends_stopAfter _ _
        | some reader =>
            obtain ⟨reader', rfl, hreader⟩ := h reader rfl
            exact extends_bind _ fun _ => (items_extends hreader).map Value.array
      split
      · cases inner with
        | none => exact extends_stopAfter _ _
        | some reader =>
            obtain ⟨reader', rfl, hreader⟩ := h reader rfl
            exact extends_bind _ fun _ => (members_extends hreader).map Value.ofMembers
      · exact extends_refl _

/-- A reader of values that is allowed more levels reads what one with fewer levels reads. -/
theorem value_extends {levels more : Nat} (hle : levels ≤ more) :
    (value more).Extends (value levels) := by
  induction levels generalizing more with
  | zero =>
      cases more with
      | zero => exact extends_refl _
      | succ more => exact valueWith_extends fun _ hnone => nomatch hnone
  | succ levels ih =>
      obtain ⟨more, rfl⟩ := Nat.exists_eq_add_one_of_ne_zero (Nat.ne_zero_of_lt hle)
      refine valueWith_extends fun reader hreader => ⟨value more, rfl, ?_⟩
      cases hreader
      exact ih (Nat.le_of_succ_le_succ hle)

/-- What is read from a whole text is also read by a reader that gives more. -/
theorem Extends.readAll {wider reader : Reader α} (h : wider.Extends reader) {text : String} {value : α}
    (hread : readAll reader text = .ok value) : Reader.readAll wider text = .ok value := by
  have hwhole : Extends (do let value ← wider; finish; pure value)
      (do let value ← reader; finish; pure value) := h.bind fun _ => extends_refl _
  unfold Reader.readAll at hread ⊢
  dsimp only at hread ⊢
  split at hread
  · next found rest hfound =>
      rw [hwhole _ _ hfound]
      exact hread
  · cases hread

end Reader

/-- A text is only read if its value is not nested too deep. -/
theorem Value.depth_le_of_parse_compact {value read : Value} (hsound : value.Sound)
    (hparse : Value.parse value.compact = .ok read) : value.depth ≤ Reader.maxDepth := by
  let levels := max Reader.maxDepth value.depth
  obtain ⟨found, -, houtline, -, htakes⟩ :=
    exists_takes value hsound (Nat.le_max_right Reader.maxDepth value.depth) .nothing
  have hfound : Reader.readAll (Reader.value levels) value.compact = .ok found := htakes.readAll
  have hread : Reader.readAll (Reader.value levels) value.compact = .ok read :=
    (Reader.value_extends (Nat.le_max_left Reader.maxDepth value.depth)).readAll hparse
  obtain rfl : found = read := Except.ok.inj (hfound.symm.trans hread)
  rw [← depth_outline, ← houtline, depth_outline]
  exact Value.parse_depth hparse

end AccountPool.Json
