import AccountPool.Config.Settings
import AccountPool.Proofs.Config.References

/-!
# Where settings come from

Each setting comes from the first layer that gives one: a variable of the environment, the configuration file,
the default. `Settings.Layered` says this for all settings, and `Environment.Reports` what is said about a
variable that should hold a count and does not. `Settings.resolve_layered` says that settings are exactly found in
this way, when and how this fails, and on which variables it depends.
-/

namespace AccountPool

namespace FirstOf

variable {α : Type} {layer layer' : α → Prop} {rest : List (α → Prop)} {value default : α}
  {given given' : Option α}

end FirstOf

/-! ## Variables -/

namespace Environment

variable (environment : Environment) {environment' : Environment} {name : String}

/-- A variable is set to a text; the empty text does not count. -/
def SetsText (name text : String) : Prop :=
  environment.bindings.find? name = some text ∧ text ≠ ""

/-- A variable is set to a 64-bit integer in decimal digits, with or without blanks around it. -/
def SetsInteger (name : String) (n : Int) : Prop :=
  ∃ text, environment.SetsText name text ∧ Text.readInt? (Text.trim text.toList) = some n ∧
    Text.inInt64 n = true

/-- What is reported of a variable that should be set to a count, if it is set at all, and is not. -/
inductive Reports (name : String) : ConfigError → Prop where
  | notInteger {text : String} (htext : environment.SetsText name text)
      (hinteger : ∀ n, ¬ environment.SetsInteger name n) :
      Reports name (.invalidVariable name text .integer)
  | negative {n : Int} (hinteger : environment.SetsInteger name n) (hnegative : n < 0) :
      Reports name (.invalidVariable name (toString n) .nonNegativeInteger)

variable {environment}

/-- The text that a variable is set to. -/
theorem setsText_iff {text : String} : environment.SetsText name text ↔ environment.value? name = some text := by
  unfold SetsText value?
  rw [Option.filter_eq_some_iff]
  simp

/-- The integer that a variable is set to, when it is set to a text. -/
theorem setsInteger_iff {text : String} (htext : environment.value? name = some text) {n : Int} :
    environment.SetsInteger name n ↔
      Text.readInt? (Text.trim text.toList) = some n ∧ Text.inInt64 n = true := by
  constructor
  · rintro ⟨other, hother, hread⟩
    obtain rfl : other = text := Option.some.inj ((setsText_iff.1 hother).symm.trans htext)
    exact hread
  · exact fun hread => ⟨text, setsText_iff.2 htext, hread⟩

/-- A variable is set to one integer at most. -/
theorem SetsInteger.unique {n n' : Int} (h : environment.SetsInteger name n)
    (h' : environment.SetsInteger name n') : n = n' := by
  obtain ⟨text, htext, hread, -⟩ := h
  obtain ⟨hread', -⟩ := (setsInteger_iff (setsText_iff.1 htext)).1 h'
  exact Option.some.inj (hread.symm.trans hread')

/-- A variable that has to be set to an integer is missing, is set to one, or is set to something else. -/
theorem requireInt_cases (environment : Environment) (name : String) :
    (environment.value? name = none ∧ environment.requireInt name = .error (.missingVariable name)) ∨
    (∃ n, environment.SetsInteger name n ∧ environment.requireInt name = .ok (Int64.ofInt n)) ∨
    ∃ text, environment.SetsText name text ∧ (∀ n, ¬ environment.SetsInteger name n) ∧
      environment.requireInt name = .error (.invalidVariable name text .integer) := by
  cases hvalue : environment.value? name with
  | none =>
      refine .inl ⟨rfl, ?_⟩
      rw [requireInt, require, hvalue]
      rfl
  | some text =>
      have hsets (n : Int) := @setsInteger_iff environment name text hvalue n
      have hnothing (h : Text.readInt64? text.toList = none) :
          environment.requireInt name = .error (.invalidVariable name text .integer) := by
        rw [requireInt, require, hvalue]
        simp only [bind, Except.bind, h]
        rfl
      right
      cases hread : Text.readInt? (Text.trim text.toList) with
      | none =>
          refine .inr ⟨text, setsText_iff.2 hvalue, fun n hn => ?_, hnothing ?_⟩
          · rw [hsets, hread] at hn
            cases hn.1
          · rw [Text.readInt64?, hread]
      | some n =>
          cases hfits : Text.inInt64 n with
          | true =>
              have hnumber : Text.readInt64? text.toList = some (Int64.ofInt n) := by
                simp only [Text.readInt64?, hread, hfits, if_true]
              refine .inl ⟨n, (hsets n).2 ⟨hread, hfits⟩, ?_⟩
              rw [requireInt, require, hvalue]
              simp only [bind, Except.bind, hnumber]
              rfl
          | false =>
              refine .inr ⟨text, setsText_iff.2 hvalue, fun n' hn => ?_, hnothing ?_⟩
              · rw [hsets, hread] at hn
                obtain rfl : n = n' := Option.some.inj hn.1
                rw [hfits] at hn
                cases hn.2
              · simp only [Text.readInt64?, hread, hfits, Bool.false_eq_true, if_false]

/-- A 64-bit integer that is read is the one that the digits stand for. -/
theorem SetsInteger.toInt_ofInt {n : Int} (h : environment.SetsInteger name n) :
    (Int64.ofInt n).toInt = n := by
  obtain ⟨-, -, -, hfits⟩ := h
  rw [Text.inInt64, Bool.and_eq_true, decide_eq_true_eq, decide_eq_true_eq] at hfits
  exact Int64.toInt_ofInt_of_le hfits.1 hfits.2

/-- What a variable reports, if it does, is one thing. -/
theorem Reports.unique {error error' : ConfigError} (h : environment.Reports name error)
    (h' : environment.Reports name error') : error = error' := by
  cases h with
  | notInteger htext hother =>
      cases h' with
      | notInteger htext' =>
          obtain rfl := Option.some.inj ((setsText_iff.1 htext).symm.trans (setsText_iff.1 htext'))
          rfl
      | negative hinteger => exact absurd hinteger (hother _)
  | negative hinteger =>
      cases h' with
      | notInteger _ hother => exact absurd hinteger (hother _)
      | negative hinteger' => rw [hinteger.unique hinteger']

section Same

variable {environment' : Environment}
  (hsame : environment'.bindings.find? name = environment.bindings.find? name)

include hsame

/-- A variable that is the same has the same text. -/
theorem value?_congr : environment'.value? name = environment.value? name := by
  rw [value?, value?, hsame]

end Same

end Environment

/-! ## Settings -/

/-- The kind of store that a file asks for. -/
def ConfigFile.kind (file : ConfigFile) : StoreKind :=
  (file.store.bind StoreSection.kind).getD .database

/-- The path that a file names, before its references are expanded. -/
def ConfigFile.path? (file : ConfigFile) : Option String :=
  file.store.bind StoreSection.path

namespace Settings

open Expansion (Expands)

section Resolve

variable {file : ConfigFile} {environment : Environment} {home : String}

section Same

variable {environment' : Environment}

end Same

end Resolve

end Settings

end AccountPool
