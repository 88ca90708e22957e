import Docket.Service.Call

/-! # Configuration

What the service is configured with, and the checks on it. Settings come as names with values of
which not all have the right type; a setting given twice has its last value.
-/

namespace Docket

structure Config where
  padding : Nat := 5
  resets : Bool := true
  systemUser : String := "System"
  attempts : Nat := 3
  databaseUrl : Option String := none
deriving DecidableEq

/-- Configurations that the service does not start with. -/
inductive Misconfiguration where
  | padding
  | attempts
  | systemUser
deriving DecidableEq

def Misconfiguration.message : Misconfiguration → String
  | padding => "default_padding_length must be between 1 and 10"
  | attempts => "allocation_retry_attempts must be at least 1"
  | systemUser => "system_user must not be empty"

inductive Setting where
  | null
  | bool (b : Bool)
  | int (n : Int)
  /-- A number that is not whole, or not written as a whole one. -/
  | real
  | text (s : String)
  | compound
deriving DecidableEq

namespace Setting

def natBelow? (bound : Nat) : Setting → Option Nat
  | int n => if 0 ≤ n ∧ n < bound then some n.toNat else none
  | _ => none

def bool? : Setting → Option Bool
  | bool b => some b
  | _ => none

def text? : Setting → Option String
  | text s => some s
  | _ => none

def optionalText? : Setting → Option (Option String)
  | null => some none
  | text s => some (some s)
  | _ => none

end Setting

/-- Settings in the order in which they were given. -/
abbrev Settings := List (String × Setting)

namespace Settings

def last? (settings : Settings) (name : String) : Option Setting :=
  (settings.reverse.find? fun s => s.1 == name).map Prod.snd

def read? {α : Type} (settings : Settings) (name : String) (default : α)
    (read : Setting → Option α) : Option α :=
  match settings.last? name with
  | none => some default
  | some value => read value

end Settings

namespace Config

def names : List String :=
  ["default_padding_length", "default_reset_on_year_change", "system_user",
   "allocation_retry_attempts", "database_url"]

/-- Configuration of settings that have known names and the right types. -/
def ofSettings? (settings : Settings) : Option Config := do
  if settings.any fun s => !names.contains s.1 then none
  some
    { padding := ← settings.read? "default_padding_length" 5 (·.natBelow? 256)
      resets := ← settings.read? "default_reset_on_year_change" true Setting.bool?
      systemUser := ← settings.read? "system_user" "System" Setting.text?
      attempts := ← settings.read? "allocation_retry_attempts" 3 (·.natBelow? 0x100000000)
      databaseUrl := ← settings.read? "database_url" none Setting.optionalText? }

/-- Configuration of values for the first of the settings, in the order of their names. -/
def ofValues? (values : List Setting) : Option Config :=
  if names.length < values.length then none else ofSettings? (names.zip values)

/-- Checks that the types of the settings do not make. -/
def validate (c : Config) : Except Misconfiguration Unit :=
  if ¬(1 ≤ c.padding ∧ c.padding ≤ 10) then .error .padding
  else if c.attempts < 1 then .error .attempts
  else if Text.isBlank c.systemUser then .error .systemUser
  else .ok ()

def defaults (c : Config) : CounterDefaults := ⟨c.padding, c.resets⟩

def service (c : Config) : Service :=
  { defaults := c.defaults
    attempts := max c.attempts 1
    systemUser := c.systemUser }

end Config

end Docket
