import HdlPorts.Settings
import HdlPorts.Toml.Reader

/-! Settings read from a text.

The text is a TOML document whose only key is `elaborate`. Under it stands a table with a key for
each setting, or an array of the settings in order, where items in excess are passed over. What is
not given has its default.
-/

set_option autoImplicit false

namespace HdlPorts.Settings

open Toml (Value Members)

def keys : List String :=
  ["companion_suffix", "implicit_two_state_defaults", "parallel", "threads"]

def text? (default : String) : Option Value → Option String
  | none => some default
  | some (.text value) => some value
  | some _ => none

def bool? (default : Bool) : Option Value → Option Bool
  | none => some default
  | some (.bool value) => some value
  | some _ => none

def natural? (default : Nat) : Option Value → Option Nat
  | none => some default
  | some (.integer (.ofNat value)) => some value
  | some _ => none

/-- What is given for each of the keys. -/
def given? : Value → Option (String → Option Value)
  | .table _ members =>
    if members.all (keys.contains ·.1) then some (List.lookup · members) else none
  | .array items => some fun key => (keys.zip items).lookup key
  | _ => none

def ofSection? (value : Value) : Option Settings := do
  let given ← given? value
  let default : Settings := {}
  let companionSuffix ← text? default.companionSuffix (given "companion_suffix")
  let twoStateDefaults ← bool? default.twoStateDefaults (given "implicit_two_state_defaults")
  let parallel ← bool? default.parallel (given "parallel")
  let threads ← natural? default.threads (given "threads")
  return ⟨companionSuffix, twoStateDefaults, parallel, threads⟩

def ofDocument? (members : Members) : Option Settings :=
  if members.all (·.1 == "elaborate") then
    match members.lookup "elaborate" with
    | none => some {}
    | some value => ofSection? value
  else
    none

def read (text : String) : Except SettingsError Settings :=
  match Toml.parse? text >>= ofDocument? with
  | none => .error .unreadable
  | some settings => settings.validate

end HdlPorts.Settings
