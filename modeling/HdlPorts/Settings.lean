import HdlPorts.Fault

/-! Settings of an elaboration.

The suffix that names companions has to be usable in a name: not empty, and of letters, digits and
underscores only. Settings made by hand are not checked; those read from a text are.
-/

set_option autoImplicit false

namespace HdlPorts

structure Settings where
  /-- What is put after the name of an inout port to name its companion. -/
  companionSuffix : String := "0"
  /-- Drive outputs of two-state types with zero if nothing else does. -/
  twoStateDefaults : Bool := true
  /-- Build the modules of a batch at the same time. Changes no result. -/
  parallel : Bool := true
  /-- How many to build at the same time; zero leaves it open. Changes no result. -/
  threads : Nat := 0
  deriving DecidableEq

inductive SettingsError where
  /-- The text is not in the right form, or has a key or a value that does not belong there. -/
  | unreadable
  | emptySuffix
  /-- The suffix has a character that no name has. -/
  | badSuffix (char : Char)
  deriving DecidableEq

namespace SettingsError

def suffixKey : String := "elaborate.companion_suffix"

def reason : SettingsError → String
  | unreadable => "not readable"
  | emptySuffix => "must not be empty"
  | badSuffix char => "character `" ++ char.toString ++ "` cannot appear in a signal name"

def message : SettingsError → String
  | unreadable => "failed to parse configuration"
  | error => "invalid value for `" ++ suffixKey ++ "`: " ++ error.reason

end SettingsError

namespace Settings

/-- Letters, digits and the underscore; ASCII only. -/
def isNameChar (char : Char) : Bool := char.isAlphanum || char == '_'

/-- Accept settings if their suffix is usable. -/
def validate (settings : Settings) : Except SettingsError Settings :=
  if settings.companionSuffix.isEmpty then .error .emptySuffix
  else
    match settings.companionSuffix.toList.find? (fun char => !isNameChar char) with
    | some char => .error (.badSuffix char)
    | none => .ok settings

end Settings

end HdlPorts
