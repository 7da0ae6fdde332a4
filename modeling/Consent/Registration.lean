import Consent.Localization

/-!
Well-formed consent definitions (`common/registration.cc`). The mode list is split
at commas as the source's loop does; each mode occurs once, and a level 3 definition
permits `ONCE` only.
-/
namespace Consent.Registration

def identifier (value : String) : Bool :=
  !value.isEmpty && value.utf8ByteSize ≤ 256 &&
    value.toList.all fun c => asciiAlnum c || c == '.' || c == '_' || c == ':' || c == '-'

/-- `strtoll` on at most twenty decimal digits, between the bounds. -/
def integer (value : String) (minimum maximum : Int) : Option Int :=
  if value.isEmpty || value.utf8ByteSize > 20 || !value.toList.all asciiDigit then none
  else
    let number : Nat := value.toList.foldl (fun total c => total * 10 + (c.toNat - '0'.toNat)) 0
    if (number : Int) ≤ int64Max ∧ minimum ≤ number ∧ (number : Int) ≤ maximum then some number
    else none

def isDefinitionField (key : String) : Bool :=
  ["definition", "package", "app", "enforcer", "policy_version", "text_revision", "level",
    "modes", "default_locale", "retention_ms"].contains key ||
    starts key "message." || Localization.isDefinitionField key

/-- The comma-separated segments of a mode list, at least one. -/
def splitComma : List Char → List (List Char)
  | [] => [[]]
  | c :: rest =>
    if c == ',' then [] :: splitComma rest
    else
      match splitComma rest with
      | [] => [[c]]
      | first :: others => (c :: first) :: others

def modeNames : List (List Char) :=
  ["ONCE".toList, "SESSION".toList, "TIMED".toList, "PERSISTENT".toList]

def checkModes (level : Int) : List (List Char) → List (List Char) → Except String Unit
  | [], _ => pure ()
  | mode :: rest, seen =>
    if !modeNames.contains mode || seen.contains mode then throw "invalid allowed grant mode"
    else if level == 3 && mode != "ONCE".toList then
      throw "level 3 permits ONCE only in initial policy"
    else checkModes level rest (mode :: seen)

def validateDefinition (definition : Message) : Except String Unit := do
  if !(["definition", "package", "app", "enforcer", "default_locale"].all fun key =>
      identifier (definition.get key)) then
    throw "invalid definition identity"
  else if (integer (definition.get "policy_version") 1 int32Max).isNone ||
      (integer (definition.get "text_revision") 1 int32Max).isNone then
    throw "invalid definition revision"
  else
    match integer (definition.get "level") 0 3 with
    | none => throw "invalid consent level"
    | some level =>
      if (definition.get "modes").isEmpty then throw "allowed grant modes required"
      else
        checkModes level (splitComma (definition.get "modes").toList) []
        let messages := definition.toList.filter fun field => starts field.1 "message."
        let head := "message." ++ definition.get "default_locale"
        if definition.contains "retention_ms" &&
            (integer (definition.get "retention_ms") 0 86400000).isNone then
          throw "retention outside policy bounds"
        else if messages.any fun field => field.2.utf8ByteSize > 4096 || field.2.isEmpty then
          throw "invalid localized message"
        else if messages.length < 2 || messages.length > 32 ||
            (definition.get (head ++ ".title")).isEmpty ||
            (definition.get (head ++ ".body")).isEmpty then
          throw "default locale title and body required"
        else Localization.validateDefinition definition

end Consent.Registration
