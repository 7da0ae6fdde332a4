import Consent.Library.KeyFile
import Consent.Message

/-!
The inventory of installations: the tool that writes it (`tools/installation_authority.cc`)
and the readers in the daemon (`consentd/identity.cc`).

The inventory has a group for the authority itself, one for each package, one for each
operation that was carried out and one for each application. The empty file stands for one
that does not exist yet. Owners, modes and links of the file, and the locks around it, are
left out.
-/
namespace Consent.Authority
open KeyFile (Groups value set setWhere)

def identifier (text : String) : Bool :=
  !text.isEmpty && decide (text.utf8ByteSize ≤ 255) &&
    text.toList.all fun c => asciiAlnum c || c == '.' || c == '_' || c == '-'

inductive Command where
  | begin | attach | commit | remove
  deriving DecidableEq, Repr

def Command.name : Command → String
  | .begin => "begin"
  | .attach => "attach"
  | .commit => "commit"
  | .remove => "remove"

/-- The arguments of one invocation; only `attach` has an application. -/
structure Request where
  command : Command
  package : String
  app : String
  operation : String
  expected : String
  deriving DecidableEq, Repr

/-- The checks of `main` on its arguments. -/
def Request.valid (r : Request) : Bool :=
  identifier r.package && (if r.command = .attach then identifier r.app else r.app.isEmpty) &&
    identifier r.operation && identifier r.expected

def packageKey (package : String) : String := "package " ++ package
def operationKey (operation : String) : String := "operation " ++ operation

def Request.fingerprint (r : Request) : String :=
  r.command.name ++ "|" ++ r.package ++ "|" ++ r.app ++ "|" ++ r.expected

/-- Every application of the package counts as removed. -/
def retire (package : String) (groups : List String) (file : Groups) : Groups :=
  (setWhere (fun get => get "package" == package) "state" "removed" groups file).1

/-- The branch of `Apply` for the command. -/
def change (file : Groups) (r : Request) (uuid : String) : Option (String × Groups) :=
  let key := packageKey r.package
  let current := value file key "generation"
  let state := value file key "state"
  if current = r.expected ∨ current = "" ∧ r.expected = "absent" then
    match r.command with
    | .begin =>
      some (uuid, retire r.package file.keys
        (set (set file key "generation" uuid) key "state" "pending"))
    | .attach =>
      let owner := value file r.app "package"
      if state = "pending" ∧ (owner = "" ∨ owner = r.package) then
        some (current, set (set (set file r.app "package" r.package) r.app "generation" current)
          r.app "state" "pending")
      else none
    | .commit =>
      if state = "pending" then
        let (activated, apps) := setWhere (fun get => get "package" == r.package &&
          get "generation" == current && get "state" == "pending") "state" "active" file.keys file
        if apps = 0 then none else some (current, set activated key "state" "active")
      else none
    | .remove =>
      if current = "" then none
      else some (current, retire r.package file.keys (set file key "state" "removed"))
  else none

def record (file : Groups) (r : Request) (generation : String) : Groups :=
  set (set (set file "authority" "schema" "1") (operationKey r.operation) "fingerprint" r.fingerprint)
    (operationKey r.operation) "generation" generation

/-- `Apply`: the generation it reports and the file it leaves, if it succeeds. -/
def apply (file : Groups) (r : Request) (uuid : String) : Option (String × Groups) :=
  let previous := value file (operationKey r.operation) "fingerprint"
  if previous ≠ "" then
    if previous ≠ r.fingerprint then none
    else some (value file (operationKey r.operation) "generation", file)
  else if 4096 ≤ file.size then none
  else
    match change file r uuid with
    | some (generation, changed) => some (generation, record changed r generation)
    | none => none

/-- The size of the file on the disk: no value that the tool writes needs escapes. -/
def dataSize (file : Groups) : Nat := KeyFile.textLength file

def kMaxSize : Nat := 1048576

/-- What becomes of a write: the new file is in place and reported, in place with the
directory not synchronized, or not in place. -/
inductive Persistence where
  | done | uncertain | failed
  deriving DecidableEq, Repr

/-- One invocation of the tool: what it prints, and the inventory afterwards. -/
def main (file : Groups) (r : Request) (uuid : String) (persistence : Persistence) :
    Option String × Groups :=
  if ¬ (r.valid = true ∧ (file.isEmpty = true ∨
      dataSize file ≤ kMaxSize ∧ value file "authority" "schema" = "1")) then (none, file)
  else
    match apply file r uuid with
    | none => (none, file)
    | some (generation, changed) =>
      if kMaxSize < dataSize changed then (none, file)
      else
        match persistence with
        | .done => (some generation, changed)
        | .uncertain => (none, changed)
        | .failed => (none, file)

/-! ### Readers -/

/-- `compare(0, n, head) == 0`, for a head of length `n`. -/
def beginsWith (group head : String) : Bool := head.toList.isPrefixOf group.toList

def knownState (state : String) : Bool :=
  state == "active" || state == "pending" || state == "removed"

/-- The check of `ReadOfflineAuthority` on one group. -/
def groupValid (file : Groups) (group : String) : Bool :=
  let generation := value file group "generation"
  group == "authority" || (!generation.isEmpty && decide (generation.utf8ByteSize ≤ 128) &&
    if beginsWith group "operation " then
      decide (10 < group.utf8ByteSize) && !(value file group "fingerprint").isEmpty
    else
      knownState (value file group "state") &&
        if beginsWith group "package " then
          decide (8 < group.utf8ByteSize) && decide (group.utf8ByteSize ≤ 263)
        else
          !group.isEmpty && decide (group.utf8ByteSize ≤ 255) &&
            !(value file group "package").isEmpty &&
            decide ((value file group "package").utf8ByteSize ≤ 255))

def readOfflineAuthority (file : Groups) : Bool :=
  decide (0 < dataSize file) && decide (dataSize file ≤ kMaxSize) &&
    value file "authority" "schema" == "1" && decide (file.size ≤ 4096) &&
      file.keys.all (groupValid file)

/-- `owner` is the package manager's answer about an application. -/
def getInstallationIdentity (owner : String → Option String) (file : Groups) (package app : String) :
    Option String :=
  let generation := value file app "generation"
  if package ≠ "" ∧ app ≠ "" ∧ package.utf8ByteSize ≤ 255 ∧ app.utf8ByteSize ≤ 255 ∧
      owner app = some package ∧ value file (packageKey package) "state" = "active" ∧
      value file (packageKey package) "generation" = generation ∧
      value file "authority" "schema" = "1" ∧ value file app "state" = "active" ∧
      value file app "package" = package ∧ generation ≠ "" ∧ generation.utf8ByteSize ≤ 128 then
    some generation
  else none

def validatePackageGeneration (file : Groups) (package generation : String) : Bool :=
  !generation.isEmpty && value file "authority" "schema" == "1" &&
    value file (packageKey package) "generation" == generation &&
      knownState (value file (packageKey package) "state")

end Consent.Authority
