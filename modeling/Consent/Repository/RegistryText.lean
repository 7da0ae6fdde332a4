import Consent.Library.Maps
import Consent.Protocol.Records
import Consent.Repository.Storage

/-!
The registry file, octet by octet: `Pack` and `Unpack`, what `WriteRegistry` writes and what
`ReadRegistry` makes of any content, and the part of `Ensure` that follows from it.

A part of a packed text is its length in decimal digits, a colon and the octets. Texts are
octets here and not strings: a file may hold anything. `ReadRegistry` assigns the database
that it expects while it is still checking the file, so its state is passed through the
checks one by one.
-/
namespace Consent.RegistryText
open Wire (octets latin)
open Repository (Failure Definitions WriteOutcome kRegistryLimit kMaxDefinitions kMaxOperations)

abbrev Text := List UInt8

/-- A `std::map` of texts. -/
abbrev Fields := Std.ExtTreeMap Text Text compare

def failure (status : Status) (reason : String) : Failure := ⟨status, reason, none⟩

def require (condition : Prop) [Decidable condition] (status : Status) (reason : String) :
    Except Failure Unit :=
  if condition then .ok () else .error (failure status reason)

/-! ### Pack and Unpack -/

def colon : UInt8 := 58

/-- `Append`. -/
def part (value : Text) : Text := octets (toString value.length) ++ colon :: value

def pack (fields : Fields) : Text :=
  fields.toList.foldl (fun output field => output ++ part field.1 ++ part field.2) []

/-- `Integer`. -/
def integer (value : Text) (minimum maximum : Int) : Except Failure Int :=
  Repository.integer (latin value) minimum maximum

/-- The next part of a text, and what follows it. -/
def next (text : Text) : Except Failure (Text × Text) := do
  let size := text.takeWhile (· ≠ colon)
  require (colon ∈ text ∧ size.length ≤ 10) .storage "malformed stored metadata"
  let length ← integer size 0 kRegistryLimit
  let rest := text.drop (size.length + 1)
  require (length.toNat ≤ rest.length) .storage "truncated stored metadata"
  pure (rest.take length.toNat, rest.drop length.toNat)

/-- The loop of `Unpack`. Every turn consumes at least one octet. -/
def unpackLoop : Nat → Text → Fields → Except Failure Fields
  | _, [], fields => .ok fields
  | 0, _ :: _, fields => .ok fields
  | fuel + 1, octet :: text, fields => do
    let (key, rest) ← next (octet :: text)
    let (item, rest) ← next rest
    require (key ∉ fields) .storage "duplicate stored key"
    unpackLoop fuel rest (fields.insert key item)

def unpack (text : Text) : Except Failure Fields := unpackLoop text.length text ∅

/-! ### Definitions as octets -/

/-- The octets of a message. -/
def encoded (message : Message) : Fields :=
  message.toList.foldl (fun fields field => fields.insert (octets field.1) (octets field.2)) ∅

def text? (bytes : Text) : Option String := String.fromUTF8? ⟨bytes.toArray⟩

/-- The message, if all of it is UTF-8. -/
def decoded (fields : Fields) : Option Message :=
  fields.toList.foldlM (fun (message : Message) field => do
    let key ← text? field.1
    let value ← text? field.2
    pure (message.insert key value)) ∅

def field (fields : Fields) (name fallback : String) : Text :=
  fields.getD (octets name) (octets fallback)

def begins (text : Text) (head : String) : Bool := (octets head).isPrefixOf text

/-- `ValidateDefinition`. It is stated for strings; `other` is its verdict on a definition
that is not UTF-8, and can be any. -/
def validateDefinition (other : Fields → Except Failure Unit) (definition : Fields) :
    Except Failure Unit :=
  match decoded definition with
  | none => other definition
  | some message => do
    require (message.get "_install_identity" ≠ "") .einval "trusted installation identity required"
    match Registration.validateDefinition message with
    | .ok _ => .ok ()
    | .error reason => .error (failure .einval reason)

/-! ### Members -/

/-- What identifies a file: `st_dev`, `st_ino`, `st_size` and `st_mtim`. -/
structure Stat where
  device : Nat
  inode : Nat
  size : Nat
  seconds : Int
  nanoseconds : Nat
  deriving DecidableEq, Repr

structure File where
  stat : Stat
  text : Text
  whole : stat.size = text.length

/-- The members of `Repository::Impl` that come from the registry. -/
structure Loaded where
  definitions : Std.ExtTreeMap Text Fields compare
  operations : Fields
  registryRevision : Int
  registryIdentity : Stat
  expectedDevice : Int
  expectedInode : Int
  expectedIncarnation : Text

/-- The registry as it is found. A file that may not be trusted or cannot be opened and read is
`refused`, with the reason. For a missing one it matters whether there is a database, how far
the write of an empty registry gets and what the new file is. -/
inductive Found where
  | missing (database : Bool) (write : WriteOutcome) (stat : Stat)
  | refused (reason : String)
  | file (file : File)

/-! ### WriteRegistry -/

def rename (mark : String) (key : Text) : Text := octets mark ++ key

/-- The fields that every registry file has. -/
def header (s : Loaded) (revision : Int) : Fields :=
  (encoded (Message.of [("schema", "1"), ("revision", toString revision),
    ("db_device", toString s.expectedDevice), ("db_inode", toString s.expectedInode)])).insert
      (octets "db_incarnation") s.expectedIncarnation

/-- The fields of a registry file without the checksum. -/
def root (s : Loaded) (definitions : Std.ExtTreeMap Text Fields compare) (operations : Fields)
    (revision : Int) : Fields :=
  let defined := definitions.toList.foldl (fun root item =>
    root.insert (rename "d." item.1) (pack item.2)) (header s revision)
  operations.toList.foldl (fun root item => root.insert (rename "o." item.1) item.2) defined

def content (hash : Text → Text) (fields : Fields) : Text :=
  pack (fields.insert (octets "checksum") (hash (pack fields)))

/-- `WriteRegistry` up to the creation of the file: the content to be written. -/
def prepareRegistry (hash : Text → Text) (definitions : Std.ExtTreeMap Text Fields compare)
    (operations : Fields) (revision : Int) (s : Loaded) : Except Failure Text := do
  let text := content hash (root s definitions operations revision)
  require (text.length ≤ kRegistryLimit ∧ operations.size ≤ kMaxOperations) .enospc
    "definition registry capacity exceeded"
  pure text

def writeRegistry (hash : Text → Text) (definitions : Std.ExtTreeMap Text Fields compare)
    (operations : Fields) (revision : Int) (outcome : WriteOutcome) (stat : Stat) (s : Loaded) :
    Except Failure Unit × Loaded :=
  match prepareRegistry hash definitions operations revision s with
  | .error e => (.error e, s)
  | .ok _ =>
    match outcome with
    | .failed => (.error (failure .storage "definition registry write failed"), s)
    | .renamed => (.error (failure .storage "definition registry directory sync failed"), s)
    | .durable => (.ok (), { s with
        definitions, operations, registryRevision := revision, registryIdentity := stat })

/-! ### ReadRegistry -/

/-- What the items of a registry file add up to. -/
structure Items where
  definitions : Std.ExtTreeMap Text Fields compare
  operations : Fields

def readItem (other : Fields → Except Failure Unit) (items : Items) (item : Text × Text) :
    Except Failure Items :=
  if begins item.1 "d." then do
    let definition ← unpack item.2
    validateDefinition other definition
    require (item.1.drop 2 = field definition "definition" "") .storage
      "registry definition key mismatch"
    pure { items with definitions := items.definitions.insertIfNew (item.1.drop 2) definition }
  else if begins item.1 "o." then
    .ok { items with operations := items.operations.insertIfNew (item.1.drop 2) item.2 }
  else do
    require (item.1 ∈ ["schema", "revision", "db_device", "db_inode", "db_incarnation"].map octets)
      .storage "unknown registry field"
    pure items

/-- The checks that follow the assignment of the expected database. -/
def readItems (hash : Text → Text) (other : Fields → Except Failure Unit) (root : Fields) :
    Except Failure Items := do
  let expected := field root "checksum" ""
  let root := root.erase (octets "checksum")
  require (hash (pack root) = expected) .storage "registry checksum mismatch"
  let items ← root.toList.foldlM (readItem other) ⟨∅, ∅⟩
  require (items.definitions.size ≤ kMaxDefinitions ∧ items.operations.size ≤ kMaxOperations)
    .storage "registry capacity exceeded"
  pure items

/-- The checks that precede it: the fields of the file, the revision and the device. -/
def readHeader (file : File) : Except Failure (Fields × Int × Int) := do
  require (0 < file.stat.size ∧ file.stat.size ≤ kRegistryLimit) .storage
    "definition registry size rejected"
  let root ← unpack file.text
  require (field root "schema" "" = octets "1") .storage "unsupported registry schema"
  let revision ← integer (field root "revision" "") 0 int64Max
  let device ← integer (field root "db_device" "0") 0 int64Max
  pure (root, revision, device)

def readFile (hash : Text → Text) (other : Fields → Except Failure Unit) (file : File)
    (s : Loaded) : Except Failure Unit × Loaded :=
  match readHeader file with
  | .error e => (.error e, s)
  | .ok (root, revision, device) =>
    let s := { s with expectedDevice := device }
    match integer (field root "db_inode" "0") 0 int64Max with
    | .error e => (.error e, s)
    | .ok inode =>
      let s := { s with
        expectedInode := inode, expectedIncarnation := field root "db_incarnation" "" }
      match readItems hash other root with
      | .error e => (.error e, s)
      | .ok items => (.ok (), { s with
          definitions := items.definitions, operations := items.operations
          registryRevision := revision, registryIdentity := file.stat })

def readRegistry (hash : Text → Text) (other : Fields → Except Failure Unit) (initial : Bool)
    (found : Found) (s : Loaded) : Except Failure Unit × Loaded :=
  match found with
  | .missing database write stat =>
    if initial = false then
      (.error (failure .storage "definition registry missing: installer re-registration required"), s)
    else if database then
      (.error (failure .storage "existing database has no trusted definition registry"), s)
    else writeRegistry hash ∅ ∅ 0 write stat s
  | .refused reason => (.error (failure .storage reason), s)
  | .file file => readFile hash other file s

/-! ### Ensure -/

/-- The database as `Ensure` finds it; `row` is the incarnation that its handle reads. -/
structure DatabaseStat where
  device : Nat
  inode : Nat
  size : Nat
  row : Except Failure (Option Text)

/-- The members that `Ensure` looks at. -/
structure Impl where
  loaded : Loaded
  handle : Bool
  compensationFailed : Bool
  fenced : Bool
  corrupt : Bool
  database : Nat × Nat

/-- What `Ensure` comes to. A database that is retired is moved away, and a new one opened. -/
inductive Verdict where
  | failed (e : Failure) | retires | replays | serves
  deriving DecidableEq, Repr

/-- The part of `Ensure` that looks at the database. -/
def judge (database : Option DatabaseStat) (s : Impl) : Verdict × Impl :=
  let s := if database.any fun file => decide (file.size < 512) then { s with corrupt := true }
    else s
  if s.corrupt then (.retires, { s with fenced := true })
  else
    match database with
    | none => (.retires, { s with fenced := true })
    | some file =>
      if (file.device, file.inode) = s.database then
        match file.row with
        | .error e => (.failed e, s)
        | .ok row =>
          if row = some s.loaded.expectedIncarnation then (if s.fenced then .replays else .serves, s)
          else (.retires, { s with fenced := true })
      else (.retires, { s with fenced := true })

def ensure (hash : Text → Text) (other : Fields → Except Failure Unit) (found : Found)
    (database : Option DatabaseStat) (s : Impl) : Verdict × Impl :=
  if s.compensationFailed then
    (.failed (failure .storage "profile approval compensation requires daemon restart"), s)
  else if s.handle = false then (.failed (failure .storage "database unavailable"), s)
  else
    match found with
    | .missing _ _ _ =>
      (.failed (failure .storage "definition registry missing: re-registration required"), s)
    | .refused reason => (.failed (failure .storage reason), s)
    | .file file =>
      if file.stat = s.loaded.registryIdentity then judge database s
      else
        match readRegistry hash other false (.file file) s.loaded with
        | (.error e, loaded) => (.failed e, { s with fenced := true, loaded })
        | (.ok _, loaded) => judge database { s with fenced := true, loaded }

end Consent.RegistryText
