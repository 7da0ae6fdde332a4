import Consent.Repository.Process

/-!
The registry and the database file: reading, writing, retiring, opening and the check
that precedes every operation (`ReadRegistry`, `WriteRegistry`, `RetireDatabase`,
`OpenDatabase`, `Open`, `Ensure`, `Snapshot`).
-/
namespace Consent.Repository
open Profile

variable {σ ε : Type} [Host σ ε]

def kRegistryLimit : Nat := 4 * 1024 * 1024
def kMaxDefinitions : Nat := 2048
def kMaxOperations : Nat := 8192
def kMaintenanceIntervalMs : Int := 60000

def failStorage {α : Type} (reason : String) : Process σ ε α := query (fail .storage reason)

def requireStorage (condition : Prop) [Decidable condition] (reason : String) :
    Process σ ε Unit :=
  query (require condition .storage reason)

/-! ### Registry -/

/-- The text of a registry file. -/
def registryContent (hash : String → String) (r : Registry) : String :=
  let header := Message.of [("schema", "1"), ("revision", toString r.revision),
    ("db_device", toString r.database.device), ("db_inode", toString r.database.inode),
    ("db_incarnation", r.database.incarnation)]
  let defined := r.definitions.toList.foldl (fun root item =>
    root.insert ("d." ++ item.1) (pack item.2)) header
  let root := r.operations.toList.foldl (fun root item =>
    root.insert ("o." ++ item.1) item.2) defined
  pack (root.insert "checksum" (hash (pack root)))

def validateDefinition (definition : Message) : Query σ ε Unit := do
  require (definition.get "_install_identity" ≠ "") .einval
    "trusted installation identity required"
  checked .einval (Registration.validateDefinition definition)

/-- The temporary file has a random name. -/
def writeFile : Process σ ε WriteOutcome := do
  let _ ← query freshId
  writeOutcome

/-- The members after a write. After the rename the authority may have advanced, so the
repository is fenced even when durability is uncertain. -/
def Members.written (m : Members) (content : Registry) : WriteOutcome → Members
  | .failed => m
  | .renamed => { m with disk := m.disk.renameRegistry content, fenced := true }
  | .durable => { m with
      disk := (m.disk.renameRegistry content).sync, fenced := true
      definitions := content.definitions, operations := content.operations
      registryRevision := content.revision, registryIdentity := m.disk.nextStamp }

/-- A registry for the expected database. -/
def Members.registryFor (m : Members) (definitions : Definitions) (operations : Message)
    (revision : Int) : Registry :=
  { definitions, operations, revision, database := m.expected }

def registryFits (platform : Platform) (content : Registry) : Prop :=
  (registryContent platform.hash content).utf8ByteSize ≤ kRegistryLimit ∧
    content.operations.size ≤ kMaxOperations

instance (platform : Platform) (content : Registry) :
    Decidable (registryFits platform content) :=
  inferInstanceAs (Decidable (_ ∧ _))

/-- How far a write gets; one that is too large is not begun. -/
def attemptWrite (content : Registry) : Process σ ε WriteOutcome := do
  let c ← read
  if registryFits c.platform content then writeFile else pure .failed

/-- The error of a write that did not reach durability. -/
def reportWrite (content : Registry) (outcome : WriteOutcome) : Process σ ε Unit := do
  let c ← read
  query (require (registryFits c.platform content) .enospc
    "definition registry capacity exceeded")
  match outcome with
  | .failed => failStorage "definition registry write failed"
  | .renamed => failStorage "definition registry directory sync failed"
  | .durable => pure ()

def writeRegistry (definitions : Definitions) (operations : Message) (revision : Int) :
    Process σ ε Unit := do
  let m ← members
  let content := m.registryFor definitions operations revision
  let outcome ← attemptWrite content
  note (.wrote m.disk.content content outcome)
  setMembers fun m => m.written content outcome
  reportWrite content outcome

/-- What `ReadRegistry` accepts. -/
def checkRegistry (content : Registry) : Query σ ε Unit := do
  content.definitions.toList.foldlM (fun _ item => do
    validateDefinition item.2
    require (item.1 = item.2.get "definition") .storage "registry definition key mismatch") ()
  require (content.definitions.size ≤ kMaxDefinitions ∧ content.operations.size ≤ kMaxOperations)
    .storage "registry capacity exceeded"

/-- The expected database is taken over before the file has been checked. -/
def readRegistry (initial : Bool) : Process σ ε Unit := do
  let m ← members
  match m.disk.registry with
  | none =>
    requireStorage (initial = true)
      "definition registry missing: installer re-registration required"
    requireStorage (m.disk.database = none) "existing database has no trusted definition registry"
    writeRegistry ∅ ∅ 0
  | some file =>
    fileOutcome "cannot open definition registry"
    match file.text with
    | .error rejection =>
      note (.rejected initial m.expected rejection.header)
      setMembers fun m => { m with expected := rejection.header.expect m.expected }
      query (fail rejection.status rejection.reason)
    | .ok content =>
      setMembers fun m => { m with expected := content.database }
      query (checkRegistry content)
      setMembers fun m => { m with
        definitions := content.definitions, operations := content.operations
        registryRevision := content.revision, registryIdentity := file.stamp }

/-- `Replay`, behind the persistence barrier on the registry directory. -/
def replayRegistry : Process σ ε Unit := do
  fileOutcome "registry authority durability remains uncertain"
  setMembers fun m => { m with disk := m.disk.sync }
  let m ← members
  let _ ← performPlain (.replay m.definitions m.registryRevision m.offlineImport)
  setMembers fun m => { m with fenced := false }

def resetRuntime : Process σ ε Unit := do
  let _ ← performPlain .resetRuntime

/-! ### Database file -/

def retireDatabase (mainFile : Bool) : Process σ ε Unit := do
  setMembers fun m => { m with handle := false }
  let _ ← query freshId
  fileOutcome "cannot quarantine database artifact"
  setMembers fun m => if mainFile then { m with disk := { m.disk with database := none } } else m
  fileOutcome "cannot sync database quarantine"

/-- The first part of `OpenDatabase`: a file of another identity is retired, a missing
one is created. The result is `existed` and `recovering`. -/
def locateDatabase (recovering : Bool) : Process σ ε (Bool × Bool) := do
  fileOutcome "storage directory ownership or mode rejected"
  let m ← members
  let mismatch := m.disk.database.any fun file => decide (m.expected.inode ≠ 0 ∧
    (m.disk.device ≠ m.expected.device ∨ file.inode ≠ m.expected.inode))
  Act.when (mismatch = true) (retireDatabase true)
  let existed := m.disk.database.isSome && !mismatch
  if existed then pure (true, recovering)
  else
    retireDatabase false
    fileOutcome "cannot create database"
    setMembers fun m => { m with disk := { m.disk with
      database := some ⟨m.disk.nextInode, .empty⟩, nextInode := m.disk.nextInode + 1 } }
    pure (false, recovering || mismatch || decide (m.expected.inode ≠ 0))

/-- Open the handle, check the file and create what is missing. -/
def openHandle : Process σ ε Unit := do
  fileOutcome "cannot inspect SQLite sidecar"
  setMembers fun m => { m with corrupt := false }
  fileOutcome "cannot open database"
  setMembers fun m => { m with handle := true }
  query sqlOutcome
  let m ← members
  match (m.disk.database.map (·.content)).getD .truncated with
  | .truncated => throw (sqlFailure .notadb)
  | .damaged =>
    setMembers fun m => { m with corrupt := true }
    failStorage "database corrupt"
  | .empty =>
    let _ ← performPlain .create
    setMembers fun m => { m with disk := m.disk.putContent .live }
  | .live | .foreign =>
    -- `kSchema` changes nothing that exists; its transaction still has to succeed.
    query sqlOutcome
    query sqlOutcome

/-- A file of the expected inode that is not the expected database. -/
def wrongIncarnation (m : Members) : Bool :=
  decide (m.expected.incarnation ≠ "") &&
    (m.disk.database.any (fun file => decide (file.content = .foreign)) ||
      decide (m.tables.incarnation ≠ m.expected.incarnation))

/-- The incarnation of the file, chosen when it has none. -/
def incarnate : Process σ ε String := do
  let m ← members
  if m.tables.incarnation = "" then
    let outcome ← performPlain .incarnate
    pure outcome.tables.incarnation
  else pure m.tables.incarnation

/-- A database that replaces another may have lost cleanup duties. -/
def markRecovered : Process σ ε Unit := do
  let _ ← performPlain .recover
  pure ()

/-- The registry records the database it belongs to. -/
def rememberDatabase (database : DatabaseId) : Process σ ε Unit := do
  let m ← members
  setMembers fun m => { m with expected := database }
  writeRegistry m.definitions m.operations m.registryRevision

/-- The open database becomes the current one. -/
def beginEpoch (inode : Nat) : Process σ ε Unit := do
  let epoch ← query freshId
  setMembers fun m => { m with dbIdentity := inode, epoch }

/-- The second part of `OpenDatabase`. -/
def adoptDatabase (recovering : Bool) : Process σ ε Unit := do
  let incarnation ← incarnate
  fileOutcome "database disappeared"
  let inode := (((← members).disk.database).map (·.inode)).getD 0
  beginEpoch inode
  Act.when (recovering = true) markRecovered
  query sqlOutcome
  setMembers fun m => { m with cleanupUnknown := m.tables.cleanupUnknown }
  let m ← members
  let database := ⟨m.disk.device, inode, incarnation⟩
  Act.when (m.expected ≠ database) (rememberDatabase database)
  replayRegistry
  resetRuntime
  let time ← query now
  setMembers fun m => { m with maintenanceDue := time + kMaintenanceIntervalMs }

/-- The recursive call of the source follows a retirement: it finds no file, so it
cannot come back to this point. -/
def openDatabase (recovering : Bool) : Process σ ε Unit := do
  let (existed, recovered) ← locateDatabase recovering
  openHandle
  let m ← members
  if existed && wrongIncarnation m then
    retireDatabase true
    let (_, again) ← locateDatabase true
    openHandle
    adoptDatabase again
  else adoptDatabase recovered

/-- SQLite's explicit corruption classifications. -/
def Failure.corruption (failure : Failure) : Bool :=
  failure.sqliteCode == some .corrupt || failure.sqliteCode == some .notadb

/-- The open database. -/
def Members.current (m : Members) : DatabaseId := ⟨m.disk.device, m.dbIdentity, m.tables.incarnation⟩

/-- What is in force now. -/
def Members.ensured (m : Members) (opening : Bool) : Ensured where
  opening := opening
  epoch := m.epoch
  tables := m.tables
  registry := m.disk.content
  durable := m.disk.durable.map (·.stamp) == m.disk.registry.map (·.stamp)
  database := m.current

/-- The history records each normal return of `Ensure` and `Open`. -/
def noteEnsured (opening : Bool) : Process σ ε Unit := do
  let m ← members
  note (.ensured (m.ensured opening))

/-- `Open`: whether the repository may be served. -/
def openRepository : Process σ ε Bool :=
  tryCatch
    (do look
        fileOutcome "storage directory ownership or mode rejected"
        readRegistry true
        tryCatch (openDatabase false) fun failure => do
          let m ← members
          if failure.corruption || m.corrupt then
            retireDatabase true
            openDatabase true
          else throw failure
        noteEnsured true
        pure true)
    (fun _ => do
      setMembers fun m => { m with fenced := true }
      pure false)

/-- The registry file is the one that was read or written last. -/
def checkRegistryIdentity : Process σ ε Unit := do
  let m ← members
  match m.disk.registry with
  | none => failStorage "definition registry missing: re-registration required"
  | some file =>
    fileOutcome "storage file ownership or mode rejected"
    if file.stamp ≠ m.registryIdentity then
      setMembers fun m => { m with fenced := true }
      readRegistry false
    else pure ()

/-- Retire what is at the database path and open a new file. -/
def replaceDatabase (present : Bool) : Process σ ε Unit := do
  setMembers fun m => { m with fenced := true }
  retireDatabase present
  openDatabase true

/-- The last part of `Ensure`, for a file that is not corrupt. A database without an
incarnation has no such row. -/
def reconcile (file : Option DatabaseFile) : Process σ ε Unit := do
  let m ← members
  let same := file.any fun f => decide (f.inode = m.dbIdentity)
  Act.when (same = true) (query sqlOutcome)
  if !same || decide (m.tables.incarnation = "" ∨
      m.tables.incarnation ≠ m.expected.incarnation) then
    replaceDatabase file.isSome
  else Act.when (m.fenced = true) replayRegistry

def ensureStorage : Process σ ε Unit := do
  requireStorage ((← members).compensationFailed = false)
    "profile approval compensation requires daemon restart"
  requireStorage ((← members).handle = true) "database unavailable"
  look
  fileOutcome "storage directory ownership or mode rejected"
  checkRegistryIdentity
  fileOutcome "database stat failed"
  let file := (← members).disk.database
  let small := file.any fun f => decide (f.content = .empty ∨ f.content = .truncated)
  Act.when (small = true) (setMembers fun m => { m with corrupt := true })
  if (← members).corrupt then
    replaceDatabase file.isSome
  else
    reconcile file
    requireStorage ((← members).fenced = false) "repository is fenced"

def ensure : Process σ ε Unit := do
  ensureStorage
  noteEnsured false

/-- A reply: `none` is status 0. -/
structure Reply where
  status : Option Status
  fields : Message

/-- The fields of `Snapshot`; its status is 0. -/
def snapshot : Process σ ε Message := do
  ensure
  query sqlOutcome
  let m ← members
  let state ← query profiles
  pure (Message.of [("epoch", m.epoch), ("revision", toString m.tables.revision),
    ("source", "DAEMON"), ("profile_authority", if state.enabled then "1" else "0"),
    ("cleanup_reconciliation_required", if m.cleanupUnknown then "1" else "0")])

end Consent.Repository
