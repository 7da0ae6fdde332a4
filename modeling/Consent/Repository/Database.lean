import Consent.Library.Table
import Consent.Registration

/-!
The tables of `consentd/repository.cc` (`kSchema`) and the statements that several
operations share. A table is the list of its rows in rowid order. Columns that hold
`Pack(message)` hold the message. Ids come from `Id()`, so no insertion meets an
existing primary key; the other uniqueness constraints are guarded by a lookup in
the code itself.
-/
namespace Consent.Repository

inductive SqliteCode where
  | corrupt | notadb | busy | other
  deriving DecidableEq, Repr

/-- The exception of the repository; `sqliteCode` is `none` for `SQLITE_OK`. -/
structure Failure where
  status : Status
  reason : String
  sqliteCode : Option SqliteCode
  deriving DecidableEq, Repr

/-! ### Field readers -/

/-- More than 20 characters, or one that is no digit, are refused before `strtoll`. -/
def integer (value : String) (minimum maximum : Int) : Except Failure Int :=
  if value.isEmpty || value.utf8ByteSize > 20 || !value.toList.all asciiDigit then
    .error ⟨.einval, "invalid integer", none⟩
  else
    match Registration.integer value minimum maximum with
    | some number => .ok number
    | none => .error ⟨.einval, "integer outside policy bounds", none⟩

/-- The fallback of an absent field is not compared with the bounds. -/
def number (message : Message) (key : String) (fallback minimum maximum : Int) :
    Except Failure Int :=
  match message[key]? with
  | none => .ok fallback
  | some value => integer value minimum maximum

theorem integer_bounds {value : String} {minimum maximum result : Int}
    (h : integer value minimum maximum = .ok result) : minimum ≤ result ∧ result ≤ maximum := by
  unfold integer Registration.integer at h
  split at h
  · cases h
  · simp only at h
    split at h
    · rename_i found
      split at found
      · rename_i bounds
        cases h
        cases found
        exact ⟨bounds.2.1, bounds.2.2⟩
      · cases found
    · cases h

theorem number_bounds {message : Message} {key : String} {fallback minimum maximum result : Int}
    (h : number message key fallback minimum maximum = .ok result) :
    result = fallback ∨ minimum ≤ result ∧ result ≤ maximum := by
  unfold number at h
  split at h
  · cases h
    exact Or.inl rfl
  · exact Or.inr (integer_bounds h)

theorem integer_widen {value : String} {minimum maximum lower upper result : Int}
    (h : integer value minimum maximum = .ok result) (low : lower ≤ minimum) (high : maximum ≤ upper) :
    integer value lower upper = .ok result := by
  unfold integer Registration.integer at h ⊢
  split at h
  · cases h
  · rename_i digits
    rw [if_neg digits, if_neg digits]
    simp only at h ⊢
    split at h
    · rename_i found
      split at found
      · rename_i bounds
        cases h
        cases found
        rw [if_pos ⟨bounds.1, low.trans bounds.2.1, bounds.2.2.trans high⟩]
      · cases found
    · cases h

/-- A number that is not the fallback stands in the message. -/
theorem integer_of_number {message : Message} {key : String}
    {fallback minimum maximum result : Int}
    (h : number message key fallback minimum maximum = .ok result) (other : result ≠ fallback) :
    integer (message.get key) minimum maximum = .ok result := by
  rw [Message.get_eq]
  unfold number at h
  split at h
  · cases h
    exact absurd rfl other
  · rename_i stored
    rw [stored]
    exact h

theorem number_of_integer {message : Message} {key : String}
    {fallback minimum maximum result : Int}
    (h : integer (message.get key) minimum maximum = .ok result) :
    number message key fallback minimum maximum = .ok result := by
  rw [Message.get_eq] at h
  rcases stored : message[key]? with _ | value
  · rw [stored] at h
    cases h
  · rw [stored] at h
    unfold number
    rw [stored]
    exact h

/-- The requirement rows of a stored payload. -/
def storedCount (payload : Message) : Nat :=
  match number payload "count" 0 0 16 with
  | .ok count => count.toNat
  | .error _ => 0

/-! ### Tables -/

inductive SessionState where
  | active | suspended | closing | closed
  deriving DecidableEq, Repr

def SessionState.name : SessionState → String
  | active => "ACTIVE"
  | suspended => "SUSPENDED"
  | closing => "CLOSING"
  | closed => "CLOSED"

inductive RequestState where
  | pending | allowed | denied | cancelled | expired | invalidated
  deriving DecidableEq, Repr

def RequestState.name : RequestState → String
  | pending => "PENDING"
  | allowed => "ALLOWED"
  | denied => "DENIED"
  | cancelled => "CANCELLED"
  | expired => "EXPIRED"
  | invalidated => "INVALIDATED"

inductive ArtifactState where
  | active | cleanupPending | cleanupFailed | deleted
  deriving DecidableEq, Repr

def ArtifactState.name : ArtifactState → String
  | active => "ACTIVE"
  | cleanupPending => "CLEANUP_PENDING"
  | cleanupFailed => "CLEANUP_FAILED"
  | deleted => "DELETED"

structure DefinitionRow where
  id : String
  active : Bool
  config : Message
  deriving DecidableEq

structure SessionRow where
  id : String
  subject : String
  profile : String
  owner : String
  «instance» : String
  state : SessionState
  generation : Int
  policy : String
  created : Int
  idleDeadline : Int
  absoluteDeadline : Int
  leaseDeadline : Int
  grace : Int
  resumeDeadline : Int
  resumeHash : String
  deriving DecidableEq

structure RequestRow where
  id : String
  owner : String
  subject : String
  profile : String
  clientId : String
  fingerprint : String
  payload : Message
  state : RequestState
  deadline : Int
  token : String
  uiOwner : String
  uiInstance : String
  deriving DecidableEq

structure Grant where
  id : String
  key : Message
  definition : String
  version : String
  subject : String
  profile : String
  session : String
  mode : String
  expires : Int
  remaining : Int
  revoked : Bool
  deriving DecidableEq

structure Authorization where
  id : String
  enforcer : String
  operation : String
  step : String
  fingerprint : String
  payload : Message
  created : Int
  valid : Bool
  deriving DecidableEq

/-- One row of `authorization_grants`. -/
structure ReceiptSource where
  receipt : String
  grant : String
  deriving DecidableEq

structure Artifact where
  id : String
  receipt : String
  session : String
  holder : String
  «instance» : String
  purpose : String
  recipient : String
  scope : String
  expires : Int
  state : ArtifactState
  level : Int
  cleanupError : String
  deriving DecidableEq

/-- One row of `artifact_grants`. -/
structure ArtifactSource where
  artifact : String
  grant : String
  deriving DecidableEq

/-- One row of `artifact_parents`. -/
structure ArtifactParent where
  child : String
  parent : String
  deriving DecidableEq

structure Acknowledgement where
  artifact : String
  holder : String
  «instance» : String
  success : Bool
  acknowledged : Int
  deriving DecidableEq

/-- The database file; the last four fields are the rows of `meta`. -/
structure Database where
  definitions : List DefinitionRow
  sessions : List SessionRow
  requests : List RequestRow
  grants : List Grant
  authorizations : List Authorization
  authorizationGrants : List ReceiptSource
  artifacts : List Artifact
  artifactGrants : List ArtifactSource
  artifactParents : List ArtifactParent
  acknowledgements : List Acknowledgement
  revision : Int
  registryRevision : Int
  cleanupUnknown : Bool
  incarnation : String
  deriving DecidableEq

namespace Database

/-- A new file after `kSchema`; it has no incarnation yet. -/
def fresh : Database where
  definitions := []
  sessions := []
  requests := []
  grants := []
  authorizations := []
  authorizationGrants := []
  artifacts := []
  artifactGrants := []
  artifactParents := []
  acknowledgements := []
  revision := 0
  registryRevision := 0
  cleanupUnknown := false
  incarnation := ""

def bump (d : Database) : Database := { d with revision := d.revision + 1 }

/-! ### Lookups by primary key -/

def findDefinition (d : Database) (id : String) : Option DefinitionRow :=
  d.definitions.find? fun r => decide (r.id = id)

def findSession (d : Database) (id : String) : Option SessionRow :=
  d.sessions.find? fun r => decide (r.id = id)

def findRequest (d : Database) (id : String) : Option RequestRow :=
  d.requests.find? fun r => decide (r.id = id)

def findGrant (d : Database) (id : String) : Option Grant :=
  d.grants.find? fun r => decide (r.id = id)

def findAuthorization (d : Database) (id : String) : Option Authorization :=
  d.authorizations.find? fun r => decide (r.id = id)

def findArtifact (d : Database) (id : String) : Option Artifact :=
  d.artifacts.find? fun r => decide (r.id = id)

/-- `SELECT config FROM definitions WHERE id=? AND active=1`. -/
def activeConfig (d : Database) (id : String) : Option Message :=
  (d.definitions.find? fun r => decide (r.id = id ∧ r.active = true)).map (·.config)

/-! ### Updates of one table -/

def updateSessions (d : Database) (condition : SessionRow → Bool) (f : SessionRow → SessionRow) :
    Database :=
  { d with sessions := Table.updateWhere d.sessions condition f }

def updateRequests (d : Database) (condition : RequestRow → Bool) (f : RequestRow → RequestRow) :
    Database :=
  { d with requests := Table.updateWhere d.requests condition f }

def updateArtifacts (d : Database) (condition : Artifact → Bool) (f : Artifact → Artifact) :
    Database :=
  { d with artifacts := Table.updateWhere d.artifacts condition f }

/-- `UPDATE grants SET revoked=1 WHERE ...`. -/
def revokeGrants (d : Database) (condition : Grant → Bool) : Database :=
  { d with grants := Table.updateWhere d.grants condition fun g => { g with revoked := true } }

/-- `UPDATE authorizations SET valid=0 WHERE ...`. -/
def invalidateReceipts (d : Database) (condition : Authorization → Bool) : Database :=
  { d with
    authorizations :=
      Table.updateWhere d.authorizations condition fun a => { a with valid := false } }

/-- `UPDATE requests SET state=?,token='' WHERE ...`. -/
def endRequests (d : Database) (state : RequestState) (condition : RequestRow → Bool) : Database :=
  d.updateRequests condition fun r => { r with state, token := "" }

/-- `UPDATE artifacts SET state='CLEANUP_PENDING' WHERE state='ACTIVE' AND ...`. -/
def blockArtifacts (d : Database) (condition : Artifact → Bool) : Database :=
  d.updateArtifacts (fun a => decide (a.state = .active) && condition a)
    fun a => { a with state := .cleanupPending }

/-- Some source grant of the receipt satisfies the condition. -/
def receiptSource (d : Database) (receipt : String) (condition : Grant → Bool) : Bool :=
  d.authorizationGrants.any fun e =>
    decide (e.receipt = receipt) && d.grants.any fun g => decide (g.id = e.grant) && condition g

/-- Some source grant of the artifact satisfies the condition. -/
def artifactSource (d : Database) (artifact : String) (condition : Grant → Bool) : Bool :=
  d.artifactGrants.any fun e =>
    decide (e.artifact = artifact) && d.grants.any fun g => decide (g.id = e.grant) && condition g

/-! ### Statements shared by the operations -/

/-- `Invalidate`: retire what rests on a definition whose projection changes. -/
def invalidate (d : Database) (definition : String) : Database :=
  let d := d.revokeGrants fun g => decide (g.definition = definition)
  let d := d.invalidateReceipts fun a =>
    d.receiptSource a.id fun g => decide (g.definition = definition)
  let d := d.blockArtifacts fun a =>
    d.artifactSource a.id fun g => decide (g.definition = definition)
  d.endRequests .invalidated fun r =>
    decide (r.state = .pending) &&
      (List.range (storedCount r.payload)).any fun i =>
        decide (r.payload.get (row i "definition") = definition)

/-- A pending request of the session. -/
def pendingOf (session : String) (r : RequestRow) : Bool :=
  decide (r.state = .pending) && decide (r.payload.get "session" = session)

def closeSession (d : Database) (session : String) : Database :=
  let d := d.updateSessions
    (fun s => decide (s.id = session) && decide (s.state = .active ∨ s.state = .suspended))
    fun s => { s with state := .closing, generation := s.generation + 1 }
  let d := d.revokeGrants fun g => decide (g.session = session) && decide (g.mode = "SESSION")
  let d := d.blockArtifacts fun a => decide (a.session = session)
  d.endRequests .invalidated (pendingOf session)

/-- `now` is the reading bound to the `UPDATE`. -/
def suspendSession (d : Database) (session : String) (now : Int) : Database :=
  let d := d.updateSessions (fun s => decide (s.id = session) && decide (s.state = .active))
    fun s => { s with
      state := .suspended, generation := s.generation + 1, resumeDeadline := now + s.grace }
  d.endRequests .invalidated (pendingOf session)

def finishCleanup (d : Database) : Database :=
  d.updateSessions
    (fun s => decide (s.state = .closing) &&
      !d.artifacts.any fun a => decide (a.session = s.id) && decide (a.state ≠ .deleted))
    fun s => { s with state := .closed }

def resetRuntime (d : Database) : Database :=
  let d := d.endRequests .invalidated fun r => decide (r.state = .pending)
  let d := d.updateSessions (fun s => decide (s.state = .active ∨ s.state = .suspended))
    fun s => { s with state := .closing, generation := s.generation + 1 }
  let d := d.revokeGrants fun g => decide (g.mode ≠ "PERSISTENT")
  let d := d.invalidateReceipts fun _ => true
  let d := d.blockArtifacts fun _ => true
  d.finishCleanup.bump

/-- Artifacts of a session that are not deleted. -/
def residentArtifacts (d : Database) (session : String) : Nat :=
  d.artifacts.countP fun a => decide (a.session = session) && decide (a.state ≠ .deleted)

end Database

end Consent.Repository
