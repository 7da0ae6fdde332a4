import Consent.CleanupCursor
import Consent.Repository.Prompt

/-!
Artifacts (`Data`): registration of data acquired under a receipt, derivation from
other artifacts, use, release and the list of what a holder still has to delete.
-/
namespace Consent.Repository
open Profile

variable {σ ε : Type} [Host σ ε]

/-! ### Cleanup -/

/-- The rows of a holder that await deletion, for one subject and profile. -/
def cleanupRows (d : Database) (peer : Peer) (request : Message) (reconcile : Bool) :
    List Artifact :=
  d.artifacts.filter fun a =>
    decide (a.holder = peer.identity) &&
      (decide (a.instance = peer.instance) || reconcile) &&
      decide (a.state = .cleanupPending ∨ a.state = .cleanupFailed) &&
      (d.findSession a.session).any fun s =>
        decide (s.subject = request.get "subject") && decide (s.profile = request.get "profile")

def maximumId (rows : List Artifact) : String :=
  rows.foldl (fun upper a => if upper < a.id then a.id else upper) ""

def cleanupCursor (d : Database) (peer : Peer) (request : Message) (reconcile : Bool)
    (incarnation : String) : Query σ ε CleanupCursor := do
  let scope ← hash (cleanupScopeInput peer.identity peer.instance (request.get "subject")
    (request.get "profile") reconcile)
  let token := request.get "cursor"
  if token = "" then
    pure { incarnation, scope, last := "", upper := maximumId (cleanupRows d peer request reconcile) }
  else
    match CleanupCursor.parse token with
    | none => fail .einval "malformed cleanup cursor"
    | some cursor =>
      require (cursor.incarnation = incarnation) .estale "cleanup database incarnation changed"
      require (cursor.scope = scope) .eacces "cleanup cursor scope mismatch"
      pure cursor

def cleanupEntry (reply : Message) (entry : Artifact × Nat) : Message :=
  let head := "a" ++ toString entry.2 ++ "."
  [("artifact", entry.1.id), ("session", entry.1.session), ("state", entry.1.state.name),
    ("error", entry.1.cleanupError)].foldl (fun result field =>
      result.insert (head ++ field.1) field.2) reply

def cleanupList (d : Database) (peer : Peer) (request : Message) (incarnation : String) :
    Query σ ε Outcome := do
  checkContext peer request
  let mode := request.getD "reconcile" "0"
  require (mode = "0" ∨ mode = "1") .einval "invalid reconcile mode"
  let reconcile := mode == "1"
  let cursor ← cleanupCursor d peer request reconcile incarnation
  let rows := ((cleanupRows d peer request reconcile).filter fun a =>
    decide (cursor.last < a.id) && decide (a.id ≤ cursor.upper)).mergeSort
      fun a b => decide (a.id ≤ b.id)
  let page := rows.take 48
  let more := 48 < rows.length
  let last := (page.getLast?.map (·.id)).getD cursor.last
  let listed := page.zipIdx.foldl cleanupEntry ∅
  pure { tables := d, commit := .plain
         reply := ((listed.insert "count" (toString page.length)).insert "more"
           (if more then "1" else "0")).insert "next_cursor"
           (if more then { cursor with last }.encode else "") }

/-- Another instance of the holder may only confirm a deletion that is due. -/
def requireReconcile (peer : Peer) (request : Message) (a : Artifact) (s : SessionRow) :
    Query σ ε Unit := do
  require (request.get "reconcile" = "1") .eacces "holder instance mismatch"
  checkContext peer request
  require (s.subject = request.get "subject" ∧ s.profile = request.get "profile")
    .eacces "cleanup reconciliation context mismatch"
  require (a.state = .cleanupPending ∨ a.state = .cleanupFailed ∨ a.state = .deleted)
    .eacces "reconciliation is cleanup-only"

/-- `data_release` and `cleanup_ack`. -/
def releaseData (d : Database) (peer : Peer) (request : Message) : Query σ ε Outcome := do
  let id := request.get "artifact"
  match (d.findArtifact id).bind fun a => (d.findSession a.session).map fun s => (a, s) with
  | none => fail .enoent "artifact not found"
  | some (a, s) =>
    require (a.holder = peer.identity) .eacces "holder identity mismatch"
    Act.when (a.instance ≠ peer.instance) (requireReconcile peer request a s)
    let success := request.getD "success" "1" == "1"
    require (success = true ∨ a.state ≠ .deleted) .estale "completed deletion cannot become failed"
    let time ← now
    let state := if success then ArtifactState.deleted else .cleanupFailed
    let cleanupError := if success then "" else "holder reported cleanup failure"
    let released := d.updateArtifacts (fun other => decide (other.id = id))
      fun other => { other with state, cleanupError }
    let acknowledged := { released with
      acknowledgements := Table.upsert Acknowledgement.artifact released.acknowledgements
        ⟨id, peer.identity, peer.instance, success, time⟩ }
    pure { tables := acknowledged.finishCleanup.bump, commit := .plain
           reply := Message.of [("state", state.name)] }

/-! ### Registration and use -/

/-- The artifact a registration inserts. -/
def newArtifact (peer : Peer) (request : Message) (id receipt : String) (expires level : Int) :
    Artifact :=
  { id, receipt, session := request.get "session", holder := peer.identity
    «instance» := peer.instance, purpose := request.get "purpose"
    recipient := request.get "recipient", scope := request.get "scope", expires
    state := .active, level, cleanupError := "" }

/-- One original artifact per receipt and holder: the old identity and deadline. -/
def dataRetry (d : Database) (peer : Peer) (request : Message) (prior : Artifact) :
    Query σ ε Outcome := do
  require (prior.instance = peer.instance)
    .eacces "acquisition receipt belongs to a prior holder instance"
  require (prior.purpose = request.get "purpose" ∧ prior.recipient = request.get "recipient" ∧
      prior.scope = request.get "scope")
    .conflict "artifact retry payload conflict"
  require (prior.state = .active) .estale "artifact is no longer resident"
  let time ← now
  require (time < prior.expires) .estale "artifact is no longer resident"
  pure { tables := d, commit := .profile
         reply := Message.of [("artifact", prior.id), ("expires", toString prior.expires)] }

/-- The sources of a receipt become the sources of the artifact. -/
def insertOriginal (d : Database) (a : Artifact) : Database :=
  { d with
    artifacts := d.artifacts ++ [a]
    artifactGrants := d.artifactGrants ++
      (d.authorizationGrants.filter fun e => decide (e.receipt = a.receipt)).map
        fun e => ⟨a.id, e.grant⟩ }

def insertData (d : Database) (peer : Peer) (request : Message) (a : Authorization) :
    Query σ ε Outcome := do
  let index ← number request "requirement" 0 0 15
  let count ← requirementCount a.payload
  require (index < count) .einval "requirement index out of range"
  let i := index.toNat
  require (a.payload.get (row i "holder") = peer.identity)
    .eacces "receipt is bound to another holder"
  require (a.payload.get (row i "scope") = request.get "scope" ∧
      a.payload.get (row i "purpose") = request.get "purpose" ∧
      a.payload.get (row i "recipient") = request.get "recipient")
    .eacces "returned data exceeds receipt context"
  let config ← definition d (a.payload.get (row i "definition"))
  let retention ← number config "retention_ms" 0 0 kDayMs
  require (0 < retention) .eacces "definition does not permit result retention"
  let expires := a.created + retention
  let time ← now
  require (time < expires) .estale "acquisition data already expired"
  require (d.residentArtifacts (request.get "session") < 256)
    .ebusy "session artifact capacity exceeded"
  let id ← freshId
  let level ← integer (config.get "level") 0 3
  pure { tables := (insertOriginal d (newArtifact peer request id a.id expires level)).bump
         commit := .profile
         reply := Message.of [("artifact", id), ("permit", id), ("expires", toString expires),
           ("storage_class", "MEMORY_ONLY")] }

def registerData (d : Database) (peer : Peer) (request : Message) : Query σ ε Outcome := do
  let receipt := request.get "receipt"
  let stands ← receiptValid d receipt
  require (stands = true) .estale "acquisition receipt invalid"
  match d.findAuthorization receipt with
  | none => fail .enoent "acquisition receipt missing"
  | some a =>
    require (∀ name ∈ ["session", "generation", "subject", "profile"],
        a.payload.get name = request.get name)
      .eacces "acquisition context mismatch"
    match d.artifacts.find? fun prior =>
        decide (prior.receipt = receipt) && decide (prior.holder = peer.identity) with
    | some prior => dataRetry d peer request prior
    | none => insertData d peer request a

/-- The locals of the parent loop. -/
structure Parents where
  expires : Int
  level : Int
  ids : List String

def checkParent (d : Database) (peer : Peer) (request : Message) (parents : Parents) (i : Nat) :
    Query σ ε Parents := do
  let id := request.get ("parent" ++ toString i)
  require (id ∉ parents.ids) .einval "duplicate parent artifact"
  match d.findArtifact id with
  | none => fail .enoent "parent artifact missing"
  | some a =>
    require (ownedUse peer request a) .eacces "parent artifact ownership or use mismatch"
    require (a.state = .active) .estale "parent artifact unavailable"
    let time ← now
    require (time < a.expires) .estale "parent artifact unavailable"
    validateArtifactProvenance d peer request id
    pure { expires := min parents.expires a.expires, level := max parents.level a.level
           ids := parents.ids ++ [id] }

/-- `INSERT OR IGNORE INTO artifact_grants SELECT ?,grant_id ...` and the parent link. -/
def inheritFrom (id : String) (d : Database) (parent : String) : Database :=
  { d with
    artifactGrants := d.artifactGrants ++
      ((d.artifactGrants.filter fun e => decide (e.artifact = parent) &&
        !d.artifactGrants.contains ⟨id, e.grant⟩).map fun e => ⟨id, e.grant⟩)
    artifactParents := d.artifactParents ++ [⟨id, parent⟩] }

/-- The parent set iterates in id order. -/
def insertDerived (d : Database) (a : Artifact) (parents : List String) : Database :=
  (parents.mergeSort fun x y => decide (x ≤ y)).foldl (inheritFrom a.id)
    { d with artifacts := d.artifacts ++ [a] }

def deriveData (d : Database) (peer : Peer) (request : Message) : Query σ ε Outcome := do
  let count ← requirementCount request
  require (1 ≤ count) .einval "parent artifacts required"
  let parents ← (List.range count).foldlM (checkParent d peer request) ⟨int64Max, 0, []⟩
  require (d.residentArtifacts (request.get "session") < 256)
    .ebusy "session artifact capacity exceeded"
  let id ← freshId
  let a := newArtifact peer request id ("derived:" ++ id) parents.expires parents.level
  pure { tables := (insertDerived d a parents.ids).bump, commit := .profile
         reply := Message.of
           [("artifact", id), ("permit", id), ("expires", toString parents.expires)] }

/-- The methods that use data, behind their common checks. -/
def useData (d : Database) (peer : Peer) (request : Message) (method : String) :
    Query σ ε Outcome := do
  require (request.get "reconcile" ≠ "1")
    .eacces "cleanup reconciliation does not transfer data-use rights"
  checkContext peer request
  activeContext request
  require (request.getD "storage_class" "MEMORY_ONLY" = "MEMORY_ONLY")
    .eacces "persistent data storage is disabled"
  require (request.get "session" ≠ "") .einval "data requires session"
  let _ ← sessionRow d peer request true false
  if method = "data_register" then registerData d peer request
  else if method = "data_register_derived" then deriveData d peer request
  else if method = "data_check" then
    validateArtifactProvenance d peer request (request.get "artifact")
    pure { tables := d, commit := .profile, reply := Message.of [("decision", "ALLOWED")] }
  else fail .enosys "data method unsupported"

def data (d : Database) (peer : Peer) (request : Message) (incarnation : String) :
    Query σ ε Outcome := do
  require (role peer "holder") .eacces "holder role required"
  checked .einval (Localization.validateArguments ∅ request 0)
  let method := request.get "method"
  sqlOutcome
  if method = "cleanup_list" then cleanupList d peer request incarnation
  else if method = "data_release" ∨ method = "cleanup_ack" then releaseData d peer request
  else useData d peer request method

end Consent.Repository
