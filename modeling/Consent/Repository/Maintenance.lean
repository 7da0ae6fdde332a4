import Consent.Repository.Data

/-!
Transactions the daemon runs on its own: the projection of the registry (`Replay`),
the profile barrier (`FenceProfiles`), the compensation of `ProfileCommit` and the
reclamation of unusable metadata (`CompactMetadata`).
-/
namespace Consent.Repository
open Profile

variable {σ ε : Type} [Host σ ε]

/-! ### Replay -/

def kEstale : Int := -116

/-- The status an installation authority returned; `none` is 0. -/
def authorityStatus (code : Int) : Option Status :=
  if code = 0 then none else if code = kEstale then some .estale else some (.authority code)

def askOffline (validate : Nat → String → String → String → Int)
    (package app identity : String) : Query σ ε Int where
  run _ s := (.ok (validate s.validated package app identity),
    { s with validated := s.validated + 1 })
  grows _ s := { Progress.Ahead.refl s with answers := Nat.le_succ s.validated }

def offlineInstallationStatus (config : Message) : Query σ ε (Option Status) := do
  let identity := config.getD "_install_identity" (config.get "expected_generation")
  let c ← read
  match c.environment.offlineValidator with
  | some validate =>
    let code ← askOffline validate (config.get "package") (config.get "app") identity
    require (code ≤ 0) .einval "offline installation validator returned invalid status"
    pure (authorityStatus code)
  | none =>
    let current ← validator (config.get "package") (config.get "app") identity
    pure (if current then none else some .estale)

/-- Whether a definition of the registry is active under the installation authority. -/
def projectedActive (config : Message) (offline : Bool) : Query σ ε Bool :=
  if config.getD "active" "1" = "1" then
    if offline then do
      let status ← offlineInstallationStatus config
      match status with
      | none => pure true
      | some .estale => pure false
      | some status =>
        fail status "offline installation authority failed during registry replay"
    else installed config
  else pure false

/-- `Invalidate` reads the row count of every pending request. -/
def invalidate (d : Database) (definition : String) : Query σ ε Database := do
  d.requests.foldlM (fun _ r => do
    if r.state = .pending then
      let _ ← number r.payload "count" 0 0 16
      pure ()
    else pure ()) ()
  pure (d.invalidate definition)

def putDefinition (d : Database) (r : DefinitionRow) : Database :=
  { d with definitions := Table.upsert DefinitionRow.id d.definitions r }

/-- One turn of the loop of `Replay`. -/
def replayDefinition (offline : Bool) (state : Database × Bool) (item : String × Message) :
    Query σ ε (Database × Bool) := do
  let active ← projectedActive item.2 offline
  let projected := item.2.insert "active" (if active then "1" else "0")
  if (state.1.findDefinition item.1).map (·.config) = some projected then pure state
  else
    let invalidated ← invalidate state.1 item.1
    pure (putDefinition invalidated ⟨item.1, active, projected⟩, true)

def replay (definitions : Definitions) (revision : Int) (offline : Bool) (d : Database) :
    Query σ ε Outcome := do
  sqlOutcome
  let (projected, changed) ← definitions.toList.foldlM (replayDefinition offline) (d, false)
  let marked := { projected with registryRevision := revision }
  pure { tables := if changed || projected.registryRevision != revision then marked.bump else marked
         reply := ∅, commit := .plain }

/-! ### Profile barrier and compensation -/

/-- The grants of a binding are retired on loss of synchronization and on removal of
its user. -/
def retires (retireGrants : Bool) (removedUser : String) (b : Binding) : Bool :=
  retireGrants || (removedUser != "" && b.user == removedUser)

/-- One turn of the binding loop. -/
def fenceBinding (retireGrants : Bool) (removedUser : String) (d : Database) (b : Binding) :
    Database :=
  let live := d.sessions.filter fun s => decide (s.subject = b.subject) &&
    decide (s.profile = b.profile) && decide (s.state = .active ∨ s.state = .suspended)
  let d := (live.map (·.id)).foldl Database.closeSession d
  let d := d.endRequests .invalidated fun r => decide (r.subject = b.subject) &&
    decide (r.profile = b.profile) && decide (r.state = .pending ∨ r.state = .allowed)
  if retires retireGrants removedUser b then
    d.revokeGrants fun g => decide (g.subject = b.subject) && decide (g.profile = b.profile)
  else d

def fenceTables (bindings : List Binding) (retireGrants : Bool) (removedUser : String)
    (d : Database) : Database :=
  let d := bindings.foldl (fenceBinding retireGrants removedUser) d
  let d := d.invalidateReceipts fun a => a.valid && bindings.any fun b =>
    decide (a.payload.get "subject" = b.subject) && decide (a.payload.get "profile" = b.profile)
  d.finishCleanup.bump

/-- The bindings are fixed once they are configured. -/
def fence (bindings : List Binding) (retireGrants : Bool) (removedUser : String) (d : Database) :
    Query σ ε Outcome := do
  sqlOutcome
  pure { tables := fenceTables bindings retireGrants removedUser d, reply := ∅, commit := .plain }

/-- The approvals of a commit that raced with a profile change are taken back. -/
def compensate (grants : List String) (request : String) (d : Database) : Query σ ε Outcome := do
  sqlOutcome
  let revoked := grants.foldl (fun d id => d.revokeGrants fun g => decide (g.id = id)) d
  let ended := if request = "" then revoked
    else revoked.endRequests .invalidated fun r => decide (r.id = request)
  pure { tables := ended.bump, reply := ∅, commit := .plain }

/-! ### Compaction -/

def kMaintenanceLimit : Nat := 128

/-- The private fields a finished dialogue leaves in the payload. -/
def privateFields : List String := ["prompt_token", "ui_owner", "ui_instance", "_prompt_locale"]

inductive RecordClass where
  | receipts | requests | sessions | grants
  deriving DecidableEq, Repr

/-- `(maintenance_class_ + offset) % 4`. -/
def recordClass (index : Nat) : RecordClass :=
  match index % 4 with
  | 0 => .receipts
  | 1 => .requests
  | 2 => .sessions
  | _ => .grants

/-- The records of a class that hold reclaimable data, in rowid order. -/
def reclaimable (d : Database) : RecordClass → List String
  | .receipts => (d.authorizations.filter fun a => !a.valid &&
      (decide (a.payload ≠ ∅) || d.authorizationGrants.any fun e => decide (e.receipt = a.id))).map
      (·.id)
  | .requests => (d.requests.filter fun r => decide (r.state ≠ .pending) &&
      decide (r.token ≠ "" ∨ r.uiOwner ≠ "" ∨ r.uiInstance ≠ "")).map (·.id)
  | .sessions => (d.sessions.filter fun s => decide (s.state = .closed) &&
      decide (s.resumeHash ≠ "")).map (·.id)
  | .grants => (d.grants.filter fun g => g.revoked &&
      !(d.authorizationGrants.any fun e => decide (e.grant = g.id)) &&
      !(d.artifactGrants.any fun e => decide (e.grant = g.id))).map (·.id)

def reclaim (d : Database) (id : String) : RecordClass → Database
  | .receipts =>
    { d with
      authorizations := Table.updateWhere d.authorizations
        (fun a => decide (a.id = id) && !a.valid) fun a => { a with payload := ∅ }
      authorizationGrants := d.authorizationGrants.filter fun e => decide (e.receipt ≠ id) }
  | .requests => d.updateRequests (fun r => decide (r.id = id)) fun r => { r with
      token := "", uiOwner := "", uiInstance := "", payload := r.payload.eraseAll privateFields }
  | .sessions => d.updateSessions (fun s => decide (s.id = id)) fun s => { s with resumeHash := "" }
  | .grants => { d with grants := d.grants.filter fun g => decide (g.id ≠ id) }

/-- One class, within what is left of the shared budget. -/
def compactClass (first : Nat) (state : Database × Nat) (offset : Nat) : Database × Nat :=
  if state.2 < kMaintenanceLimit then
    let type := recordClass (first + offset)
    let records := (reclaimable state.1 type).take (kMaintenanceLimit - state.2)
    (records.foldl (fun d id => reclaim d id type) state.1, state.2 + records.length)
  else state

def compactTables (first : Nat) (d : Database) : Database × Nat :=
  (List.range 4).foldl (compactClass first) (d, 0)

def compact (first : Nat) (d : Database) : Query σ ε Outcome := do
  sqlOutcome
  let (compacted, count) := compactTables first d
  pure { tables := compacted, commit := .plain
         reply := Message.of [("compacted_records", toString count)] }

/-! ### Storage transactions -/

/-- The schema statements of a new file. -/
def createTables (_ : Database) : Query σ ε Outcome := do
  sqlOutcome
  pure { tables := Database.fresh, reply := ∅, commit := .plain }

def incarnateTables (d : Database) : Query σ ε Outcome := do
  let incarnation ← freshId
  pure { tables := { d with incarnation }, reply := ∅, commit := .plain }

def recoverTables (d : Database) : Query σ ε Outcome :=
  pure { tables := { d with cleanupUnknown := true }, reply := ∅, commit := .plain }

def resetTables (d : Database) : Query σ ε Outcome := do
  sqlOutcome
  pure { tables := d.resetRuntime, reply := ∅, commit := .plain }

/-- The work of a transaction on the tables it finds. -/
def Call.work : Call → Database → Query σ ε Outcome
  | .create, d => createTables d
  | .incarnate, d => incarnateTables d
  | .recover, d => recoverTables d
  | .replay definitions revision offline, d => Repository.replay definitions revision offline d
  | .resetRuntime, d => resetTables d
  | .expire, d => Repository.expire d
  | .fenceProfiles bindings retireGrants removedUser, d =>
    fence bindings retireGrants removedUser d
  | .compensate grants request, d => Repository.compensate grants request d
  | .session peer request, d => Repository.session d peer request
  | .evaluate peer request creates, d => Repository.evaluate d peer request creates
  | .prompt peer request respond, d => Repository.prompt d peer request respond
  | .result peer request cancel generation, d =>
    Repository.result d peer request cancel generation
  | .revoke peer request, d => Repository.revoke d peer request
  | .data peer request incarnation, d => Repository.data d peer request incarnation
  | .compact first, d => Repository.compact first d

end Consent.Repository
