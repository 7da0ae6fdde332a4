import Consent.Repository.Effects

/-!
Sessions: reading and changing one, and the expiry pass that every operation starts
with (`SessionState`, `Session` and `Expire` of `consentd/repository.cc`).

An operation is a function of the tables it finds. It returns its `Outcome`: the
tables to commit, the reply and how the source commits them.
-/
namespace Consent.Repository
open Profile

variable {σ ε : Type} [Host σ ε]

/-- No transaction, `Commit` or `ProfileCommit`. -/
inductive CommitKind where
  | none | plain | profile
  deriving DecidableEq, Repr

/-- `newGrants` and `newRequest` are `new_profile_grants_` and `new_profile_request_`:
`Execute` clears them and `Prompt` alone writes them. -/
structure Outcome where
  tables : Database
  reply : Message
  commit : CommitKind
  newGrants : List String := []
  newRequest : String := ""

def kDayMs : Int := 24 * 60 * 60 * 1000

/-- The checks of `SessionState` on a session that has to be usable now. -/
def requireActive (request : Message) (session : SessionRow) : Query σ ε Unit := do
  require (session.state ≠ .closing ∧ session.state ≠ .closed) .closed "session closed"
  require (session.state = .active) .inactive "session suspended"
  let generation ← number request "generation" 0 1 int64Max
  require (session.generation = generation) .estale "session generation mismatch"
  let first ← now
  require (first < session.idleDeadline) .inactive "session deadline expired"
  let second ← now
  require (second < session.absoluteDeadline) .inactive "session deadline expired"
  let third ← now
  require (third < session.leaseDeadline) .inactive "session deadline expired"

def describeSession (session : SessionRow) : Message :=
  Message.of [("session", session.id), ("state", session.state.name),
    ("generation", toString session.generation), ("policy", session.policy),
    ("idle_deadline", toString session.idleDeadline),
    ("absolute_deadline", toString session.absoluteDeadline),
    ("lease_deadline", toString session.leaseDeadline),
    ("resume_deadline", toString session.resumeDeadline), ("resume_hash", session.resumeHash)]

/-- `none` for a message that names no session. -/
def sessionRow (d : Database) (peer : Peer) (request : Message) (active owner : Bool) :
    Query σ ε (Option SessionRow) := do
  checkContext peer request
  let id := request.get "session"
  if id = "" then
    require (owner = false) .einval "session required"
    pure none
  else
    match d.findSession id with
    | none => fail .enoent "session not found"
    | some session =>
      require (session.subject = request.get "subject" ∧ session.profile = request.get "profile")
        .eacces "session context mismatch"
      require (owner = true → session.owner = peer.identity ∧ session.instance = peer.instance)
        .eacces "session owner instance mismatch"
      Act.when (active = true) (requireActive request session)
      pure (some session)

def sessionState (d : Database) (peer : Peer) (request : Message) (active owner : Bool) :
    Query σ ε Message := do
  let session ← sessionRow d peer request active owner
  match session with
  | none => pure ∅
  | some session => pure (describeSession session)

/-- The `RESUMABLE_CONVERSATION` branch of `Expire`. -/
def suspendable (session : SessionRow) : Query σ ε Bool :=
  if session.policy = "RESUMABLE_CONVERSATION" ∧ session.state = .active then do
    let first ← now
    if first < session.idleDeadline then do
      let second ← now
      pure (decide (second < session.absoluteDeadline))
    else pure false
  else pure false

/-- The sessions to close and those to suspend. -/
def partitionDue (due : List SessionRow) : Query σ ε (List String × List String) :=
  due.foldlM (fun lists session => do
    let keep ← suspendable session
    pure (if keep then (lists.1, lists.2 ++ [session.id]) else (lists.1 ++ [session.id], lists.2)))
    ([], [])

def suspendAll (d : Database) (ids : List String) : Query σ ε Database :=
  ids.foldlM (fun d id => do
    let time ← now
    pure (d.suspendSession id time)) d

def expire (d : Database) : Query σ ε Outcome := do
  sqlOutcome
  let deadline ← now
  let overdue := fun r : RequestRow => decide (r.state = .pending) && decide (r.deadline ≤ deadline)
  let ended := d.endRequests .expired overdue
  let t1 ← now
  let t2 ← now
  let t3 ← now
  let t4 ← now
  let t5 ← now
  let t6 ← now
  let due := ended.sessions.filter fun s =>
    decide (s.state = .active) && decide (s.idleDeadline ≤ t1 ∨ s.absoluteDeadline ≤ t2 ∨
      s.leaseDeadline ≤ t3) ||
    decide (s.state = .suspended) && decide (s.resumeDeadline ≤ t4 ∨ s.absoluteDeadline ≤ t5 ∨
      s.idleDeadline ≤ t6)
  let (close, suspend) ← partitionDue due
  let suspended ← suspendAll (close.foldl Database.closeSession ended) suspend
  let limit ← now
  let lapsed := fun a : Artifact => decide (a.expires ≤ limit)
  let cleaned := (suspended.blockArtifacts lapsed).finishCleanup
  let changed := d.requests.any overdue || !close.isEmpty || !suspend.isEmpty ||
    suspended.artifacts.any fun a => decide (a.state = .active) && lapsed a
  pure { tables := if changed then cleaned.bump else cleaned, reply := ∅, commit := .plain }

def openSession (d : Database) (peer : Peer) (request : Message) :
    Query σ ε (Database × Message) := do
  require (d.sessions.countP (fun s => decide (s.state = .active ∨ s.state = .suspended)) < 128)
    .ebusy "active session capacity exceeded"
  let policy := request.getD "lifecycle" "CONNECTION_BOUND"
  require (policy = "CONNECTION_BOUND" ∨ policy = "RESUMABLE_CONVERSATION")
    .einval "invalid session lifecycle"
  let idle ← number request "idle_timeout_ms" 600000 100 kDayMs
  let maximum ← number request "max_lifetime_ms" 3600000 100 kDayMs
  let lease ← number request "lease_ms" 30000 100 60000
  let grace ← number request "reconnect_grace_ms" 30000 100 300000
  let id ← freshId
  let token ← freshId
  let created ← now
  let idleFrom ← now
  let absoluteFrom ← now
  let leaseFrom ← now
  let resumeHash ← hash token
  let session : SessionRow :=
    { id, subject := request.get "subject", profile := request.get "profile"
      owner := peer.identity, «instance» := peer.instance, state := .active, generation := 1
      policy, created, idleDeadline := idleFrom + idle
      absoluteDeadline := absoluteFrom + maximum, leaseDeadline := leaseFrom + lease
      grace, resumeDeadline := 0, resumeHash }
  pure ({ d with sessions := d.sessions ++ [session] },
    Message.of [("session", id), ("generation", "1"), ("state", "ACTIVE"), ("resume_token", token)])

def resumeSession (d : Database) (request : Message) (session : SessionRow) :
    Query σ ε (Database × Message) := do
  require (session.state = .suspended) .inactive "session resume window closed"
  let resumeDeadline ← integer (toString session.resumeDeadline) 0 int64Max
  let time ← now
  require (time < resumeDeadline) .inactive "session resume window closed"
  let proof ← hash (request.get "resume_token")
  require (request.get "resume_token" ≠ "" ∧ proof = session.resumeHash)
    .eacces "resume proof mismatch"
  let token ← freshId
  let resumeHash ← hash token
  let leaseFrom ← now
  pure (d.updateSessions (fun s => decide (s.id = session.id)) fun s => { s with
      state := .active, generation := s.generation + 1, resumeHash
      leaseDeadline := leaseFrom + 30000 },
    Message.of [("resume_token", token)])

/-- The methods on an existing session, before its new state is read back. -/
def changeSession (d : Database) (request : Message) (method : String) (session : SessionRow) :
    Query σ ε (Database × Message) := do
  if method = "session_close" then
    pure ((d.closeSession session.id).finishCleanup, ∅)
  else if method = "session_suspend" then
    require (session.state = .active) .inactive "session is not active"
    if session.policy = "CONNECTION_BOUND" then
      pure ((d.closeSession session.id).finishCleanup, ∅)
    else
      let time ← now
      pure (d.suspendSession session.id time, ∅)
  else if method = "session_resume" then
    resumeSession d request session
  else if method = "session_heartbeat" then
    require (session.state = .active) .inactive "session is not active"
    let time ← now
    pure (d.updateSessions (fun s => decide (s.id = session.id)) fun s => { s with
      leaseDeadline := time + 30000 }, ∅)
  else
    fail .enosys "session method unsupported"

def controlSession (d : Database) (peer : Peer) (request : Message) (method : String) :
    Query σ ε (Database × Message) := do
  let found ← sessionRow d peer request false true
  match found with
  | none => fail .einval "session required"
  | some session =>
    let generation ← integer (toString session.generation) 1 int64Max
    let expected ← number request "generation" 0 1 int64Max
    require (generation = expected) .estale "session generation mismatch"
    let (changed, result) ← changeSession d request method session
    let current ← sessionState changed peer request false true
    pure (changed, result.insertAll (current.erase "resume_hash"))

/-- The session methods that the profile authority has to allow. -/
def sessionSensitive (method : String) : Bool :=
  method == "session_open" || method == "session_resume" || method == "session_heartbeat"

def session (d : Database) (peer : Peer) (request : Message) : Query σ ε Outcome := do
  let method := request.get "method"
  checkContext peer request
  if method = "session_get_state" ∨ method = "cleanup_get_state" then
    sqlOutcome
    let state ← sessionState d peer request false false
    let pending := toString (d.residentArtifacts (request.get "session"))
    pure { tables := d, reply := (state.erase "resume_hash").insert "cleanup_pending" pending
           commit := .none }
  else
    require (role peer "session") .eacces "session controller role required"
    Act.when (sessionSensitive method = true) (activeContext request)
    sqlOutcome
    let (changed, result) ←
      (if method = "session_open" then openSession d peer request
      else controlSession d peer request method)
    pure { tables := changed.bump, reply := result
           commit := if sessionSensitive method then .profile else .plain }

/-! ### What the operations return -/

section
open Act

variable {c : Context ε} {lo hi : Progress σ ε}

theorem requireActive_returns {request : Message} {s : SessionRow}
    (h : Returns c lo (requireActive request s) () hi) : s.state = .active := by
  obtain ⟨_, h⟩ := h.guard
  exact h.guard.1

theorem sessionRow_returns {d : Database} {peer : Peer} {request : Message} {active owner : Bool}
    {found : Option SessionRow} (h : Returns c lo (sessionRow d peer request active owner) found hi) :
    (found = none ∧ request.get "session" = "") ∨
    ∃ s, found = some s ∧ d.findSession (request.get "session") = some s ∧
      s.subject = request.get "subject" ∧ s.profile = request.get "profile" ∧
      (active = true → s.state = .active) := by
  obtain ⟨_, h⟩ := h.skip
  rcases h.ite with ⟨empty, h⟩ | ⟨named, h⟩
  · obtain ⟨_, h⟩ := h.guard
    exact Or.inl ⟨h.of_pure.symm, empty⟩
  · rcases row : d.findSession (request.get "session") with _ | s
    · rw [row] at h
      exact absurd h not_returns_fail
    · rw [row] at h
      obtain ⟨same, h⟩ := h.guard
      obtain ⟨_, h⟩ := h.guard
      obtain ⟨usable, h⟩ := h.skip
      refine Or.inr ⟨s, h.of_pure.symm, rfl, same.1, same.2, ?_⟩
      rintro rfl
      exact requireActive_returns usable

end

end Consent.Repository
