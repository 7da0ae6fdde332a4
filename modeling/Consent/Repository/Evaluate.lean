import Consent.Repository.Conditions

/-!
Requests and checks (`Evaluate`), stored requests (`RequestRow`,
`ValidateStoredApproval`) and their results (`Result`).

A check in mode `AUTHORIZE` issues a receipt and consumes the `ONCE` grants it rests
on; a request is stored and waits for the approval UI unless it is decided at once.
-/
namespace Consent.Repository
open Profile

variable {σ ε : Type} [Host σ ε]

def validateApproval (request : Message) : Query σ ε Unit := do
  let c ← read
  checked .einval (Approval.validate c.platform.hash request)

/-- A caller of `request` or `check` passes no private field and no response field. -/
def publicFields (request : Message) : Prop :=
  (request.toList.all fun field => !starts field.1 "_") = true

instance (request : Message) : Decidable (publicFields request) :=
  inferInstanceAs (Decidable (_ = true))

def responseFields : List String :=
  ["chosen_grant_mode", "effective_period_choices", "approval_supported_versions",
    "approval_period_choice"]

/-- The checks before the transaction. -/
def admitCaller (peer : Peer) (request : Message) (create : Bool) : Query σ ε Unit := do
  require (publicFields request) .einval "private approval metadata is not a caller field"
  require (∀ name ∈ responseFields, request.contains name = false)
    .einval "response capability is not a requester field"
  validateApproval request
  require (if create then role peer "argo" = true
      else (role peer "checker" || role peer "cm" || role peer "ce" || role peer "holder") = true)
    .eacces "caller role denied"
  checkContext peer request
  activeContext request

/-- Retry shortcuts must not bypass the current typed schema. -/
def bindRow (d : Database) (request : Message) (i : Nat) : Query σ ε Unit :=
  match d.activeConfig (request.get (row i "definition")) with
  | some config => validateBoundArguments config request i
  | none => checked .einval (Localization.validateArguments ∅ request i)

def requestKeys : List String :=
  ["subject", "profile", "session", "generation", "operation_id", "step_id",
    "client_request_id", "deadline_ms", "count"]

def rowKeys : List String :=
  ["definition", "scope", "operation", "purpose", "recipient", "holder", "policy_version",
    "feature_id", "feature_revision"]

/-- The fields of a request that its fingerprint and its stored payload hold. -/
def requestPayload (request : Message) (count : Nat) (authorize : Bool) : Message :=
  let payload := (Approval.copyContext request ∅).insertFrom request requestKeys
  let payload := (List.range count).foldl (fun payload i =>
    payload.insertFrom request (rowKeys.map (row i))) payload
  if authorize then payload.eraseAll ["client_request_id", "deadline_ms"] else payload

/-- The private target of a timed preapproval, counted from admission. -/
def approvalTarget (request payload : Message) : Query σ ε (Message × Message) :=
  if Approval.versioned request ∧ request.get "request_kind" = "PREAPPROVAL" ∧
      request.get "grant_mode" = "TIMED" then do
    let time ← now
    let duration ← integer (request.get "duration_ms") 100 3600000
    let deadline := toString (time + duration)
    pure (request.insert "_approval_deadline" deadline, payload.insert "_approval_deadline" deadline)
  else pure (request, payload)

/-! ### Stored requests -/

/-- The message the operations work on: the payload with the columns of the row. -/
def withColumns (r : RequestRow) : Message :=
  [("request_id", r.id), ("decision", r.state.name), ("deadline", toString r.deadline),
    ("prompt_token", r.token), ("ui_owner", r.uiOwner), ("ui_instance", r.uiInstance)].foldl
    (fun result field => result.insert field.1 field.2) r.payload

theorem withColumns_request (r : RequestRow) : (withColumns r).get "request_id" = r.id := by
  simp [withColumns, Message.get_insert]

/-- The columns hide no other field. -/
theorem get_withColumns {r : RequestRow} {key : String}
    (other : key ∉ ["request_id", "decision", "deadline", "prompt_token", "ui_owner",
      "ui_instance"]) : (withColumns r).get key = r.payload.get key := by
  simp only [List.mem_cons, List.not_mem_nil, or_false, not_or] at other
  simp [withColumns, Message.get_insert, Ne.symm other.1, Ne.symm other.2.1, Ne.symm other.2.2.1,
    Ne.symm other.2.2.2.1, Ne.symm other.2.2.2.2.1, Ne.symm other.2.2.2.2.2]

/-- The row a message names, with its message. -/
def requestRow (d : Database) (peer : Peer) (request : Message) (ui : Bool) :
    Query σ ε (RequestRow × Message) := do
  let id := request.get "request_id"
  Act.when (id = "") (checkContext peer request)
  match d.requests.find? fun r => decide (r.id = id) ||
      (decide (id = "") && decide (r.owner = peer.identity) &&
        decide (r.clientId = request.get "client_request_id") &&
        decide (r.subject = request.get "subject") &&
        decide (r.profile = request.get "profile")) with
  | none => fail .enoent "request not found"
  | some r =>
    checkContext peer r.payload
    require (ui = true ∨ r.owner = peer.identity) .eacces "request owner mismatch"
    pure (r, withColumns r)

/-- An `ALLOWED` version 2 request is reported only while its grants still cover it. -/
def validateStoredApproval (d : Database) (peer : Peer) (id : String) (state : RequestState)
    (result : Message) : Query σ ε (Database × RequestState) :=
  if result.get "approval_version" ≠ "2" ∨ state ≠ .allowed then pure (d, state)
  else do
    activeContext result
    let evaluation := result.insert "_approval_mode" (result.get "chosen_grant_mode")
    require (result.get "chosen_grant_mode" = "PERSISTENT" ∨
        result.get "chosen_grant_mode" = result.get "grant_mode")
      .estale "stored approval period is missing or invalid"
    let _ ← sessionRow d peer evaluation true false
    let (coverage, _) ← checkConditions d peer evaluation false
    if coverage.get "decision" = "ALLOWED" then pure (d, state)
    else
      pure ((d.endRequests .invalidated fun r =>
        decide (r.id = id) && decide (r.state = .allowed)).bump, .invalidated)

/-- No private field leaves the repository. -/
def publish (result : Message) : Message :=
  (result.eraseAll ["prompt_token", "ui_owner", "ui_instance"]).filter
    fun key _ => !starts key "_"

/-- `generation` is `operation_profile_generation_`. -/
def result (d : Database) (peer : Peer) (request : Message) (cancel : Bool) (generation : Nat) :
    Query σ ε Outcome := do
  require (role peer "argo") .eacces "argo role required"
  sqlOutcome
  let (r, fields) ← requestRow d peer request false
  if cancel ∧ r.state = .pending then
    let ended := d.endRequests .cancelled fun other =>
      decide (other.id = r.id) && decide (other.state = .pending)
    pure { tables := ended.bump, reply := publish (fields.insert "decision" "CANCELLED")
           commit := .plain }
  else if r.state = .allowed then
    activeContext fields
    let (changed, state) ← validateStoredApproval d peer r.id r.state fields
    let authority ← profiles
    let reply := publish (fields.insert "decision" state.name)
    pure { tables := changed, commit := .profile
           reply := if authority.enabled then
              reply.insert "profile_generation" (toString generation) else reply }
  else
    pure { tables := d, reply := publish fields, commit := .plain }

/-! ### Evaluate -/

/-- The receipt already issued for this execution step. -/
def receiptRetry (d : Database) (peer : Peer) (request : Message) (fingerprint : String) :
    Query σ ε (Option Outcome) := do
  require (identifier (request.get "operation_id") ∧ identifier (request.get "step_id"))
    .einval "operation and execution step required"
  match d.authorizations.find? fun a => decide (a.enforcer = peer.identity) &&
      decide (a.operation = request.get "operation_id") &&
      decide (a.step = request.get "step_id") with
  | none => pure none
  | some prior =>
    require (prior.fingerprint = fingerprint) .conflict "operation payload conflict"
    let stands ← receiptValid d prior.id
    require (stands = true) .estale "authorization was invalidated"
    pure (some { tables := d, commit := .profile
                 reply := Message.of
                  [("decision", "ALLOWED"), ("receipt", prior.id), ("retry", "1")] })

/-- The request already stored under this client id. -/
def requestRetry (d : Database) (peer : Peer) (request : Message) (fingerprint : String) :
    Query σ ε (Option Outcome) := do
  require (identifier (request.get "client_request_id") ∧ identifier (request.get "operation_id"))
    .einval "stable client request and operation required"
  match d.requests.find? fun r => decide (r.owner = peer.identity) &&
      decide (r.subject = request.get "subject") && decide (r.profile = request.get "profile") &&
      decide (r.clientId = request.get "client_request_id") with
  | none => pure none
  | some prior =>
    require (prior.fingerprint = fingerprint) .conflict "request payload conflict"
    if request.get "approval_version" = "2" then
      let stored : Message :=
        (prior.payload.insert "request_id" prior.id).insert "decision" prior.state.name
      let (changed, state) ← validateStoredApproval d peer prior.id prior.state stored
      let reply := Approval.copyContext stored
        (Message.of [("request_id", prior.id), ("decision", state.name)])
      let reply := if stored.contains "chosen_grant_mode" then
        reply.insert "chosen_grant_mode" (stored.get "chosen_grant_mode") else reply
      let reply := if stored.contains "_prompt_period_choices" then
        reply.insert "effective_period_choices" (stored.get "_prompt_period_choices") else reply
      pure (some { tables := changed, reply, commit := .profile })
    else
      pure (some { tables := d, commit := .profile
                   reply := Message.of
                    [("request_id", prior.id), ("decision", prior.state.name)] })

/-- One source of a receipt: a `ONCE` grant is used up. -/
def useGrant (receipt : String) (d : Database) (grant : String) : Database :=
  { d with
    grants := Table.updateWhere d.grants
      (fun g => decide (g.id = grant) && decide (g.mode = "ONCE") && decide (0 < g.remaining))
      fun g => { g with remaining := g.remaining - 1 }
    authorizationGrants := d.authorizationGrants ++ [⟨receipt, grant⟩] }

def issueReceipt (d : Database) (peer : Peer) (request payload : Message) (fingerprint : String)
    (reply : Message) (grants : List String) : Query σ ε Outcome := do
  let receipt ← freshId
  let created ← now
  let authorization : Authorization :=
    { id := receipt, enforcer := peer.identity, operation := request.get "operation_id"
      step := request.get "step_id", fingerprint, payload, created, valid := true }
  let issued := { d with authorizations := d.authorizations ++ [authorization] }
  pure { tables := (grants.foldl (useGrant receipt) issued).bump
         reply := reply.insert "receipt" receipt, commit := .profile }

/-- A row that still needs consent has to permit the selected period. -/
def permitSelected (d : Database) (request reply : Message) (i : Nat) : Query σ ε Unit :=
  if reply.get (row i "decision") = "CONSENT_REQUIRED" then do
    let config ← definition d (request.get (row i "definition"))
    require (Approval.occurs ("," ++ request.get "grant_mode" ++ ",")
        ("," ++ config.get "modes" ++ ",") = true)
      .eacces "selected period is not permitted for a missing condition"
  else pure ()

/-- The row fields of a decision, kept with the stored request. -/
def keepRows (payload reply : Message) : Message :=
  reply.toList.foldl (fun result field =>
    if starts field.1 "r" then result.insert field.1 field.2 else result) payload

def storeRequest (d : Database) (peer : Peer) (request payload : Message) (fingerprint : String)
    (reply : Message) (count : Nat) : Query σ ε Outcome := do
  Act.when (Approval.versioned request = true)
    ((List.range count).foldlM (fun _ i => permitSelected d request reply i) ())
  let pending := reply.get "decision" = "CONSENT_REQUIRED"
  require (pending → d.requests.countP (fun r => decide (r.state = .pending)) < 256)
    .ebusy "pending request capacity exceeded"
  let allowance ← number request "deadline_ms" 60000 100 300000
  let id ← freshId
  let chosen := request.get "approval_version" = "2" ∧ reply.get "decision" = "ALLOWED"
  let kept := keepRows payload reply
  let payload := if chosen then kept.insert "chosen_grant_mode" (request.get "grant_mode") else kept
  let context := if request.get "approval_version" = "2" then Approval.copyContext request reply
    else reply
  let reply : Message := if chosen then context.insert "chosen_grant_mode" (request.get "grant_mode")
    else context
  let state := if pending then RequestState.pending
    else if reply.get "decision" = "ALLOWED" then .allowed else .denied
  let time ← now
  let stored : RequestRow :=
    { id, owner := peer.identity, subject := request.get "subject"
      profile := request.get "profile", clientId := request.get "client_request_id"
      fingerprint, payload, state, deadline := time + allowance
      token := "", uiOwner := "", uiInstance := "" }
  pure { tables := { d with requests := d.requests ++ [stored] }.bump
         reply := (reply.insert "decision" state.name).insert "request_id" id
         commit := .profile }

def evaluate (d : Database) (peer : Peer) (input : Message) (create : Bool) :
    Query σ ε Outcome := do
  admitCaller peer input create
  sqlOutcome
  let _ ← sessionRow d peer input true false
  let mode := input.getD "mode" "QUERY"
  require (mode = "QUERY" ∨ mode = "AUTHORIZE") .einval "invalid check mode"
  let authorize := !create && mode == "AUTHORIZE"
  let count ← requirementCount input
  (List.range count).foldlM (fun _ i => bindRow d input i) ()
  let basis := requestPayload input count authorize
  let fingerprint ← hash (pack basis)
  let retry ←
    (if authorize then receiptRetry d peer input fingerprint
    else if create then requestRetry d peer input fingerprint
    else pure none)
  match retry with
  | some outcome => pure outcome
  | none =>
    let (request, payload) ← approvalTarget input basis
    let (reply, grants) ← checkConditions d peer request authorize
    if create then storeRequest d peer request payload fingerprint reply count
    else if authorize ∧ reply.get "decision" = "ALLOWED" then
      issueReceipt d peer request payload fingerprint reply grants
    else pure { tables := d, reply, commit := .profile }

end Consent.Repository
