import Consent.Repository.Restriction

/-!
The abstract machine of the repository: what a committed transaction may do to the
tables. Beside the transactions that only take rights away there are those that
project the registry, open a session, store a request, issue a receipt, display or
answer a prompt, register data, and reclaim unusable rows. Each step carries the
guards under which the code takes it.
-/
namespace Consent.Repository

/-- Primary keys. -/
structure Database.Keyed (d : Database) : Prop where
  definitions : (d.definitions.map (·.id)).Nodup
  sessions : (d.sessions.map (·.id)).Nodup
  requests : (d.requests.map (·.id)).Nodup
  grants : (d.grants.map (·.id)).Nodup
  authorizations : (d.authorizations.map (·.id)).Nodup
  artifacts : (d.artifacts.map (·.id)).Nodup

/-! ### Registry and compaction, one row at a time -/

def projection (config : Message) (active : Bool) : Message :=
  config.insert "active" (if active then "1" else "0")

/-- The projections of the listed definitions changed, latest first: what rests on a
definition is retired before its new projection is stored. -/
inductive Projected (definitions : Definitions) (d : Database) : List String → Database → Prop where
  | nil : Projected definitions d [] d
  | cons {ids : List String} {mid : Database} {id : String} {config : Message} {active : Bool}
      (earlier : Projected definitions d ids mid) (once : id ∉ ids)
      (listed : definitions[id]? = some config)
      (changed : (mid.findDefinition id).map (·.config) ≠ some (projection config active)) :
      Projected definitions d (id :: ids)
        (putDefinition (mid.invalidate id) ⟨id, active, projection config active⟩)

/-- The record holds nothing that is still usable. -/
def Reclaimable (d : Database) (id : String) : RecordClass → Prop
  | .receipts => ∀ a ∈ d.authorizations, a.id = id → a.valid = false
  | .requests => ∀ r ∈ d.requests, r.id = id → r.state ≠ .pending
  | .sessions => ∀ s ∈ d.sessions, s.id = id → s.state = .closed
  | .grants => (∀ g ∈ d.grants, g.id = id → g.revoked = true) ∧
      (∀ e ∈ d.authorizationGrants, e.grant ≠ id) ∧ ∀ e ∈ d.artifactGrants, e.grant ≠ id

def Reclaims (d d' : Database) : Prop :=
  ∃ id type, Reclaimable d id type ∧ d' = reclaim d id type

/-! ### Requests and receipts -/

structure Stored (f : Frame) (peer : Peer) (request : Message) (r : RequestRow) : Prop where
  fresh : f.Fresh r.id
  owner : r.owner = peer.identity
  subject : r.subject = request.get "subject"
  profile : r.profile = request.get "profile"
  payloadSubject : r.payload.get "subject" = request.get "subject"
  payloadProfile : r.payload.get "profile" = request.get "profile"
  unstamped : r.payload.get "epoch" = ""
  counted : ∃ count, integer (r.payload.get "count") 0 16 = .ok count
  token : r.token = ""
  uiOwner : r.uiOwner = ""
  uiInstance : r.uiInstance = ""

/-- Every row of the check is covered, and the covering grants are the sources. -/
structure Issued (f : Frame) (d : Database) (peer : Peer) (request : Message) (a : Authorization)
    (grants : List String) : Prop where
  fresh : f.Fresh a.id
  valid : a.valid = true
  enforcer : a.enforcer = peer.identity
  mode : request.getD "mode" "QUERY" = "AUTHORIZE"
  subject : a.payload.get "subject" = request.get "subject"
  profile : a.payload.get "profile" = request.get "profile"
  covered : ∃ count, number request "count" 0 1 16 = .ok count ∧ 1 ≤ count.toNat ∧
    List.Forall₂ (CoveredBy f d request) (List.range count.toNat) grants
  distinct : (d.grants.map (·.id)).Nodup → grants.Nodup

/-- The tables after a receipt was issued. -/
def Issued.after (d : Database) (a : Authorization) (grants : List String) : Database :=
  (grants.foldl (useGrant a.id) { d with authorizations := d.authorizations ++ [a] }).bump

/-! ### The approval dialogue -/

/-- The definition of row `i` that a prompt shows. -/
def PromptDefinition (d : Database) (pending : Message) (i : Nat) (config : Message) : Prop :=
  d.activeConfig (pending.get (row i "definition")) = some config ∧
    config.get "policy_version" = pending.get (row i "policy_version") ∧
    config.get "text_revision" = pending.get (row i "text_revision")

/-- What both halves of the dialogue find. -/
structure Displayed (d : Database) (p : Display) : Prop where
  stored : p.row ∈ d.requests
  state : p.row.state = .pending
  pending : p.pending = withColumns p.row
  definitions : List.Forall₂ (PromptDefinition d p.pending) (List.range p.count) p.definitions
  selected : p.selected = Approval.versioned p.pending
  choices : p.choices = (p.pending.get "approval_version" == "2")
  typed : p.typed = p.definitions.any fun config => config.get "template_version" == "1"

/-- A field that no dialogue writes: it decides no row, is not private and does not end the
dialogue. What a request asks for is in such fields. -/
def Stable (key : String) : Prop :=
  (∀ i, row i "decision" ≠ key) ∧ starts key "_" = false ∧
    key ∉ "chosen_grant_mode" :: "reason" :: columnFields

/-- The payload keeps the fields of the request. -/
def Retains (p : Display) (payload : Message) : Prop :=
  ∀ key, Stable key → payload.get key = p.pending.get key

theorem displayedPayload_retains (p : Display) (locale : String) :
    Retains p (displayedPayload p locale) := by
  rintro key ⟨_, visible, other⟩
  simp only [List.mem_cons, not_or] at other
  have apart : ∀ name, starts name "_" = true → name ≠ key := by
    rintro name hidden rfl
    rw [visible] at hidden
    cases hidden
  have located : Message.get (if p.typed || p.selected then
      (p.pending.eraseAll columnFields).insert "_prompt_locale" locale
      else p.pending.eraseAll columnFields) key = p.pending.get key := by
    split
    · rw [Message.get_insert_of_ne _ _ (apart _ (by decide)),
        Message.get_eraseAll_of_notMem _ other.2.2]
    · exact Message.get_eraseAll_of_notMem _ other.2.2
  have chosen : Message.get (if p.choices then (if p.typed || p.selected then
      (p.pending.eraseAll columnFields).insert "_prompt_locale" locale
      else p.pending.eraseAll columnFields).insert "_prompt_period_choices" p.effective
      else (if p.typed || p.selected then
      (p.pending.eraseAll columnFields).insert "_prompt_locale" locale
      else p.pending.eraseAll columnFields)) key = p.pending.get key := by
    split
    · rw [Message.get_insert_of_ne _ _ (apart _ (by decide)), located]
    · exact located
  rw [displayedPayload]
  split
  · rw [Message.get_foldl_insert_of_ne _ _ _ _ fun _ _ => promptRow_ne visible,
      get_clearRows visible]
    exact chosen
  · exact chosen

theorem Displayed.retains {d : Database} {p : Display} (h : Displayed d p) {payload : Message}
    (retains : Retains p payload) : ∀ key, Stable key → payload.get key = p.row.payload.get key := by
  intro key stable
  rw [retains key stable, h.pending]
  exact get_withColumns fun member => stable.2.2 (by simp [columnFields, member])

/-- A prompt is shown and its token is stored. -/
structure Prompted (f : Frame) (d : Database) (request reply : Message) (p : Display)
    (token : String) : Prop where
  displayed : Displayed d p
  fresh : f.Fresh token
  published : reply.get "prompt_token" = token
  named : reply.get "request_id" = p.row.id
  context : ∀ name ∈ ["subject", "profile"], reply.get name = p.pending.get name
  every : p.selected = false → p.rows = List.range p.count
  bounded : ∀ i ∈ p.rows, i < p.count
  shown : ∀ i ∈ p.rows, ∃ j, ∀ name ∈ shownKeys,
    reply.get (row j name) = p.pending.get (row i name)
  locale : request.get "locale" ≠ ""

def Prompted.after (d : Database) (platform : Platform) (peer : Peer) (request : Message)
    (p : Display) (token : String) : Database :=
  (d.updateRequests (fun r => decide (r.id = p.row.id)) fun r => { r with
    token := platform.hash token, uiOwner := peer.identity, uiInstance := peer.instance
    payload := displayedPayload p (request.get "locale") }).bump

/-- The grant that an answer inserts for row `i`. -/
structure NewGrant (f : Frame) (p : Display) (mode : String) (i : Nat) (g : Grant) : Prop where
  fresh : f.Fresh g.id
  key : g.key = grantKey p.pending i (p.definitions.getD i ∅)
  definition : g.definition = (p.definitions.getD i ∅).get "definition"
  version : g.version = (p.definitions.getD i ∅).get "policy_version"
  subject : g.subject = p.pending.get "subject"
  profile : g.profile = p.pending.get "profile"
  period : g.mode = mode
  permitted : permits (p.definitions.getD i ∅) mode = true
  remaining : g.remaining = if mode = "ONCE" then 1 else -1
  live : g.revoked = false

/-- The answer names the prompt it answers and the UI that showed it. -/
structure Answered (f : Frame) (d : Database) (peer : Peer) (request : Message) (p : Display)
    (new : List Grant) (state : RequestState) : Prop where
  displayed : Displayed d p
  rows : p.rows = if p.selected then
    (List.range p.count).filter fun i => p.pending.get (promptRow i) == "1" else List.range p.count
  token : request.get "prompt_token" ≠ "" ∧
    f.platform.hash (request.get "prompt_token") = p.row.token
  ui : p.row.uiOwner = peer.identity ∧ p.row.uiInstance = peer.instance
  locale : (p.typed || p.selected) = true → p.pending.get "_prompt_locale" ≠ "" ∧
    request.get "locale" = p.pending.get "_prompt_locale"
  context : p.selected = true → Approval.sameContext p.pending request = true
  decision : request.get "decision" = "ALLOWED" ∧ (state = .allowed ∨ state = .invalidated) ∨
    request.get "decision" = "DENIED" ∧ state = .denied ∧ new = []
  mode : new ≠ [] → responseMode request p ∈ ["ONCE", "SESSION", "TIMED", "PERSISTENT"]
  granted : ∀ g ∈ new, ∃ i ∈ p.rows, NewGrant f p (responseMode request p) i g
  distinct : (new.map (·.id)).Nodup

def Answered.after (d : Database) (p : Display) (new : List Grant) (state : RequestState)
    (payload : Message) : Database :=
  (Database.updateRequests { d with grants := d.grants ++ new }
    (fun r => decide (r.id = p.row.id) && decide (r.state = .pending))
    fun r => { r with state, token := "", payload }).bump

/-- Nothing was left to show: the request ends without a prompt. -/
def Completed.after (d : Database) (p : Display) (state : RequestState) (payload : Message) :
    Database :=
  (d.updateRequests (fun r => decide (r.id = p.row.id))
    fun r => { r with state, token := "", payload }).bump

/-! ### Data -/

/-- Data acquired under a receipt. -/
structure Acquired (f : Frame) (d : Database) (peer : Peer) (request : Message) (a : Artifact)
    (receipt : Authorization) (retention : Int) (config : Message) : Prop where
  fresh : f.Fresh a.id
  artifact : ∃ level, a = newArtifact peer request a.id receipt.id (receipt.created + retention)
    level
  found : d.findAuthorization (request.get "receipt") = some receipt
  valid : receipt.valid = true
  unrevoked : ∀ e ∈ d.authorizationGrants, e.receipt = receipt.id →
    ∀ g ∈ d.grants, g.id = e.grant → g.revoked = false
  definition : ∃ (i : Nat) (count : Int), number receipt.payload "count" 0 1 16 = .ok count ∧
    i < count.toNat ∧ d.activeConfig (receipt.payload.get (row i "definition")) = some config
  retention : number config "retention_ms" 0 0 kDayMs = .ok retention
  session : receipt.payload.get "session" = request.get "session"

/-- A parent is the caller's, active and has no revoked source. -/
structure ParentOf (d : Database) (a : Artifact) (parent : Artifact) : Prop where
  found : d.findArtifact parent.id = some parent
  session : parent.session = a.session
  holder : parent.holder = a.holder
  «instance» : parent.instance = a.instance
  purpose : parent.purpose = a.purpose
  recipient : parent.recipient = a.recipient
  scope : parent.scope = a.scope
  expires : a.expires ≤ parent.expires
  level : parent.level ≤ a.level
  state : parent.state = .active
  sources : provenance d parent.id ≠ []
  unrevoked : ∀ g r, (g, r) ∈ provenance d parent.id → g.revoked = false

structure Derived (f : Frame) (d : Database) (a : Artifact) (parents : List String) : Prop where
  fresh : f.Fresh a.id
  receipt : a.receipt = "derived:" ++ a.id
  state : a.state = .active
  some : parents ≠ []
  parent : ∀ id ∈ parents, ∃ p, p.id = id ∧ ParentOf d a p
  distinct : parents.Nodup

/-! ### Steps -/

def Call.isPrompt : Call → Bool
  | .prompt _ _ _ => true
  | _ => false

/-- The transactions that write the definitions table. -/
def Call.projects : Call → Bool
  | .create => true
  | .replay _ _ _ => true
  | _ => false

/-- What a committed transaction may have done. -/
inductive Effect (f : Frame) (d : Database) : Call → Message → Database → Prop where
  | create {reply : Message} : Effect f d .create reply Database.fresh
  | incarnate {reply : Message} {incarnation : String} (fresh : f.Fresh incarnation) :
      Effect f d .incarnate reply { d with incarnation }
  | restrict {call : Call} {reply : Message} {d' : Database} (other : call.isPrompt = false)
      (narrows : d.Narrows d') : Effect f d call reply d'
  | project {definitions : Definitions} {revision : Int} {offline : Bool} {reply : Message}
      {ids : List String} {mid d' : Database} (steps : Projected definitions d ids mid)
      (marks : d' = { mid with revision := d'.revision, registryRevision := revision })
      (moved : d.revision < d'.revision ∨ ids = [] ∧ d'.revision = d.revision) :
      Effect f d (.replay definitions revision offline) reply d'
  | openSession {peer : Peer} {request reply : Message} {s : SessionRow} (fresh : f.Fresh s.id) :
      Effect f d (.session peer request) reply { d with sessions := d.sessions ++ [s] }.bump
  | store {peer : Peer} {request reply : Message} {r : RequestRow}
      (stored : Stored f peer request r) :
      Effect f d (.evaluate peer request true) reply { d with requests := d.requests ++ [r] }.bump
  | issue {peer : Peer} {request reply : Message} {a : Authorization} {grants : List String}
      (issued : Issued f d peer request a grants) :
      Effect f d (.evaluate peer request false) reply (Issued.after d a grants)
  | prompt {peer : Peer} {request reply : Message} {p : Display} {token : String}
      (prompted : Prompted f d request reply p token) :
      Effect f d (.prompt peer request false) reply
        (Prompted.after d f.platform peer request p token)
  | complete {peer : Peer} {request reply payload : Message} {p : Display} {state : RequestState}
      (displayed : Displayed d p) (selected : p.selected = true)
      (ends : state = .allowed ∨ state = .invalidated) (retains : Retains p payload) :
      Effect f d (.prompt peer request false) reply (Completed.after d p state payload)
  | answer {peer : Peer} {request reply payload : Message} {p : Display} {new : List Grant}
      {state : RequestState} (answered : Answered f d peer request p new state)
      (retains : Retains p payload) :
      Effect f d (.prompt peer request true) reply (Answered.after d p new state payload)
  | acquire {peer : Peer} {request reply config : Message} {incarnation : String} {a : Artifact}
      {receipt : Authorization} {retention : Int}
      (acquired : Acquired f d peer request a receipt retention config) :
      Effect f d (.data peer request incarnation) reply (insertOriginal d a).bump
  | derive {peer : Peer} {request reply : Message} {incarnation : String} {a : Artifact}
      {parents : List String} (derived : Derived f d a parents) :
      Effect f d (.data peer request incarnation) reply (insertDerived d a parents).bump
  | compact {first : Nat} {reply : Message} {d' : Database}
      (steps : Relation.ReflTransGen Reclaims d d') : Effect f d (.compact first) reply d'

/-! ### The rows of `meta` -/

theorem Projected.marks {definitions : Definitions} {d d' : Database} {ids : List String}
    (h : Projected definitions d ids d') :
    d'.revision = d.revision ∧ d'.registryRevision = d.registryRevision ∧
      d'.incarnation = d.incarnation := by
  induction h with
  | nil => exact ⟨rfl, rfl, rfl⟩
  | cons earlier once listed changed ih => exact ih

theorem foldl_useGrant_marks (receipt : String) (grants : List String) (d : Database) :
    (grants.foldl (useGrant receipt) d).revision = d.revision ∧
      (grants.foldl (useGrant receipt) d).registryRevision = d.registryRevision ∧
      (grants.foldl (useGrant receipt) d).incarnation = d.incarnation := by
  induction grants generalizing d with
  | nil => exact ⟨rfl, rfl, rfl⟩
  | cons grant rest ih => exact ih (useGrant receipt d grant)

theorem insertDerived_marks (d : Database) (a : Artifact) (parents : List String) :
    (insertDerived d a parents).revision = d.revision ∧
      (insertDerived d a parents).registryRevision = d.registryRevision ∧
      (insertDerived d a parents).incarnation = d.incarnation := by
  have loop : ∀ (ids : List String) (e : Database),
      (ids.foldl (inheritFrom a.id) e).revision = e.revision ∧
        (ids.foldl (inheritFrom a.id) e).registryRevision = e.registryRevision ∧
        (ids.foldl (inheritFrom a.id) e).incarnation = e.incarnation := by
    intro ids
    induction ids with
    | nil => exact fun _ => ⟨rfl, rfl, rfl⟩
    | cons id rest ih => exact fun e => ih (inheritFrom a.id e id)
  exact loop _ _

theorem Reclaims.marks {d d' : Database} (h : Reclaims d d') :
    d'.revision = d.revision ∧ d'.registryRevision = d.registryRevision ∧
      d'.incarnation = d.incarnation := by
  obtain ⟨id, type, _, rfl⟩ := h
  cases type <;> exact ⟨rfl, rfl, rfl⟩

theorem reclaims_marks {d d' : Database} (h : Relation.ReflTransGen Reclaims d d') :
    d'.revision = d.revision ∧ d'.registryRevision = d.registryRevision ∧
      d'.incarnation = d.incarnation := by
  induction h with
  | refl => exact ⟨rfl, rfl, rfl⟩
  | tail _ last ih =>
    obtain ⟨revision, registry, incarnation⟩ := last.marks
    exact ⟨revision.trans ih.1, registry.trans ih.2.1, incarnation.trans ih.2.2⟩

/-- A file keeps its incarnation. -/
theorem Effect.incarnation {f : Frame} {d d' : Database} {call : Call} {reply : Message}
    (h : Effect f d call reply d') (old : call ≠ .create) (named : call ≠ .incarnate) :
    d'.incarnation = d.incarnation := by
  cases h with
  | create => exact absurd rfl old
  | incarnate fresh => exact absurd rfl named
  | restrict other narrows => exact narrows.incarnation
  | project steps marks moved =>
    rw [marks]
    exact steps.marks.2.2
  | issue issued => exact (foldl_useGrant_marks _ _ _).2.2
  | derive derived => exact (insertDerived_marks _ _ _).2.2
  | compact steps => exact (reclaims_marks steps).2.2
  | _ => rfl

/-- Only `Replay` marks the revision of the registry. -/
theorem Effect.registryRevision {f : Frame} {d d' : Database} {call : Call} {reply : Message}
    (h : Effect f d call reply d') (other : call.projects = false) :
    d'.registryRevision = d.registryRevision := by
  cases h with
  | create => cases other
  | restrict other narrows => exact narrows.registryRevision
  | project steps marks moved => cases other
  | issue issued => exact (foldl_useGrant_marks _ _ _).2.1
  | derive derived => exact (insertDerived_marks _ _ _).2.1
  | compact steps => exact (reclaims_marks steps).2.1
  | _ => rfl

end Consent.Repository
