import Consent.Repository.Evaluate

/-!
The approval dialogue (`Prompt`): `get_prompt` shows the rows of a pending request and
stores the digest of a new token, `respond` spends that token.

Version 1 and 2 requests (`selected`) show the rows that are not covered yet and
remember them as private `_prompt_row` fields; other requests show every row. Version 2
requests (`choices`) let the user widen the period to `PERSISTENT`.
-/
namespace Consent.Repository
open Profile

variable {σ ε : Type} [Host σ ε]

/-- What both halves of the dialogue compute first. -/
structure Display where
  row : RequestRow
  pending : Message
  count : Nat
  selected : Bool
  choices : Bool
  current : Message
  rows : List Nat
  definitions : List Message
  typed : Bool
  persistent : Bool
  effective : String

def columnFields : List String :=
  ["request_id", "decision", "deadline", "prompt_token", "ui_owner", "ui_instance"]

/-- The UI declares that it understands the request's version. -/
def capable (request pending : Message) (choices respond : Bool) : Prop :=
  if choices && !respond then
    request.get "approval_supported_versions" = "1,2" ∧ request.get "approval_period_choice" = "1"
  else request.get "approval_version" = pending.get "approval_version"

instance (request pending : Message) (choices respond : Bool) :
    Decidable (capable request pending choices respond) := by
  unfold capable
  infer_instance

/-- The rows of a versioned request: those not covered when the prompt is made, and
those it remembered when it is answered. -/
def selectedRows (pending current : Message) (count : Nat) (respond : Bool) : List Nat :=
  (List.range count).filter fun i =>
    if respond then pending.get (promptRow i) == "1"
    else pending.get (row i "decision") != "ALLOWED" && current.get (row i "decision") != "ALLOWED"

/-- The current conditions and the displayed rows. -/
def displayRows (d : Database) (peer : Peer) (request pending : Message) (count : Nat)
    (respond : Bool) : Query σ ε (Message × List Nat) :=
  if Approval.versioned pending then do
    validateApproval pending
    require (capable request pending (pending.get "approval_version" == "2") respond)
      (if respond then .eacces else .einval) "selected approval requires matching UI capability"
    let (current, _) ← checkConditions d peer pending false
    pure (current, selectedRows pending current count respond)
  else pure (∅, List.range count)

/-- The definition of row `i`, unchanged since the request was made. -/
def promptDefinition (d : Database) (pending : Message) (i : Nat) : Query σ ε Message := do
  let config ← definition d (pending.get (row i "definition"))
  let current ← installed config
  require (current = true) .estale "installation changed"
  require (config.get "policy_version" = pending.get (row i "policy_version") ∧
      config.get "text_revision" = pending.get (row i "text_revision"))
    .estale "displayed policy or text changed"
  validateBoundArguments config pending i
  pure config

/-- `allowed.find("," + mode + ",") != npos` on a definition's mode list. -/
def permits (definition : Message) (mode : String) : Bool :=
  Approval.occurs ("," ++ mode ++ ",") ("," ++ definition.get "modes" ++ ",")

def display (d : Database) (peer : Peer) (request : Message) (respond : Bool) :
    Query σ ε Display := do
  require (role peer "ui") .eacces "approval UI role required"
  sqlOutcome
  let (r, pending) ← requestRow d peer request true
  activeContext pending
  require (r.state = .pending) .estale "request is already final"
  let deadline ← integer (toString r.deadline) 0 int64Max
  let time ← now
  require (time < deadline) .etimedout "request deadline expired"
  let _ ← sessionRow d peer pending true false
  let count ← requirementCount pending
  let selected := Approval.versioned pending
  let choices := pending.get "approval_version" == "2"
  require (request.contains "approval_version" = true →
      request.get "approval_version" = "1" ∨ request.get "approval_version" = "2")
    (if selected && respond then .eacces else .einval) "unsupported approval UI version"
  let (current, shown) ← displayRows d peer request pending count respond
  let definitions ← Act.collect (promptDefinition d pending) (List.range count)
  let persistent := choices && definitions.all fun config =>
    config.get "level" != "3" && permits config "PERSISTENT"
  pure { row := r, pending, count, selected, choices, current, definitions, persistent
         rows := if persistent && !respond then List.range count else shown
         typed := definitions.any fun config => config.get "template_version" == "1"
         effective := if persistent then pending.get "grant_mode" ++ ",PERSISTENT"
           else pending.get "grant_mode" }

/-! ### get_prompt -/

def shownKeys : List String :=
  ["definition", "scope", "operation", "purpose", "recipient", "holder", "policy_version",
    "text_revision"]

/-- Row `i` of the request as row `j` of the prompt. -/
def describeRow (p : Display) (locale : String) (reply : Message) (j i : Nat) :
    Except String Message := do
  let config := p.definitions.getD i ∅
  let copied := shownKeys.foldl (fun result name =>
    result.insert (row j name) (p.pending.get (row i name))) reply
  let featured := if p.selected then
      let indexed := copied.insert (row j "original_index") (toString i)
      let features := ["feature_id", "feature_revision"].foldl (fun result name =>
        result.insert (row j name) (p.pending.get (row i name))) indexed
      (features.insert (row j "provider_package") (config.get "package")).insert
        (row j "provider_app") (config.get "app")
    else copied
  let chosen ← Localization.selectLocale config locale
  let texts := [("locale", chosen), ("title", config.get ("message." ++ chosen ++ ".title")),
    ("body", config.get ("message." ++ chosen ++ ".body")), ("modes", config.get "modes"),
    ("level", config.get "level"), ("retention_ms", config.getD "retention_ms" "0")]
  let described := texts.foldl (fun result field => result.insert (row j field.1) field.2) featured
  let arguments ← Localization.appendArguments config p.pending i ∅
  -- An argument is keyed by the source row; the prompt keys it by its own.
  pure (arguments.toList.foldl (fun result field =>
    let name := String.ofList (field.1.toList.drop (row i "").toList.length)
    result.insert (row j name) field.2) described)

def describeRows (p : Display) (locale : String) (reply : Message) : Except String Message :=
  p.rows.zipIdx.foldlM (fun result entry => describeRow p locale result entry.2 entry.1) reply

/-- The size of a reply, with room for the envelope, the snapshot and the token. -/
def responseBytes (reply : Message) : Nat :=
  reply.toList.foldl (fun total field =>
    total + (10 + field.1.utf8ByteSize + field.2.utf8ByteSize)) 1024

def promptHeader (p : Display) (locale : String) : Message :=
  let typed := if p.typed then Message.of [("template_version", "1")] else ∅
  let located := if p.typed || p.selected then typed.insert "locale" locale else typed
  if p.selected then
    let context := (Approval.copyContext p.pending located).insert "total_count" (toString p.count)
    if p.choices then context.insert "effective_period_choices" p.effective else context
  else located

/-- The rest of the reply, checked against the frame budget. -/
def promptReply (p : Display) (locale : String) : Query σ ε Message := do
  let named := ["request_id", "subject", "profile", "session", "generation"].foldl
    (fun result name => result.insert name (p.pending.get name)) (promptHeader p locale)
  let reply ← checked .einval
    (describeRows p locale (named.insert "count" (toString p.rows.length)))
  require (reply.size ≤ 240 ∧ responseBytes reply ≤ kMaxFrameSize)
    .e2big "combined localized prompt exceeds frame budget"
  (List.range p.rows.length).foldlM (fun _ j => do
    let _ ← checked .e2big (Localization.formatPrompt reply j "title")
    let _ ← checked .e2big (Localization.formatPrompt reply j "body")
    pure ()) ()
  pure reply

def clearRows (payload : Message) (count : Nat) : Message :=
  payload.eraseAll ((List.range count).map promptRow)

/-- The decisions of a final evaluation, kept with the request. -/
def finalRows (payload decided : Message) (count : Nat) : Message :=
  clearRows ((List.range count).foldl (fun result i =>
    result.insert (row i "decision") (decided.get (row i "decision"))) payload) count

/-- The payload that remembers what was displayed. -/
def displayedPayload (p : Display) (locale : String) : Message :=
  let payload := p.pending.eraseAll columnFields
  let located := if p.typed || p.selected then payload.insert "_prompt_locale" locale else payload
  let chosen := if p.choices then located.insert "_prompt_period_choices" p.effective else located
  if p.selected then
    p.rows.foldl (fun result i => result.insert (promptRow i) "1") (clearRows chosen p.count)
  else chosen

/-- Nothing is left to display: the request ends without a prompt. -/
def finishPrompt (d : Database) (p : Display) : Outcome :=
  let allowed := p.current.get "decision" = "ALLOWED"
  let state := if allowed then RequestState.allowed else .invalidated
  let terminal : Message := if p.choices then
      p.pending.insert "chosen_grant_mode" (p.pending.get "grant_mode")
    else p.pending
  let payload := finalRows (terminal.eraseAll columnFields) p.current p.count
  let completed := Message.of
    [("decision", state.name), ("request_id", p.row.id), ("cacheable", "0")]
  { tables := (d.updateRequests (fun r => decide (r.id = p.row.id))
      fun r => { r with state, token := "", payload }).bump
    reply := if p.choices then
        ((Approval.copyContext p.pending completed).insert "chosen_grant_mode"
          (p.pending.get "grant_mode")).insert "effective_period_choices" p.effective
      else completed
    commit := .profile }

def getPrompt (d : Database) (peer : Peer) (request : Message) (p : Display) :
    Query σ ε Outcome := do
  let locale := request.get "locale"
  require (identifier locale) .einval "locale required"
  require (p.typed = true → request.get "template_version" = "1")
    .einval "typed prompt requires template version 1 capability"
  if p.selected ∧ p.rows = [] then
    pure (finishPrompt d p)
  else
    let reply ← promptReply p locale
    let token ← freshId
    let digest ← hash token
    let payload := displayedPayload p locale
    pure { tables := (d.updateRequests (fun r => decide (r.id = p.row.id)) fun r => { r with
             token := digest, uiOwner := peer.identity, uiInstance := peer.instance
             payload }).bump
           reply := Message.eraseAll (reply.insert "prompt_token" token) ["ui_owner", "ui_instance"]
           commit := .profile }

/-! ### respond -/

/-- The period the answer grants. -/
def responseMode (request : Message) (p : Display) : String :=
  if p.choices then request.get "chosen_grant_mode" else request.getD "grant_mode" "ONCE"

/-- The answer names the displayed prompt: its token, UI, locale and selection. -/
def matchPrompt (peer : Peer) (request : Message) (p : Display) : Query σ ε Unit := do
  let digest ← hash (request.get "prompt_token")
  require (request.get "prompt_token" ≠ "" ∧ digest = p.row.token ∧
      p.row.uiOwner = peer.identity ∧ p.row.uiInstance = peer.instance)
    .eacces "prompt token or UI instance mismatch"
  require ((p.typed || p.selected) = true → p.pending.get "_prompt_locale" ≠ "" ∧
      request.get "locale" = p.pending.get "_prompt_locale")
    .eacces "prompt response locale mismatch"
  require (p.selected = true → Approval.sameContext p.pending request = true)
    .eacces "displayed selection or approval period mismatch"
  require (request.get "decision" = "ALLOWED" ∨ request.get "decision" = "DENIED")
    .einval "invalid UI decision"
  if p.choices then
    require (request.get "effective_period_choices" = p.effective ∧
        p.effective = p.pending.get "_prompt_period_choices")
      .eacces "displayed period choices changed"
    require (responseMode request p = p.pending.get "grant_mode" ∨
        (p.persistent = true ∧ responseMode request p = "PERSISTENT"))
      .eacces "chosen period is not permitted"
  else
    require (request.contains "chosen_grant_mode" = false ∧
        request.contains "effective_period_choices" = false)
      .einval "period choice requires version 2"

/-- A displayed row that needs no new grant. -/
def covered (p : Display) (current : Message) (i : Nat) : Bool :=
  if p.choices then current.get (row i "decision") == "ALLOWED"
  else p.pending.get (row i "decision") == "ALLOWED" ||
    (p.selected && current.get (row i "decision") == "ALLOWED")

/-- One turn of the loop that inserts grants. -/
def insertGrant (request : Message) (p : Display) (current : Message) (mode : String)
    (approvalTime : Int) (state : Database × List String) (i : Nat) :
    Query σ ε (Database × List String) :=
  if covered p current i then pure state
  else do
    let config := p.definitions.getD i ∅
    require (permits config mode = true) .eacces "grant mode is not permitted by policy"
    let duration ← (if mode = "TIMED" then number request "duration_ms" 300000 100 3600000
      else pure 0)
    let id ← freshId
    let grant : Grant :=
      { id, key := grantKey p.pending i config, definition := config.get "definition"
        version := config.get "policy_version", subject := p.pending.get "subject"
        profile := p.pending.get "profile"
        session := if mode = "SESSION" then p.pending.get "session" else ""
        mode, expires := if mode = "TIMED" then approvalTime + duration else 0
        remaining := if mode = "ONCE" then 1 else -1, revoked := false }
    pure ({ state.1 with grants := state.1.grants ++ [grant] }, state.2 ++ [id])

def insertGrants (d : Database) (request : Message) (p : Display) (current : Message)
    (mode : String) : Query σ ε (Database × List String) := do
  require (mode = "ONCE" ∨ mode = "SESSION" ∨ mode = "TIMED" ∨ mode = "PERSISTENT")
    .einval "invalid grant mode"
  require (mode = "SESSION" → p.pending.get "session" ≠ "")
    .einval "SESSION grant requires active session"
  let approvalTime ← now
  p.rows.foldlM (insertGrant request p current mode approvalTime) (d, [])

/-- The whole AND is decided again after the grants were inserted. -/
def finalState (decision : String) (reevaluated : Message) : RequestState :=
  if decision = "ALLOWED" then
    if reevaluated.get "decision" = "ALLOWED" then .allowed else .invalidated
  else .denied

/-- The displayed rows of a denied request that were open are denied. -/
def denyRows (p : Display) (reevaluated : Message) : Message :=
  p.rows.foldl (fun result i =>
    if p.pending.get (row i "decision") = "ALLOWED" then result
    else result.insert (row i "decision") "DENIED") reevaluated

def changedReason : String := "authorization conditions changed while awaiting approval"

def answerPrompt (d : Database) (peer : Peer) (request : Message) (p : Display) :
    Query σ ε Outcome := do
  matchPrompt peer request p
  let mode := responseMode request p
  let evaluation := if p.choices then p.pending.insert "_approval_mode" mode else p.pending
  let (current, _) ←
    (if p.choices then checkConditions d peer evaluation false else pure (p.current, []))
  let (granted, ids) ←
    (if request.get "decision" = "ALLOWED" then insertGrants d request p current mode
    else pure (d, []))
  let (reevaluated, _) ← checkConditions granted peer evaluation false
  let state := finalState (request.get "decision") reevaluated
  let decided := if state = .denied then denyRows p reevaluated else reevaluated
  let chosen := if p.choices then p.pending.insert "chosen_grant_mode" mode else p.pending
  let payload := finalRows (Message.eraseAll chosen (columnFields ++ ["_prompt_locale"]))
    decided p.count
  let reply := if p.choices then
      (Approval.copyContext p.pending (decided.insert "chosen_grant_mode" mode)).insert
        "effective_period_choices" p.effective
    else decided
  let reasoned := fun message : Message =>
    if state = .invalidated then message.insert "reason" changedReason else message
  pure { tables := (granted.updateRequests
           (fun r => decide (r.id = p.row.id) && decide (r.state = .pending))
           fun r => { r with state, token := "", payload := reasoned payload }).bump
         reply := (((reasoned reply).insert "request_id" p.row.id).insert "decision"
           state.name).insert "cacheable" "0"
         commit := .profile, newGrants := ids, newRequest := p.row.id }

def prompt (d : Database) (peer : Peer) (request : Message) (respond : Bool) :
    Query σ ε Outcome := do
  let p ← display d peer request respond
  if respond then answerPrompt d peer request p else getPrompt d peer request p

def revoke (d : Database) (peer : Peer) (request : Message) : Query σ ε Outcome := do
  require (role peer "admin") .eacces "approval administration role required"
  checkContext peer request
  require (identifier (request.get "definition")) .einval "definition required"
  sqlOutcome
  let d := d.revokeGrants fun g => decide (g.definition = request.get "definition") &&
    decide (g.subject = request.get "subject") && decide (g.profile = request.get "profile")
  let d := d.invalidateReceipts fun a => d.receiptSource a.id fun g => g.revoked
  let d := d.blockArtifacts fun a => d.artifactSource a.id fun g => g.revoked
  pure { tables := d.bump, reply := ∅, commit := .plain }

/-! ### What is shown -/

/-- What a prompt adds to the keys of a row. -/
def addedKeys : List String :=
  ["original_index", "feature_id", "feature_revision", "provider_package", "provider_app", "locale",
    "title", "body", "modes", "level", "retention_ms", "template_version"]

/-- Row `i` of the request is shown as row `j`, and nothing but row `j` is written. -/
theorem describeRow_shown {p : Display} {locale : String} {reply shown : Message} {i j : Nat}
    (h : describeRow p locale reply j i = .ok shown) :
    (∀ name ∈ shownKeys, shown.get (row j name) = p.pending.get (row i name)) ∧
      ∀ key, (∀ name, row j name ≠ key) → shown.get key = reply.get key := by
  unfold describeRow at h
  obtain ⟨locale', _, h⟩ := Except.of_bind_ok h
  obtain ⟨fields, added, h⟩ := Except.of_bind_ok h
  obtain rfl := Except.ok.inj h
  have apart : ∀ name ∈ shownKeys, name ∉ addedKeys ∧ starts name "arg" = false := by decide
  constructor
  · intro name listed
    have other : ∀ key ∈ addedKeys, row j key ≠ row j name := by
      intro key member same
      rw [(row_inj.mp same).2] at member
      exact (apart name listed).1 member
    rw [Message.get_foldl_insert_of_ne, Message.get_foldl_insert_of_ne]
    · have copied := Message.get_foldl_insert_of_mem shownKeys (fun name => row j name)
        (fun name => p.pending.get (row i name)) reply listed
        fun other _ same => by rw [(row_inj.mp same).2]
      split
      · rw [Message.get_insert_of_ne _ _ (other _ (by decide)),
          Message.get_insert_of_ne _ _ (other _ (by decide)), Message.get_foldl_insert_of_ne,
          Message.get_insert_of_ne _ _ (other _ (by decide)), copied]
        simp only [List.mem_cons, List.not_mem_nil, or_false]
        rintro key (rfl | rfl) <;> exact other _ (by decide)
      · exact copied
    · simp only [List.mem_cons, List.not_mem_nil, or_false]
      rintro field (rfl | rfl | rfl | rfl | rfl | rfl) <;> exact other _ (by simp [addedKeys])
    · -- An argument is renamed from row `i` to row `j`.
      intro field member same
      have present : field.1 ∈ fields := by
        rw [← Std.ExtTreeMap.mem_keys, ← Std.ExtTreeMap.map_fst_toList_eq_keys]
        exact List.mem_map_of_mem member
      obtain ⟨name', key, reserved⟩ := Localization.mem_appendArguments added field.1 present
      have renamed : String.ofList (field.1.toList.drop (row i "").toList.length) = name' := by
        rw [key, row_toList, row_toList]
        simp
      rw [renamed] at same
      obtain rfl := (row_inj.mp same).2
      rcases reserved with rfl | reserved
      · exact other _ (by decide) same
      · rw [(apart _ listed).2] at reserved
        cases reserved
  · intro key foreign
    rw [Message.get_foldl_insert_of_ne _ _ _ _ fun _ _ => foreign _,
      Message.get_foldl_insert_of_ne _ _ _ _ fun _ _ => foreign _]
    split
    · rw [Message.get_insert_of_ne _ _ (foreign _), Message.get_insert_of_ne _ _ (foreign _),
        Message.get_foldl_insert_of_ne _ _ _ _ fun _ _ => foreign _,
        Message.get_insert_of_ne _ _ (foreign _),
        Message.get_foldl_insert_of_ne _ _ _ _ fun _ _ => foreign _]
    · rw [Message.get_foldl_insert_of_ne _ _ _ _ fun _ _ => foreign _]

/-- Every row of the display appears in the reply; other fields stay. -/
theorem describeRows_shown {p : Display} {locale : String} {reply shown : Message}
    (h : describeRows p locale reply = .ok shown) :
    (∀ i ∈ p.rows, ∃ j, ∀ name ∈ shownKeys, shown.get (row j name) = p.pending.get (row i name)) ∧
      ∀ key, '.' ∉ key.toList → shown.get key = reply.get key := by
  suffices general : ∀ (rows : List Nat) (start : Nat) (reply : Message),
      (rows.zipIdx start).foldlM (fun result entry => describeRow p locale result entry.2 entry.1)
        reply = .ok shown →
      (∀ key, (∀ k name, start ≤ k → row k name ≠ key) → shown.get key = reply.get key) ∧
      ∀ i ∈ rows, ∃ j, ∀ name ∈ shownKeys, shown.get (row j name) = p.pending.get (row i name) from
    ⟨(general p.rows 0 reply h).2, fun key dotless =>
      (general p.rows 0 reply h).1 key fun _ _ _ => row_ne dotless⟩
  intro rows
  induction rows with
  | nil =>
    intro start reply done
    cases done
    exact ⟨fun _ _ => rfl, by simp⟩
  | cons i rest ih =>
    intro start reply done
    rw [List.zipIdx_cons, List.foldlM_cons] at done
    obtain ⟨next, first, done⟩ := Except.of_bind_ok done
    obtain ⟨written, others⟩ := describeRow_shown first
    obtain ⟨kept, later⟩ := ih (start + 1) next done
    refine ⟨fun key foreign => ?_, fun k member => ?_⟩
    · rw [kept key fun k name above => foreign k name (by omega),
        others key fun name => foreign start name (le_refl _)]
    · rcases List.mem_cons.mp member with rfl | member
      · refine ⟨start, fun name listed => ?_⟩
        rw [kept _ fun k other above same => ?_, written name listed]
        have := (row_inj.mp same).1
        omega
      · exact later k member

/-! ### What a stored request keeps -/

theorem promptRow_ne {i : Nat} {key : String} (visible : starts key "_" = false) :
    promptRow i ≠ key := by
  rintro rfl
  simp [promptRow, starts] at visible

theorem get_clearRows {payload : Message} {count : Nat} {key : String}
    (visible : starts key "_" = false) : (clearRows payload count).get key = payload.get key := by
  refine Message.get_eraseAll_of_notMem _ fun member => ?_
  obtain ⟨i, _, same⟩ := List.mem_map.mp member
  exact promptRow_ne visible same

theorem get_finalRows {payload decided : Message} {count : Nat} {key : String}
    (visible : starts key "_" = false) (decides : ∀ i, row i "decision" ≠ key) :
    (finalRows payload decided count).get key = payload.get key := by
  rw [finalRows, get_clearRows visible]
  exact Message.get_foldl_insert_of_ne _ _ _ _ fun i _ => decides i

end Consent.Repository
