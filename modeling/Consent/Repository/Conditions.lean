import Consent.Approval
import Consent.Repository.Sessions

/-!
The decision whether the requirement rows of a message are covered by grants
(`GrantKey`, `CheckConditions`), whether an issued receipt still stands
(`ReceiptValid`) and whether an artifact may still be used
(`ValidateArtifactProvenance`).
-/
namespace Consent.Repository
open Profile

variable {σ ε : Type} [Host σ ε]

/-- `Definition`: the projected configuration of an active definition. -/
def definition (d : Database) (id : String) : Query σ ε Message :=
  match d.activeConfig id with
  | some config => pure config
  | none => fail .enoent "definition unavailable"

def validateBoundArguments (definition request : Message) (index : Nat) : Query σ ε Unit := do
  require (definition.get "template_version" = "1" →
      request.get (row index "policy_version") = definition.get "policy_version")
    .estale "typed definition requires an explicit matching policy version"
  checked .einval (Localization.validateArguments definition request index)

/-- The parts of a requirement row that enter the grant key beside the definition. -/
def keyFields : List String := ["scope", "operation", "purpose", "recipient", "holder"]

def grantKey (request : Message) (index : Nat) (definition : Message) : Message :=
  keyFields.foldl (fun fields name => fields.insert name (request.get (row index name)))
    (Message.of [("subject", request.get "subject"), ("profile", request.get "profile"),
      ("definition", definition.get "definition"),
      ("version", definition.get "policy_version")])

/-- The `WHERE` clause of the grant query; rows come latest first. -/
def candidates (d : Database) (key : Message) (session : String) (time : Int) : List Grant :=
  (d.grants.filter fun g =>
    decide (g.key = key) && !g.revoked && decide (g.expires = 0 ∨ time < g.expires) &&
      decide (g.remaining ≠ 0) && decide (g.mode ≠ "SESSION" ∨ g.session = session)).reverse

/-- The first row whose period covers the request; every row takes its own reading. -/
def firstCovering (request : Message) : List Grant → Query σ ε (Option Grant)
  | [] => pure none
  | g :: rest => do
    let time ← now
    if Approval.covers request g.mode g.expires time then pure (some g)
    else firstCovering request rest

/-- The locals of `CheckConditions`. -/
structure Conditions where
  result : Message
  unique : List Message
  grants : List String
  required : Bool
  denied : Bool
  cacheable : Bool

def Conditions.decision (c : Conditions) : String :=
  if c.denied then "DENIED" else if c.required then "CONSENT_REQUIRED" else "ALLOWED"

/-- One row with an active definition. -/
def checkRow (d : Database) (peer : Peer) (request : Message) (enforce : Bool) (c : Conditions)
    (i : Nat) (config : Message) : Query σ ε Conditions := do
  let current ← installed config
  require (current = true) .estale "installation generation changed"
  validateBoundArguments config request i
  require (request.get (row i "policy_version") ≠ "" →
      request.get (row i "policy_version") = config.get "policy_version")
    .estale "policy version mismatch"
  require (enforce = true ∨ request.get "method" = "check" →
      peer.identity = config.get "enforcer" ∨ member peer.enforcers (config.get "enforcer"))
    .eacces "enforcement owner mismatch"
  let key := grantKey request i config
  require (key ∉ c.unique) .einval "duplicate requirement"
  let time ← now
  let found ← firstCovering request (candidates d key (request.get "session") time)
  let versions := fun result : Message =>
    (result.insert (row i "policy_version") (config.get "policy_version")).insert
      (row i "text_revision") (config.get "text_revision")
  match found with
  | some g =>
    pure { c with
      result := versions (c.result.insert (row i "decision") "ALLOWED")
      unique := key :: c.unique
      grants := c.grants ++ [g.id]
      cacheable := c.cacheable && (g.mode == "PERSISTENT" || g.mode == "SESSION") &&
        config.get "level" != "3" }
  | none =>
    pure { c with
      result := versions (c.result.insert (row i "decision") "CONSENT_REQUIRED")
      unique := key :: c.unique, required := true, cacheable := false }

/-- One turn of the loop of `CheckConditions`. -/
def checkRequirement (d : Database) (peer : Peer) (request : Message) (enforce : Bool)
    (c : Conditions) (i : Nat) : Query σ ε Conditions := do
  require (∀ name ∈ ["definition", "operation", "purpose"],
      identifier (request.get (row i name)) = true)
    .einval "invalid requirement field"
  require ((request.get (row i "scope")).utf8ByteSize ≤ 4096) .einval "scope too large"
  match d.activeConfig (request.get (row i "definition")) with
  | none =>
    pure { c with result := c.result.insert (row i "decision") "DENIED", denied := true }
  | some config => checkRow d peer request enforce c i config

def requirementCount (request : Message) : Query σ ε Nat := do
  let count ← number request "count" 0 1 16
  pure count.toNat

/-- The session part of `CheckConditions`: the remaining life of a usable session. -/
def sessionTtl (d : Database) (peer : Peer) (request : Message) : Query σ ε Int := do
  let found ← sessionRow d peer request true false
  match found with
  | none => pure 500
  | some s =>
    [s.idleDeadline, s.absoluteDeadline, s.leaseDeadline].foldlM (fun ttl deadline => do
      let limit ← integer (toString deadline) 0 int64Max
      let time ← now
      pure (min ttl (limit - time))) 500

/-- The decision on all rows; `grants` are the covering grants in row order. -/
def checkConditions (d : Database) (peer : Peer) (request : Message) (enforce : Bool) :
    Query σ ε (Message × List String) := do
  let count ← requirementCount request
  require (1 ≤ count) .einval "requirements required"
  let start : Conditions :=
    { result := Message.of [("decision", "ALLOWED"), ("count", toString count)]
      unique := [], grants := [], required := false, denied := false, cacheable := true }
  let c ← (List.range count).foldlM (checkRequirement d peer request enforce) start
  let decided := c.result.insert "decision" c.decision
  let ttl ← (if request.get "session" = "" then pure 500 else sessionTtl d peer request)
  let bound := if request.get "session" = "" then decided
    else (decided.insert "session" (request.get "session")).insert "generation"
      (request.get "generation")
  let cacheable := !request.contains "approval_version" && c.cacheable && !enforce &&
    !c.required && !c.denied && decide (0 < ttl)
  pure ((bound.insert "cacheable" (if cacheable then "1" else "0")).insert "cache_ttl_ms"
    (toString (max ttl 0)), c.grants)

/-- Row `i` of a receipt still stands; `false` leaves the loop. -/
def receiptRow (d : Database) (payload : Message) (i : Nat) : Query σ ε Bool := do
  let config ← definition d (payload.get (row i "definition"))
  if payload.get (row i "policy_version") ≠ "" ∧
      payload.get (row i "policy_version") ≠ config.get "policy_version" then
    pure false
  else
    validateBoundArguments config payload i
    installed config

def receiptRows (d : Database) (payload : Message) : List Nat → Query σ ε Bool
  | [] => pure true
  | i :: rest => do
    let stands ← receiptRow d payload i
    if stands then receiptRows d payload rest else pure false

def receiptValid (d : Database) (receipt : String) : Query σ ε Bool :=
  match d.findAuthorization receipt with
  | none => pure false
  | some a =>
    if a.valid then do
      let state ← profiles
      if state.check (a.payload.get "subject") (a.payload.get "profile") ≠ none then pure false
      else
        let time ← now
        if d.receiptSource receipt (fun g =>
            g.revoked || decide (g.expires ≠ 0 ∧ g.expires ≤ time)) then
          pure false
        else
          let count ← requirementCount a.payload
          receiptRows d a.payload (List.range count)
    else pure false

/-- The join of `artifact_grants`, `grants` and `definitions` for one artifact. -/
def provenance (d : Database) (artifact : String) : List (Grant × DefinitionRow) :=
  d.artifactGrants.filterMap fun e =>
    if e.artifact = artifact then
      (d.findGrant e.grant).bind fun g => (d.findDefinition g.definition).map fun r => (g, r)
    else none

def checkSource (g : Grant) (r : DefinitionRow) : Query σ ε Unit := do
  require (g.revoked = false ∧ r.active = true ∧ g.version = r.config.get "policy_version")
    .estale "artifact provenance revoked or policy changed"
  require (g.key.get "definition" = r.config.get "definition" ∧ g.key.get "version" = g.version)
    .estale "artifact source binding changed"
  let bound := keyFields.foldl (fun fields name => fields.insert (row 0 name) (g.key.get name))
    (Message.of [(row 0 "policy_version", g.key.get "version")])
  validateBoundArguments r.config bound 0
  let current ← installed r.config
  require (current = true) .estale "artifact installation identity changed"

/-- The artifact belongs to the caller and the use the message names. -/
def ownedUse (peer : Peer) (request : Message) (a : Artifact) : Prop :=
  a.session = request.get "session" ∧ a.holder = peer.identity ∧ a.instance = peer.instance ∧
    a.purpose = request.get "purpose" ∧ a.recipient = request.get "recipient" ∧
    a.scope = request.get "scope"

instance (peer : Peer) (request : Message) (a : Artifact) :
    Decidable (ownedUse peer request a) :=
  inferInstanceAs (Decidable (_ ∧ _))

def validateArtifactProvenance (d : Database) (peer : Peer) (request : Message)
    (artifact : String) : Query σ ε Unit := do
  checkContext peer request
  let _ ← sessionRow d peer request true false
  match d.findArtifact artifact with
  | none => fail .enoent "artifact not found"
  | some a =>
    require (ownedUse peer request a) .eacces "artifact ownership or use mismatch"
    require (a.state = .active) .estale "artifact blocked or expired"
    let time ← now
    require (time < a.expires) .estale "artifact blocked or expired"
    let sources := provenance d artifact
    sources.foldlM (fun _ source => checkSource source.1 source.2) ()
    require (sources ≠ []) .estale "artifact provenance missing"

/-! ### What the checks return -/

section
open Act

variable {c : Context ε} {lo hi : Progress σ ε}

variable {d : Database} {request : Message} {peer : Peer} {enforce : Bool}

theorem mem_candidates {key : Message} {session : String} {time : Int} {g : Grant} :
    g ∈ candidates d key session time ↔
      g ∈ d.grants ∧ g.key = key ∧ g.revoked = false ∧ (g.expires = 0 ∨ time < g.expires) ∧
        g.remaining ≠ 0 ∧ (g.mode ≠ "SESSION" ∨ g.session = session) := by
  simp [candidates, and_assoc]

theorem firstCovering_returns {rows : List Grant} {g : Grant}
    (h : Returns c lo (firstCovering request rows) (some g) hi) : g ∈ rows := by
  induction rows with
  | nil => cases h.of_pure
  | cons first rest ih =>
    obtain ⟨time, _, h⟩ := h.bind
    rcases h.ite with ⟨_, h⟩ | ⟨_, h⟩
    · have same := Option.some.inj h.of_pure
      simp [same]
    · simp [ih h]

/-- Row `i` of the request is covered by the grant `id` at some reading of the clock. -/
def CoveredBy (f : Frame) (d : Database) (request : Message) (i : Nat) (id : String) : Prop :=
  ∃ config g time, d.activeConfig (request.get (row i "definition")) = some config ∧
    g ∈ d.grants ∧ g.id = id ∧ g.key = grantKey request i config ∧ g.revoked = false ∧
    g.remaining ≠ 0 ∧ (g.mode ≠ "SESSION" ∨ g.session = request.get "session") ∧ f.Read time ∧
    (g.expires = 0 ∨ time < g.expires)

/-- What one turn of the loop adds. -/
theorem checkRequirement_returns {before after : Conditions} {i : Nat}
    (h : Returns c lo (checkRequirement d peer request enforce before i) after hi) :
    (after.denied = true ∨ after.required = true) ∧ after.grants = before.grants ∧
      (∀ key ∈ before.unique, key ∈ after.unique) ∨
    ∃ key id, CoveredBy (frame c lo hi) d request i id ∧ key ∉ before.unique ∧
      (∃ g ∈ d.grants, g.id = id ∧ g.key = key ∧ g.revoked = false ∧ g.remaining ≠ 0) ∧
      after.grants = before.grants ++ [id] ∧
      after.unique = key :: before.unique ∧ after.denied = before.denied ∧
      after.required = before.required := by
  obtain ⟨_, h⟩ := h.guard
  obtain ⟨_, h⟩ := h.guard
  rcases found : d.activeConfig (request.get (row i "definition")) with _ | config
  · rw [found] at h
    obtain rfl := h.of_pure
    exact Or.inl ⟨Or.inl rfl, rfl, fun _ member => member⟩
  · rw [found] at h
    obtain ⟨_, _, h⟩ := h.bind
    obtain ⟨_, h⟩ := h.guard
    obtain ⟨_, h⟩ := h.skip
    obtain ⟨_, h⟩ := h.guard
    obtain ⟨_, h⟩ := h.guard
    obtain ⟨unseen, h⟩ := h.guard
    obtain ⟨time, reading, h⟩ := h.bind
    obtain ⟨covering, first, h⟩ := h.bind
    rcases covering with _ | g
    · obtain rfl := h.of_pure
      exact Or.inl ⟨Or.inr rfl, rfl, fun _ member => by simp [member]⟩
    · obtain rfl := h.of_pure
      obtain ⟨stored, key, live, unexpired, remaining, session⟩ :=
        mem_candidates.mp (firstCovering_returns first)
      exact Or.inr ⟨grantKey request i config, g.id,
        ⟨config, g, time, found, stored, rfl, key, live, remaining, session, now_returns reading,
          unexpired⟩, unseen, ⟨g, stored, rfl, key, live, remaining⟩, rfl, rfl, rfl, rfl⟩

/-- The loop invariant: unless a row is open, each row so far has its covering grant;
keys differ, so grants do. What is selected is neither revoked nor used up. -/
structure Conditions.Sound (f : Frame) (d : Database) (request : Message) (done : List Nat)
    (c : Conditions) : Prop where
  covered : c.denied = false → c.required = false →
    List.Forall₂ (CoveredBy f d request) done c.grants
  keyed : ∀ id ∈ c.grants, ∃ g ∈ d.grants, g.id = id ∧ g.key ∈ c.unique ∧ g.revoked = false ∧
    g.remaining ≠ 0
  distinct : (d.grants.map (·.id)).Nodup → c.grants.Nodup

theorem Frame.Read.mono {f f' : Frame} {time : Int} (h : f.Read time) (clock : f'.clock = f.clock)
    (start : f'.start.readings ≤ f.start.readings)
    (finish : f.finish.readings ≤ f'.finish.readings) : f'.Read time := by
  obtain ⟨n, above, below, same⟩ := h
  exact ⟨n, le_trans start above, lt_of_lt_of_le below finish, by rw [same, clock]⟩

theorem CoveredBy.mono {f f' : Frame} {i : Nat} {id : String} (h : CoveredBy f d request i id)
    (clock : f'.clock = f.clock) (start : f'.start.readings ≤ f.start.readings)
    (finish : f.finish.readings ≤ f'.finish.readings) : CoveredBy f' d request i id := by
  obtain ⟨config, g, time, active, stored, name, key, live, remaining, session, read, rest⟩ := h
  exact ⟨config, g, time, active, stored, name, key, live, remaining, session,
    read.mono clock start finish, rest⟩

theorem Conditions.decision_eq_allowed {state : Conditions} :
    state.decision = "ALLOWED" ↔ state.denied = false ∧ state.required = false := by
  unfold Conditions.decision
  cases state.denied <;> cases state.required <;> simp

theorem checkRequirement_sound {before after : Conditions} {i : Nat} {done : List Nat}
    {low high : Progress σ ε} (start : lo ≤ low) (finish : high ≤ hi)
    (sound : before.Sound (frame c lo hi) d request done)
    (h : Returns c low (checkRequirement d peer request enforce before i) after high) :
    after.Sound (frame c lo hi) d request (done ++ [i]) := by
  rcases checkRequirement_returns h with ⟨unmet, same, seen⟩ |
    ⟨key, id, row, unseen, ⟨g, stored, name, keyed, usable⟩, grants, unique, denied, required⟩
  · refine ⟨fun notDenied notRequired => ?_, fun id member => ?_, fun ids => ?_⟩
    · rcases unmet with h | h
      · rw [h] at notDenied
        cases notDenied
      · rw [h] at notRequired
        cases notRequired
    · rw [same] at member
      obtain ⟨g, stored, name, key, usable⟩ := sound.keyed id member
      exact ⟨g, stored, name, seen g.key key, usable⟩
    · rw [same]
      exact sound.distinct ids
  · have widened : CoveredBy (frame c lo hi) d request i id :=
      row.mono rfl start.readings finish.readings
    refine ⟨fun notDenied notRequired => ?_, fun other member => ?_, fun ids => ?_⟩
    · rw [grants]
      exact List.rel_append (sound.covered (denied ▸ notDenied) (required ▸ notRequired))
        (.cons widened .nil)
    · rw [grants, List.mem_append, List.mem_singleton] at member
      rw [unique]
      rcases member with earlier | rfl
      · obtain ⟨g', stored', name', key', usable'⟩ := sound.keyed other earlier
        exact ⟨g', stored', name', by simp [key'], usable'⟩
      · exact ⟨g, stored, name, by simp [keyed], usable⟩
    · rw [grants, List.nodup_append]
      refine ⟨sound.distinct ids, by simp, fun other earlier same => ?_⟩
      rintro member rfl
      obtain ⟨g', stored', name', key', _⟩ := sound.keyed other earlier
      have equal := Table.eq_of_key ids stored' stored
        (name'.trans ((List.mem_singleton.mp member).trans name.symm))
      rw [equal, keyed] at key'
      exact unseen key'

/-- `Number(request, "count", 0, 1, 16)`. -/
theorem requirementCount_returns {count : Nat}
    (h : Returns c lo (requirementCount request) count hi) :
    ∃ value, number request "count" 0 1 16 = .ok value ∧ count = value.toNat := by
  obtain ⟨value, read, h⟩ := h.bind
  exact ⟨value, read.of_lift, h.of_pure.symm⟩

/-- The loop of `CheckConditions` is sound when it ends. -/
theorem checkRequirements_sound {rows : List Nat} {start final : Conditions}
    (none : start.grants = [])
    (h : Returns c lo (rows.foldlM (checkRequirement d peer request enforce) start) final hi) :
    final.Sound (frame c lo hi) d request rows := by
  refine h.foldlM (fun done state _ => state.Sound (frame c lo hi) d request done) ?_
    (fun done item before after low high _ above below inv turn =>
      checkRequirement_sound above below inv turn)
    (fun _ _ _ _ _ inv => inv)
  exact ⟨fun _ _ => by rw [none]; exact .nil, by simp [none], by simp [none]⟩

/-- What is selected is stored, unrevoked, not used up and serves one row. -/
theorem checkConditions_selected {request reply : Message} {grants : List String}
    (h : Returns c lo (checkConditions d peer request enforce) (reply, grants) hi) :
    (∀ id ∈ grants, ∃ g ∈ d.grants, g.id = id ∧ g.revoked = false ∧ g.remaining ≠ 0) ∧
      ((d.grants.map (·.id)).Nodup → grants.Nodup) := by
  obtain ⟨count, _, h⟩ := h.bind
  obtain ⟨_, h⟩ := h.guard
  obtain ⟨final, loop, h⟩ := h.bind
  obtain ⟨_, _, h⟩ := h.bind
  obtain ⟨_, rfl⟩ := Prod.mk.inj h.of_pure
  have sound := checkRequirements_sound rfl loop
  refine ⟨fun id member => ?_, sound.distinct⟩
  obtain ⟨g, stored, name, _, usable⟩ := sound.keyed id member
  exact ⟨g, stored, name, usable⟩

/-- A decision is about at least one row. -/
theorem checkConditions_counted {request reply : Message} {grants : List String}
    (h : Returns c lo (checkConditions d peer request enforce) (reply, grants) hi) :
    ∃ count, integer (request.get "count") 1 16 = .ok count := by
  obtain ⟨count, counted, h⟩ := h.bind
  obtain ⟨value, read, rfl⟩ := requirementCount_returns counted
  obtain ⟨some, h⟩ := h.guard
  exact ⟨value, integer_of_number read (by omega)⟩

/-- When every row is covered, `grants` lists one covering grant per row. -/
theorem checkConditions_returns {request reply : Message} {grants : List String}
    (h : Returns c lo (checkConditions d peer request enforce) (reply, grants) hi)
    (allowed : reply.get "decision" = "ALLOWED") :
    ∃ value, number request "count" 0 1 16 = .ok value ∧ 1 ≤ value.toNat ∧
      List.Forall₂ (CoveredBy (frame c lo hi) d request) (List.range value.toNat) grants := by
  obtain ⟨count, counted, h⟩ := h.bind
  obtain ⟨value, read, rfl⟩ := requirementCount_returns counted
  obtain ⟨some, h⟩ := h.guard
  obtain ⟨final, loop, h⟩ := h.bind
  obtain ⟨ttl, _, h⟩ := h.bind
  obtain ⟨reply_eq, rfl⟩ := Prod.mk.inj h.of_pure
  have sound := checkRequirements_sound rfl loop
  rw [← reply_eq] at allowed
  have decision : final.decision = "ALLOWED" := by
    by_cases session : request.get "session" = "" <;>
      simpa [session, Message.get_insert] using allowed
  obtain ⟨notDenied, notRequired⟩ := Conditions.decision_eq_allowed.mp decision
  exact ⟨value, read, some, sound.covered notDenied notRequired⟩

/-- A receipt that stands is valid, belongs to a usable profile and has no source that
is revoked or expired. -/
theorem receiptValid_returns {receipt : String} (h : Returns c lo (receiptValid d receipt) true hi) :
    ∃ a time, d.findAuthorization receipt = some a ∧ a.valid = true ∧
      (frame c lo hi).Read time ∧
      ∀ e ∈ d.authorizationGrants, e.receipt = receipt → ∀ g ∈ d.grants, g.id = e.grant →
        g.revoked = false ∧ (g.expires = 0 ∨ time < g.expires) := by
  unfold receiptValid at h
  rcases found : d.findAuthorization receipt with _ | a
  · rw [found] at h
    cases h.of_pure
  · rw [found] at h
    rcases h.ite with ⟨valid, h⟩ | ⟨_, h⟩
    · obtain ⟨state, _, h⟩ := h.bind
      rcases h.ite with ⟨_, h⟩ | ⟨_, h⟩
      · cases h.of_pure
      · obtain ⟨time, reading, h⟩ := h.bind
        rcases h.ite with ⟨_, h⟩ | ⟨clean, h⟩
        · cases h.of_pure
        · refine ⟨a, time, rfl, valid, now_returns reading, ?_⟩
          intro e edge receiptEq g stored name
          by_contra stale
          apply clean
          simp only [Database.receiptSource, List.any_eq_true, Bool.and_eq_true, decide_eq_true_eq,
            Bool.or_eq_true]
          refine ⟨e, edge, receiptEq, g, stored, name, ?_⟩
          rcases revoked : g.revoked with _ | _
          · right
            simpa [revoked, not_or] using stale
          · exact Or.inl rfl
    · cases h.of_pure

theorem mem_provenance {artifact : String} {g : Grant} {r : DefinitionRow} :
    (g, r) ∈ provenance d artifact ↔
      ∃ e ∈ d.artifactGrants, e.artifact = artifact ∧ d.findGrant e.grant = some g ∧
        d.findDefinition g.definition = some r := by
  simp only [provenance, List.mem_filterMap]
  refine exists_congr fun e => and_congr_right fun _ => ?_
  by_cases same : e.artifact = artifact
  · rcases found : d.findGrant e.grant with _ | g'
    · simp [same]
    · rcases row : d.findDefinition g'.definition with _ | r'
      · simp only [same, ↓reduceIte, Option.bind_some, row, Option.map_none, true_and,
          Option.some.injEq]
        constructor
        · intro impossible
          cases impossible
        · rintro ⟨rfl, present⟩
          rw [row] at present
          cases present
      · simp only [same, ↓reduceIte, Option.bind_some, row, Option.map_some, true_and,
          Option.some.injEq, Prod.mk.injEq]
        constructor
        · rintro ⟨rfl, rfl⟩
          exact ⟨rfl, row⟩
        · rintro ⟨rfl, present⟩
          rw [row] at present
          exact ⟨rfl, Option.some.inj present⟩
  · simp [same]

theorem checkSource_returns {g : Grant} {r : DefinitionRow} {u : Unit}
    (h : Returns c lo (checkSource g r) u hi) :
    g.revoked = false ∧ r.active = true ∧ g.version = r.config.get "policy_version" :=
  h.guard.1

/-- An artifact that may be used is the caller's, active, unexpired and has sources, none
of which is revoked. -/
theorem validateArtifactProvenance_returns {artifact : String} {u : Unit}
    (h : Returns c lo (validateArtifactProvenance d peer request artifact) u hi) :
    ∃ a time, d.findArtifact artifact = some a ∧ ownedUse peer request a ∧ a.state = .active ∧
      (frame c lo hi).Read time ∧ time < a.expires ∧ provenance d artifact ≠ [] ∧
      ∀ g r, (g, r) ∈ provenance d artifact → g.revoked = false ∧ r.active = true ∧
        g.version = r.config.get "policy_version" := by
  obtain ⟨_, h⟩ := h.skip
  obtain ⟨_, _, h⟩ := h.bind
  rcases found : d.findArtifact artifact with _ | a
  · rw [found] at h
    exact absurd h not_returns_fail
  · rw [found] at h
    obtain ⟨owned, h⟩ := h.guard
    obtain ⟨active, h⟩ := h.guard
    obtain ⟨time, reading, h⟩ := h.bind
    obtain ⟨unexpired, h⟩ := h.guard
    obtain ⟨loop, h⟩ := h.skip
    refine ⟨a, time, rfl, owned, active, now_returns reading, unexpired, h.of_require, ?_⟩
    have each := loop.foldlM (fun (done : List (Grant × DefinitionRow)) _ _ =>
        ∀ source ∈ done, source.1.revoked = false ∧ source.2.active = true ∧
          source.1.version = source.2.config.get "policy_version")
      (by simp)
      (fun done item _ _ _ _ _ _ _ inv turn source member => by
        rcases List.mem_append.mp member with earlier | last
        · exact inv source earlier
        · rw [List.mem_singleton.mp last]
          exact checkSource_returns turn)
      (fun _ _ _ _ _ inv => inv)
    exact fun g r member => each (g, r) member

end

end Consent.Repository
