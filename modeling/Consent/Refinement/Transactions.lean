import Consent.Refinement.Dialogue

/-!
Refinement of the data operations and of the transactions the daemon runs on its own,
and the refinement of all transactions (`work_effect`).
-/
namespace Consent.Repository
open Profile
open Act (Returns)

variable {σ ε : Type} [Host σ ε] {c : Context ε} {lo hi : Progress σ ε}

/-! ### Data -/

variable {d : Database} {outcome : Outcome} {peer : Peer} {request : Message} {incarnation : String}
  {definitions : Definitions}

theorem findAuthorization_mem {id : String} {a : Authorization}
    (h : d.findAuthorization id = some a) : a ∈ d.authorizations ∧ a.id = id :=
  ⟨List.mem_of_find?_eq_some h, by simpa using List.find?_some h⟩

theorem findArtifact_mem {id : String} {a : Artifact} (h : d.findArtifact id = some a) :
    a ∈ d.artifacts ∧ a.id = id :=
  ⟨List.mem_of_find?_eq_some h, by simpa using List.find?_some h⟩

theorem cleanupList_tables (h : Returns c lo (cleanupList d peer request incarnation) outcome hi) :
    outcome.tables = d := by
  obtain ⟨_, h⟩ := h.skip
  obtain ⟨_, h⟩ := h.guard
  obtain ⟨_, _, h⟩ := h.bind
  obtain rfl := h.of_pure
  rfl

theorem releaseData_narrows (h : Returns c lo (releaseData d peer request) outcome hi) :
    d.Narrows outcome.tables := by
  dsimp only [releaseData] at h
  split at h
  · exact absurd h not_returns_fail
  · obtain ⟨_, h⟩ := h.guard
    obtain ⟨_, h⟩ := h.skip
    obtain ⟨_, h⟩ := h.guard
    obtain ⟨time, _, h⟩ := h.bind
    obtain rfl := h.of_pure
    refine Database.Restricts.bump (Database.Restricts.trans ?_ (Database.finishCleanup_restricts _))
    exact { Database.Restricts.refl d with
      artifacts := Table.forall₂_updateWhere Artifact.Loses.refl fun a _ _ =>
        ⟨rfl, fun active => by dsimp only at active; split at active <;> cases active⟩ }

theorem insertData_effect {receipt : Authorization}
    (found : d.findAuthorization (request.get "receipt") = some receipt)
    (valid : receipt.valid = true)
    (unrevoked : ∀ e ∈ d.authorizationGrants, e.receipt = receipt.id →
      ∀ g ∈ d.grants, g.id = e.grant → g.revoked = false)
    (session : receipt.payload.get "session" = request.get "session")
    (h : Returns c lo (insertData d peer request receipt) outcome hi) :
    Effect (frame c lo hi) d (.data peer request incarnation) outcome.reply outcome.tables := by
  obtain ⟨index, indexed, h⟩ := h.bind
  have natural : 0 ≤ index := by
    rcases number_bounds indexed.of_lift with zero | bounds <;> omega
  obtain ⟨count, counted, h⟩ := h.bind
  obtain ⟨value, number, rfl⟩ := requirementCount_returns counted
  obtain ⟨inside, h⟩ := h.guard
  obtain ⟨_, h⟩ := h.guard
  obtain ⟨_, h⟩ := h.guard
  obtain ⟨config, named, h⟩ := h.bind
  obtain ⟨retention, read, h⟩ := h.bind
  obtain ⟨_, h⟩ := h.guard
  obtain ⟨_, _, h⟩ := h.bind
  obtain ⟨_, h⟩ := h.guard
  obtain ⟨_, h⟩ := h.guard
  obtain ⟨id, issued, h⟩ := h.bind
  obtain ⟨level, _, h⟩ := h.bind
  obtain rfl := h.of_pure
  have acquired : Acquired (frame c lo hi) d peer request
      (newArtifact peer request id receipt.id (receipt.created + retention) level) receipt retention
      config :=
    ⟨freshId_returns issued, ⟨level, rfl⟩, found, valid, unrevoked,
      ⟨index.toNat, value, number, by omega, definition_returns named⟩, read.of_lift, session⟩
  exact .acquire acquired

theorem registerData_effect (h : Returns c lo (registerData d peer request) outcome hi) :
    Effect (frame c lo hi) d (.data peer request incarnation) outcome.reply outcome.tables := by
  obtain ⟨stands, valid, h⟩ := h.bind
  obtain ⟨holds, h⟩ := h.guard
  rw [holds] at valid
  obtain ⟨a, time, found, live, _, sources⟩ := receiptValid_returns valid
  rw [found] at h
  obtain ⟨context, h⟩ := h.guard
  split at h
  · obtain ⟨_, h⟩ := h.guard
    obtain ⟨_, h⟩ := h.guard
    obtain ⟨_, h⟩ := h.guard
    obtain ⟨_, _, h⟩ := h.bind
    obtain ⟨_, h⟩ := h.guard
    obtain rfl := h.of_pure
    exact .restrict rfl (Database.Narrows.refl d)
  · refine insertData_effect found live (fun e edge same g member name => ?_)
      (context "session" (by simp)) h
    rw [(findAuthorization_mem found).2] at same
    exact (sources e edge same g member name).1

/-- The loop invariant of the parents. -/
structure Parents.Sound (d : Database) (peer : Peer) (request : Message) (done : List Nat)
    (parents : Parents) : Prop where
  count : parents.ids.length = done.length
  distinct : parents.ids.Nodup
  parent : ∀ id ∈ parents.ids, ∃ p, d.findArtifact id = some p ∧ ownedUse peer request p ∧
    parents.expires ≤ p.expires ∧ p.level ≤ parents.level ∧ p.state = .active ∧
    provenance d id ≠ [] ∧ ∀ g r, (g, r) ∈ provenance d id → g.revoked = false

theorem checkParent_sound {done : List Nat} {before after : Parents} {i : Nat}
    (sound : before.Sound d peer request done)
    (h : Returns c lo (checkParent d peer request before i) after hi) :
    after.Sound d peer request (done ++ [i]) := by
  obtain ⟨unseen, h⟩ := h.guard
  rcases found : d.findArtifact (request.get ("parent" ++ toString i)) with _ | a
  · rw [found] at h
    exact absurd h not_returns_fail
  rw [found] at h
  obtain ⟨owned, h⟩ := h.guard
  obtain ⟨active, h⟩ := h.guard
  obtain ⟨_, _, h⟩ := h.bind
  obtain ⟨_, h⟩ := h.guard
  obtain ⟨valid, h⟩ := h.skip
  obtain rfl := h.of_pure
  obtain ⟨_, _, _, _, _, _, _, sources, unrevoked⟩ := validateArtifactProvenance_returns valid
  refine ⟨by simp [sound.count], ?_, ?_⟩
  · rw [List.nodup_append]
    refine ⟨sound.distinct, by simp, ?_⟩
    rintro id earlier id' last rfl
    rw [List.mem_singleton.mp last] at earlier
    exact unseen earlier
  · intro id member
    rcases List.mem_append.mp member with earlier | last
    · obtain ⟨p, row, use, expires, level, rest⟩ := sound.parent id earlier
      exact ⟨p, row, use, le_trans (min_le_left _ _) expires, le_trans level (le_max_left _ _),
        rest⟩
    · rw [List.mem_singleton.mp last]
      exact ⟨a, found, owned, min_le_right _ _, le_max_right _ _, active, sources,
        fun g r inside => (unrevoked g r inside).1⟩

theorem deriveData_effect (h : Returns c lo (deriveData d peer request) outcome hi) :
    Effect (frame c lo hi) d (.data peer request incarnation) outcome.reply outcome.tables := by
  obtain ⟨count, _, h⟩ := h.bind
  obtain ⟨some, h⟩ := h.guard
  obtain ⟨parents, loop, h⟩ := h.bind
  obtain ⟨_, h⟩ := h.guard
  obtain ⟨id, issued, h⟩ := h.bind
  obtain rfl := h.of_pure
  have sound := loop.foldlM (fun (done : List Nat) state _ => state.Sound d peer request done)
    ⟨rfl, by simp, by simp⟩
    (fun _ _ _ _ _ _ _ _ _ inv turn => checkParent_sound inv turn)
    (fun _ _ _ _ _ inv => inv)
  suffices derived : Derived (frame c lo hi) d
      (newArtifact peer request id ("derived:" ++ id) parents.expires parents.level) parents.ids from
    .derive derived
  refine ⟨freshId_returns issued, rfl, rfl, ?_, ?_, sound.distinct⟩
  · intro empty
    have counted := sound.count
    rw [empty, List.length_nil, List.length_range] at counted
    omega
  · intro parent member
    obtain ⟨p, found, owned, expires, level, active, sources, unrevoked⟩ :=
      sound.parent parent member
    obtain ⟨session, holder, «instance», purpose, recipient, scope⟩ := owned
    obtain rfl := (findArtifact_mem found).2
    exact ⟨p, rfl, found, session, holder, «instance», purpose, recipient, scope, expires, level,
      active, sources, unrevoked⟩

theorem data_effect (h : Returns c lo (data d peer request incarnation) outcome hi) :
    Effect (frame c lo hi) d (.data peer request incarnation) outcome.reply outcome.tables := by
  obtain ⟨_, h⟩ := h.guard
  obtain ⟨_, h⟩ := h.skip
  obtain ⟨_, h⟩ := h.skip
  rcases h.ite with ⟨_, h⟩ | ⟨_, h⟩
  · rw [cleanupList_tables h]
    exact .restrict rfl (Database.Narrows.refl d)
  rcases h.ite with ⟨_, h⟩ | ⟨_, h⟩
  · exact .restrict rfl (releaseData_narrows h)
  obtain ⟨_, h⟩ := h.guard
  obtain ⟨_, h⟩ := h.skip
  obtain ⟨_, h⟩ := h.skip
  obtain ⟨_, h⟩ := h.guard
  obtain ⟨_, h⟩ := h.guard
  obtain ⟨_, _, h⟩ := h.bind
  rcases h.ite with ⟨_, h⟩ | ⟨_, h⟩
  · exact registerData_effect h
  rcases h.ite with ⟨_, h⟩ | ⟨_, h⟩
  · exact deriveData_effect h
  rcases h.ite with ⟨_, h⟩ | ⟨_, h⟩
  · obtain ⟨_, h⟩ := h.skip
    obtain rfl := h.of_pure
    exact .restrict rfl (Database.Narrows.refl d)
  · exact absurd h not_returns_fail

/-- A method that uses data names a usable session and does its own work. -/
theorem data_uses (h : Returns c lo (data d peer request incarnation) outcome hi)
    (uses : request.get "method" ∈ ["data_register", "data_register_derived", "data_check"]) :
    request.get "session" ≠ "" ∧
      (∃ s, Returns c lo (sessionRow d peer request true false) s hi) ∧
      Returns c lo (if request.get "method" = "data_register" then registerData d peer request
        else if request.get "method" = "data_register_derived" then deriveData d peer request
        else do
          validateArtifactProvenance d peer request (request.get "artifact")
          pure { tables := d, commit := .profile, reply := Message.of [("decision", "ALLOWED")] })
        outcome hi := by
  obtain ⟨_, h⟩ := h.guard
  obtain ⟨_, h⟩ := h.skip
  obtain ⟨_, h⟩ := h.skip
  rcases h.ite with ⟨other, _⟩ | ⟨_, h⟩
  · rw [other] at uses
    simp at uses
  rcases h.ite with ⟨other, _⟩ | ⟨_, h⟩
  · rcases other with other | other <;> rw [other] at uses <;> simp at uses
  obtain ⟨_, h⟩ := h.guard
  obtain ⟨_, h⟩ := h.skip
  obtain ⟨_, h⟩ := h.skip
  obtain ⟨_, h⟩ := h.guard
  obtain ⟨named, h⟩ := h.guard
  obtain ⟨s, row, h⟩ := h.bind
  refine ⟨named, ⟨s, row⟩, ?_⟩
  simp only [List.mem_cons, List.not_mem_nil, or_false] at uses
  rcases uses with register | derive | check
  · simpa [register] using h
  · simpa [derive] using h
  · simpa [check] using h

/-- Every parent that a derivation names may be used. -/
theorem deriveData_parents (h : Returns c lo (deriveData d peer request) outcome hi) :
    ∃ count, number request "count" 0 1 16 = .ok count ∧ ∀ i < count.toNat,
      Returns c lo (validateArtifactProvenance d peer request
        (request.get ("parent" ++ toString i))) () hi := by
  obtain ⟨count, counted, h⟩ := h.bind
  obtain ⟨value, read, rfl⟩ := requirementCount_returns counted
  obtain ⟨_, h⟩ := h.guard
  obtain ⟨parents, loop, _⟩ := h.bind
  have every := loop.foldlM (fun (done : List Nat) (_ : Parents) _ => ∀ i ∈ done,
      Returns c lo (validateArtifactProvenance d peer request
        (request.get ("parent" ++ toString i))) () hi)
    (by simp)
    (fun done item before after low high _ above below earlier turn i member => by
      rcases List.mem_append.mp member with old | last
      · exact earlier i old
      · rw [List.mem_singleton.mp last]
        obtain ⟨_, turn⟩ := turn.guard
        split at turn
        · exact absurd turn not_returns_fail
        · obtain ⟨_, turn⟩ := turn.guard
          obtain ⟨_, turn⟩ := turn.guard
          obtain ⟨_, _, turn⟩ := turn.bind
          obtain ⟨_, turn⟩ := turn.guard
          obtain ⟨valid, _⟩ := turn.skip
          exact valid.mono above below)
    (fun _ _ _ _ _ holds => holds)
  exact ⟨value, read, fun i below => every i (List.mem_range.mpr below)⟩

/-! ### Registry -/

theorem replayDefinition_projects {offline : Bool} {before after : Database × Bool}
    {item : String × Message} {ids : List String} (earlier : Projected definitions d ids before.1)
    (once : item.1 ∉ ids) (listed : definitions[item.1]? = some item.2)
    (h : Returns c lo (replayDefinition offline before item) after hi) :
    after = before ∨ Projected definitions d (item.1 :: ids) after.1 ∧ after.2 = true := by
  obtain ⟨active, _, h⟩ := h.bind
  rcases h.ite with ⟨_, h⟩ | ⟨changed, h⟩
  · exact Or.inl h.of_pure.symm
  · obtain ⟨invalidated, retired, h⟩ := h.bind
    obtain ⟨_, retired⟩ := retired.skip
    obtain rfl := retired.of_pure
    obtain rfl := h.of_pure
    exact Or.inr ⟨.cons earlier once listed changed, rfl⟩

/-- A registry lists a definition once. -/
theorem definitions_once {done : List (String × Message)} {item : String × Message}
    (inside : done ++ [item] <+: definitions.toList) :
    item.1 ∉ done.map Prod.fst := by
  intro member
  obtain ⟨other, earlier, same⟩ := List.mem_map.mp member
  have distinct := (Std.ExtTreeMap.distinct_keys_toList (t := definitions)).sublist inside.sublist
  rw [List.pairwise_append] at distinct
  exact distinct.2.2 other earlier item (by simp) (by simp [same])

theorem replay_projects {revision : Int} {offline : Bool}
    (h : Returns c lo (replay definitions revision offline d) outcome hi) :
    ∃ ids mid, Projected definitions d ids mid ∧
      outcome.tables = { mid with
        revision := outcome.tables.revision, registryRevision := revision } ∧
      (d.revision < outcome.tables.revision ∨ ids = [] ∧ outcome.tables.revision = d.revision) := by
  obtain ⟨_, h⟩ := h.skip
  obtain ⟨⟨projected, changed⟩, loop, h⟩ := h.bind
  obtain rfl := h.of_pure
  have steps := loop.foldlM (fun (done : List (String × Message)) (state : Database × Bool) _ =>
      ∃ ids, (∀ id ∈ ids, id ∈ done.map Prod.fst) ∧ Projected definitions d ids state.1 ∧
        (state.2 = true ∨ ids = []))
    ⟨[], by simp, .nil, Or.inr rfl⟩
    (fun done item _ _ _ _ inside _ _ inv turn => by
      obtain ⟨ids, visited, earlier, flag⟩ := inv
      have once : item.1 ∉ ids := fun member => definitions_once inside (visited _ member)
      have listed := Std.ExtTreeMap.mem_toList_iff_getElem?_eq_some.mp
        (inside.subset (by simp : item ∈ done ++ [item]))
      rcases replayDefinition_projects earlier once listed turn with rfl | ⟨next, changed⟩
      · exact ⟨ids, fun id member => by simp [visited id member], earlier, flag⟩
      · refine ⟨item.1 :: ids, fun id member => ?_, next, Or.inl changed⟩
        rcases List.mem_cons.mp member with rfl | member
        · simp
        · simp [visited id member])
    (fun _ _ _ _ _ inv => inv)
  obtain ⟨ids, _, steps, flag⟩ := steps
  obtain ⟨kept, _, _⟩ := steps.marks
  refine ⟨ids, projected, steps, ?_, ?_⟩ <;> dsimp only <;> split
  · rfl
  · rfl
  · rename_i moved
    exact Or.inl (by simp [Database.bump, ← kept])
  · rename_i still
    simp only [Bool.or_eq_true, not_or] at still
    exact Or.inr ⟨flag.resolve_left still.1, kept⟩

theorem replay_effect {revision : Int} {offline : Bool}
    (h : Returns c lo (replay definitions revision offline d) outcome hi) :
    Effect (frame c lo hi) d (.replay definitions revision offline) outcome.reply
      outcome.tables := by
  obtain ⟨ids, mid, steps, marks, moved⟩ := replay_projects h
  exact .project steps marks moved

/-! ### Compaction -/

theorem reclaim_keyed (keyed : d.Keyed) (id : String) (type : RecordClass) :
    (reclaim d id type).Keyed := by
  cases type with
  | receipts =>
    exact { keyed with authorizations := Table.nodup_updateWhere (fun _ _ => rfl) keyed.authorizations }
  | requests =>
    exact { keyed with requests := Table.nodup_updateWhere (fun _ _ => rfl) keyed.requests }
  | sessions =>
    exact { keyed with sessions := Table.nodup_updateWhere (fun _ _ => rfl) keyed.sessions }
  | grants => exact { keyed with grants := keyed.grants.sublist (List.filter_sublist.map _) }

/-- What the query finds may be reclaimed. -/
theorem reclaimable_sound (keyed : d.Keyed) {id : String} {type : RecordClass}
    (listed : id ∈ reclaimable d type) : Reclaimable d id type := by
  cases type with
  | receipts =>
    obtain ⟨a, member, rfl⟩ := List.mem_map.mp listed
    rw [List.mem_filter, Bool.and_eq_true, Bool.not_eq_eq_eq_not, Bool.not_true] at member
    intro b other same
    rw [Table.eq_of_key keyed.authorizations other member.1 same]
    exact member.2.1
  | requests =>
    obtain ⟨r, member, rfl⟩ := List.mem_map.mp listed
    rw [List.mem_filter, Bool.and_eq_true, decide_eq_true_eq] at member
    intro b other same
    rw [Table.eq_of_key keyed.requests other member.1 same]
    exact member.2.1
  | sessions =>
    obtain ⟨s, member, rfl⟩ := List.mem_map.mp listed
    rw [List.mem_filter, Bool.and_eq_true, decide_eq_true_eq] at member
    intro b other same
    rw [Table.eq_of_key keyed.sessions other member.1 same]
    exact member.2.1
  | grants =>
    obtain ⟨g, member, rfl⟩ := List.mem_map.mp listed
    simp only [List.mem_filter, Bool.and_eq_true, Bool.not_eq_eq_eq_not, Bool.not_true,
      List.any_eq_false, decide_eq_true_eq] at member
    refine ⟨fun b other same => ?_, member.2.1.2, member.2.2⟩
    rw [Table.eq_of_key keyed.grants other member.1 same]
    exact member.2.1.1

/-- Reclaiming one record leaves the others of its class reclaimable. -/
theorem Reclaimable.reclaim {id other : String} {type : RecordClass} (h : Reclaimable d id type) :
    Reclaimable (reclaim d other type) id type := by
  cases type with
  | receipts =>
    intro a member same
    obtain ⟨old, stored, ⟨_, rfl⟩ | ⟨_, rfl⟩⟩ := Table.mem_updateWhere.mp member
    · exact h old stored same
    · exact h a stored same
  | requests =>
    intro r member same
    obtain ⟨old, stored, ⟨_, rfl⟩ | ⟨_, rfl⟩⟩ := Table.mem_updateWhere.mp member
    · exact h old stored same
    · exact h r stored same
  | sessions =>
    intro s member same
    obtain ⟨old, stored, ⟨_, rfl⟩ | ⟨_, rfl⟩⟩ := Table.mem_updateWhere.mp member
    · exact h old stored same
    · exact h s stored same
  | grants => exact ⟨fun g member => h.1 g (List.mem_filter.mp member).1, h.2⟩

theorem reclaim_foldl {type : RecordClass} {ids : List String} (keyed : d.Keyed)
    (each : ∀ id ∈ ids, Reclaimable d id type) :
    Relation.ReflTransGen Reclaims d (ids.foldl (fun d id => reclaim d id type) d) ∧
      (ids.foldl (fun d id => reclaim d id type) d).Keyed := by
  induction ids generalizing d with
  | nil => exact ⟨.refl, keyed⟩
  | cons id rest ih =>
    obtain ⟨steps, after⟩ := ih (reclaim_keyed keyed id type)
      fun other member => (each other (by simp [member])).reclaim
    exact ⟨.head ⟨id, type, each id (by simp), rfl⟩ steps, after⟩

theorem compactClass_reclaims (first : Nat) {state : Database × Nat} (keyed : state.1.Keyed)
    (offset : Nat) : Relation.ReflTransGen Reclaims state.1 (compactClass first state offset).1 ∧
      (compactClass first state offset).1.Keyed := by
  unfold compactClass
  split
  · exact reclaim_foldl keyed fun id member => reclaimable_sound keyed (List.mem_of_mem_take member)
  · exact ⟨.refl, keyed⟩

theorem compactTables_reclaims (keyed : d.Keyed) (first : Nat) :
    Relation.ReflTransGen Reclaims d (compactTables first d).1 := by
  have loop : ∀ (offsets : List Nat) (state : Database × Nat), state.1.Keyed →
      Relation.ReflTransGen Reclaims state.1 (offsets.foldl (compactClass first) state).1 := by
    intro offsets
    induction offsets with
    | nil => exact fun _ _ => .refl
    | cons offset rest ih =>
      intro state keyed
      obtain ⟨steps, after⟩ := compactClass_reclaims first keyed offset
      exact steps.trans (ih _ after)
  exact loop (List.range 4) (d, 0) keyed

/-! ### The other transactions -/

theorem revoke_narrows (h : Returns c lo (revoke d peer request) outcome hi) :
    d.Narrows outcome.tables := by
  obtain ⟨_, h⟩ := h.guard
  obtain ⟨_, h⟩ := h.skip
  obtain ⟨_, h⟩ := h.guard
  obtain ⟨_, h⟩ := h.skip
  obtain rfl := h.of_pure
  exact ((Database.revokeGrants_restricts d _).trans ((Database.invalidateReceipts_restricts _ _).trans
    (Database.blockArtifacts_restricts _ _))).bump

theorem compensate_narrows {grants : List String} {request : String}
    (h : Returns c lo (compensate grants request d) outcome hi) :
    d.Narrows outcome.tables := by
  obtain ⟨_, h⟩ := h.skip
  obtain rfl := h.of_pure
  have revoked := Database.foldl_restricts (fun (d : Database) id =>
    d.revokeGrants_restricts fun g => decide (g.id = id)) grants d
  refine Database.Restricts.bump ?_
  split
  · exact revoked
  · exact revoked.trans (Database.endRequests_restricts _ fun r _ _ =>
      Database.invalidated_ending r.state)

/-- The work of every transaction refines the abstract machine. -/
theorem work_effect {call : Call} (keyed : d.Keyed) (h : Returns c lo (call.work d) outcome hi) :
    Effect (frame c lo hi) d call outcome.reply outcome.tables := by
  cases call with
  | create =>
    obtain ⟨_, h⟩ := Act.Returns.skip h
    obtain rfl := h.of_pure
    exact .create
  | incarnate =>
    obtain ⟨_, issued, h⟩ := Act.Returns.bind h
    obtain rfl := h.of_pure
    exact .incarnate (freshId_returns issued)
  | recover =>
    obtain rfl := Act.Returns.of_pure h
    exact .restrict rfl { Database.Narrows.refl d with moved := Or.inr ⟨rfl, Or.inl rfl⟩ }
  | replay definitions revision offline => exact replay_effect h
  | resetRuntime =>
    obtain ⟨_, h⟩ := Act.Returns.skip h
    obtain rfl := h.of_pure
    exact .restrict rfl (Database.resetRuntime_narrows d)
  | expire => exact .restrict rfl (expire_narrows h)
  | fenceProfiles bindings retireGrants removedUser =>
    obtain ⟨_, h⟩ := Act.Returns.skip h
    obtain rfl := h.of_pure
    exact .restrict rfl (fenceTables_narrows bindings retireGrants removedUser d)
  | compensate grants request => exact .restrict rfl (compensate_narrows h)
  | session peer request => exact session_effect keyed h
  | evaluate peer request creates => exact evaluate_effect h
  | prompt peer request respond => exact prompt_effect h
  | result peer request cancel generation => exact .restrict rfl (result_narrows h)
  | revoke peer request => exact .restrict rfl (revoke_narrows h)
  | data peer request incarnation => exact data_effect h
  | compact first =>
    obtain ⟨_, h⟩ := Act.Returns.skip h
    obtain rfl := h.of_pure
    exact .compact (compactTables_reclaims keyed first)

theorem changeSession_incarnation {d after : Database} {request reply : Message} {method : String}
    {s : SessionRow} (h : Returns c lo (changeSession d request method s) (after, reply) hi) :
    after.incarnation = d.incarnation := by
  rcases h.ite with ⟨_, h⟩ | ⟨_, h⟩
  · obtain ⟨rfl, _⟩ := Prod.mk.inj h.of_pure
    rfl
  rcases h.ite with ⟨_, h⟩ | ⟨_, h⟩
  · obtain ⟨_, h⟩ := h.guard
    rcases h.ite with ⟨_, h⟩ | ⟨_, h⟩
    · obtain ⟨rfl, _⟩ := Prod.mk.inj h.of_pure
      rfl
    · obtain ⟨time, _, h⟩ := h.bind
      obtain ⟨rfl, _⟩ := Prod.mk.inj h.of_pure
      rfl
  rcases h.ite with ⟨_, h⟩ | ⟨_, h⟩
  · obtain ⟨_, h⟩ := h.guard
    obtain ⟨_, _, h⟩ := h.bind
    obtain ⟨_, _, h⟩ := h.bind
    obtain ⟨_, h⟩ := h.guard
    obtain ⟨_, _, h⟩ := h.bind
    obtain ⟨_, h⟩ := h.guard
    obtain ⟨_, _, h⟩ := h.bind
    obtain ⟨_, _, h⟩ := h.bind
    obtain ⟨_, _, h⟩ := h.bind
    obtain ⟨rfl, _⟩ := Prod.mk.inj h.of_pure
    rfl
  rcases h.ite with ⟨_, h⟩ | ⟨_, h⟩
  · obtain ⟨_, h⟩ := h.guard
    obtain ⟨_, _, h⟩ := h.bind
    obtain ⟨rfl, _⟩ := Prod.mk.inj h.of_pure
    rfl
  · exact absurd h not_returns_fail

theorem session_incarnation (h : Returns c lo (session d peer request) outcome hi) :
    outcome.tables.incarnation = d.incarnation := by
  obtain ⟨_, h⟩ := h.skip
  rcases h.ite with ⟨_, h⟩ | ⟨_, h⟩
  · obtain ⟨_, h⟩ := h.skip
    obtain ⟨_, _, h⟩ := h.bind
    obtain rfl := h.of_pure
    rfl
  · obtain ⟨_, h⟩ := h.guard
    obtain ⟨_, h⟩ := h.skip
    obtain ⟨_, h⟩ := h.skip
    obtain ⟨⟨changed, reply⟩, change, h⟩ := h.bind
    obtain rfl := h.of_pure
    rcases change.ite with ⟨_, opened⟩ | ⟨_, controlled⟩
    · obtain ⟨s, fresh, rfl⟩ := openSession_returns opened
      rfl
    · obtain ⟨found, read, controlled⟩ := controlled.bind
      rcases sessionRow_returns read with ⟨rfl, _⟩ | ⟨s, rfl, _, _⟩
      · exact absurd controlled not_returns_fail
      · obtain ⟨_, _, controlled⟩ := controlled.bind
        obtain ⟨_, _, controlled⟩ := controlled.bind
        obtain ⟨_, controlled⟩ := controlled.guard
        obtain ⟨⟨after, _⟩, moved, controlled⟩ := controlled.bind
        obtain ⟨_, _, controlled⟩ := controlled.bind
        obtain ⟨rfl, _⟩ := Prod.mk.inj controlled.of_pure
        have same := changeSession_incarnation moved
        exact same

theorem compactTables_incarnation (first : Nat) (d : Database) :
    (compactTables first d).1.incarnation = d.incarnation := by
  have rows : ∀ (type : RecordClass) (ids : List String) (e : Database),
      (ids.foldl (fun e id => reclaim e id type) e).incarnation = e.incarnation := by
    intro type ids
    induction ids with
    | nil => exact fun _ => rfl
    | cons id rest ih =>
      intro e
      refine (ih _).trans ?_
      cases type <;> rfl
  have classes : ∀ (offsets : List Nat) (state : Database × Nat),
      (offsets.foldl (compactClass first) state).1.incarnation = state.1.incarnation := by
    intro offsets
    induction offsets with
    | nil => exact fun _ => rfl
    | cons offset rest ih =>
      intro state
      refine (ih _).trans ?_
      unfold compactClass
      split
      · exact rows _ _ _
      · rfl
  exact classes _ _

/-- The work of a transaction leaves the incarnation alone, whatever the tables hold. -/
theorem work_incarnation {call : Call} (h : Returns c lo (call.work d) outcome hi)
    (old : call ≠ .create) (named : call ≠ .incarnate) :
    outcome.tables.incarnation = d.incarnation := by
  cases call with
  | create => exact absurd rfl old
  | incarnate => exact absurd rfl named
  | recover =>
    obtain rfl := Act.Returns.of_pure h
    rfl
  | replay definitions revision offline => exact (replay_effect h).incarnation old named
  | resetRuntime =>
    obtain ⟨_, h⟩ := Act.Returns.skip h
    obtain rfl := h.of_pure
    rfl
  | expire => exact (expire_narrows h).incarnation
  | fenceProfiles bindings retireGrants removedUser =>
    obtain ⟨_, h⟩ := Act.Returns.skip h
    obtain rfl := h.of_pure
    exact (fenceTables_narrows bindings retireGrants removedUser d).incarnation
  | compensate grants request => exact (compensate_narrows h).incarnation
  | session peer request => exact session_incarnation h
  | evaluate peer request creates => exact (evaluate_effect h).incarnation old named
  | prompt peer request respond => exact (prompt_effect h).incarnation old named
  | result peer request cancel generation => exact (result_narrows h).incarnation
  | revoke peer request => exact (revoke_narrows h).incarnation
  | data peer request incarnation => exact (data_effect h).incarnation old named
  | compact first =>
    obtain ⟨_, h⟩ := Act.Returns.skip h
    obtain rfl := h.of_pure
    exact compactTables_incarnation first d

end Consent.Repository
