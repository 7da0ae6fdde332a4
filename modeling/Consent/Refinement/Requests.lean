import Consent.Repository.Transition

/-!
The code refines the abstract machine: whatever the work of a transaction returns for
commit is an effect of its call. This module treats sessions, requests and checks.
-/
namespace Consent.Repository
open Profile
open Act (Returns)

variable {σ ε : Type} [Host σ ε] {c : Context ε} {lo hi : Progress σ ε}

/-! ### Sessions -/

theorem suspendAll_restricts {d after : Database} {ids : List String}
    (h : Returns c lo (suspendAll d ids) after hi) : d.Restricts after :=
  h.foldlM (fun _ state _ => d.Restricts state) (Database.Restricts.refl d)
    (fun _ id before after _ _ _ _ _ inv turn => by
      obtain ⟨time, _, turn⟩ := turn.bind
      obtain rfl := turn.of_pure
      exact inv.trans (Database.suspendSession_restricts before id time))
    (fun _ _ _ _ _ inv => inv)

variable {d : Database} {peer : Peer} {outcome : Outcome} {request : Message} {count : Nat}
  {fingerprint : String}

theorem expire_narrows (h : Returns c lo (expire d) outcome hi) : d.Narrows outcome.tables := by
  obtain ⟨_, h⟩ := h.skip
  obtain ⟨deadline, _, h⟩ := h.bind
  obtain ⟨_, _, h⟩ := h.bind
  obtain ⟨_, _, h⟩ := h.bind
  obtain ⟨_, _, h⟩ := h.bind
  obtain ⟨_, _, h⟩ := h.bind
  obtain ⟨_, _, h⟩ := h.bind
  obtain ⟨_, _, h⟩ := h.bind
  obtain ⟨⟨close, suspend⟩, _, h⟩ := h.bind
  obtain ⟨suspended, suspending, h⟩ := h.bind
  obtain ⟨limit, _, h⟩ := h.bind
  obtain rfl := h.of_pure
  have ended : d.Restricts (d.endRequests .expired fun r =>
      decide (r.state = .pending) && decide (r.deadline ≤ deadline)) := by
    refine Database.endRequests_restricts d fun r _ overdue => ?_
    simp only [Bool.and_eq_true, decide_eq_true_eq] at overdue
    simp [RequestState.Ending, overdue.1]
  have cleaned := ended.trans ((Database.foldl_restricts Database.closeSession_restricts close
    _).trans ((suspendAll_restricts suspending).trans ((Database.blockArtifacts_restricts
      suspended fun a => decide (a.expires ≤ limit)).trans
        (Database.finishCleanup_restricts _))))
  dsimp only
  split
  · exact cleaned.bump
  · rename_i unchanged
    simp only [Bool.or_eq_true, not_or, Bool.not_eq_eq_eq_not, Bool.not_true,
      List.isEmpty_eq_false_iff, ne_eq, not_not] at unchanged
    obtain ⟨⟨⟨_, rfl⟩, rfl⟩, _⟩ := unchanged
    obtain rfl := suspending.of_pure
    refine ⟨cleaned, Or.inr ⟨rfl, Or.inr ?_⟩⟩
    exact Database.finishCleanup_blockArtifacts _ _

theorem openSession_returns {d after : Database} {request reply : Message}
    (h : Returns c lo (openSession d peer request) (after, reply) hi) :
    ∃ s : SessionRow, (frame c lo hi).Fresh s.id ∧
      after = { d with sessions := d.sessions ++ [s] } := by
  obtain ⟨_, h⟩ := h.guard
  obtain ⟨_, h⟩ := h.guard
  obtain ⟨_, _, h⟩ := h.bind
  obtain ⟨_, _, h⟩ := h.bind
  obtain ⟨_, _, h⟩ := h.bind
  obtain ⟨_, _, h⟩ := h.bind
  obtain ⟨id, issued, h⟩ := h.bind
  obtain ⟨_, _, h⟩ := h.bind
  obtain ⟨_, _, h⟩ := h.bind
  obtain ⟨_, _, h⟩ := h.bind
  obtain ⟨_, _, h⟩ := h.bind
  obtain ⟨_, _, h⟩ := h.bind
  obtain ⟨_, _, h⟩ := h.bind
  obtain ⟨tables, _⟩ := Prod.mk.inj h.of_pure
  exact ⟨_, freshId_returns issued, tables.symm⟩

theorem changeSession_restricts {d after : Database} {request reply : Message} {method : String}
    {s : SessionRow} (keyed : d.Keyed) (found : s ∈ d.sessions)
    (h : Returns c lo (changeSession d request method s) (after, reply) hi) :
    d.Restricts after := by
  have closing : d.Restricts (d.closeSession s.id).finishCleanup :=
    (Database.closeSession_restricts d s.id).trans (Database.finishCleanup_restricts _)
  rcases h.ite with ⟨_, h⟩ | ⟨_, h⟩
  · obtain ⟨rfl, _⟩ := Prod.mk.inj h.of_pure
    exact closing
  rcases h.ite with ⟨_, h⟩ | ⟨_, h⟩
  · obtain ⟨_, h⟩ := h.guard
    rcases h.ite with ⟨_, h⟩ | ⟨_, h⟩
    · obtain ⟨rfl, _⟩ := Prod.mk.inj h.of_pure
      exact closing
    · obtain ⟨time, _, h⟩ := h.bind
      obtain ⟨rfl, _⟩ := Prod.mk.inj h.of_pure
      exact Database.suspendSession_restricts d s.id time
  rcases h.ite with ⟨_, h⟩ | ⟨_, h⟩
  · obtain ⟨suspended, h⟩ := h.guard
    obtain ⟨_, _, h⟩ := h.bind
    obtain ⟨_, _, h⟩ := h.bind
    obtain ⟨_, h⟩ := h.guard
    obtain ⟨_, _, h⟩ := h.bind
    obtain ⟨_, h⟩ := h.guard
    obtain ⟨_, _, h⟩ := h.bind
    obtain ⟨_, _, h⟩ := h.bind
    obtain ⟨_, _, h⟩ := h.bind
    obtain ⟨rfl, _⟩ := Prod.mk.inj h.of_pure
    refine Database.updateSessions_restricts d fun t member same => ?_
    obtain rfl := Table.eq_of_key keyed.sessions member found (by simpa using same)
    exact ⟨rfl, rfl, rfl, rfl, rfl, by simp [SessionState.Ended, suspended], by simp [suspended]⟩
  rcases h.ite with ⟨_, h⟩ | ⟨_, h⟩
  · obtain ⟨active, h⟩ := h.guard
    obtain ⟨_, _, h⟩ := h.bind
    obtain ⟨rfl, _⟩ := Prod.mk.inj h.of_pure
    refine Database.updateSessions_restricts d fun t member same => ?_
    obtain rfl := Table.eq_of_key keyed.sessions member found (by simpa using same)
    exact ⟨rfl, rfl, rfl, rfl, rfl, by simp [SessionState.Ended, active], by simp [active]⟩
  · exact absurd h not_returns_fail

theorem findSession_mem {id : String} {s : SessionRow} (h : d.findSession id = some s) :
    s ∈ d.sessions ∧ s.id = id :=
  ⟨List.mem_of_find?_eq_some h, by simpa using List.find?_some h⟩

theorem controlSession_restricts {d after : Database} {request reply : Message} {method : String}
    (keyed : d.Keyed) (h : Returns c lo (controlSession d peer request method) (after, reply) hi) :
    d.Restricts after := by
  obtain ⟨found, read, h⟩ := h.bind
  rcases sessionRow_returns read with ⟨rfl, _⟩ | ⟨s, rfl, row, _⟩
  · exact absurd h not_returns_fail
  · obtain ⟨_, _, h⟩ := h.bind
    obtain ⟨_, _, h⟩ := h.bind
    obtain ⟨_, h⟩ := h.guard
    obtain ⟨⟨changed, _⟩, change, h⟩ := h.bind
    obtain ⟨_, _, h⟩ := h.bind
    obtain ⟨rfl, _⟩ := Prod.mk.inj h.of_pure
    exact changeSession_restricts keyed (findSession_mem row).1 change

theorem session_effect (keyed : d.Keyed) (h : Returns c lo (session d peer request) outcome hi) :
    Effect (frame c lo hi) d (.session peer request) outcome.reply outcome.tables := by
  obtain ⟨_, h⟩ := h.skip
  rcases h.ite with ⟨_, h⟩ | ⟨_, h⟩
  · obtain ⟨_, h⟩ := h.skip
    obtain ⟨_, _, h⟩ := h.bind
    obtain rfl := h.of_pure
    exact .restrict rfl (Database.Narrows.refl d)
  · obtain ⟨_, h⟩ := h.guard
    obtain ⟨_, h⟩ := h.skip
    obtain ⟨_, h⟩ := h.skip
    obtain ⟨⟨changed, reply⟩, change, h⟩ := h.bind
    obtain rfl := h.of_pure
    rcases change.ite with ⟨_, opened⟩ | ⟨_, controlled⟩
    · obtain ⟨s, fresh, rfl⟩ := openSession_returns opened
      exact .openSession fresh
    · exact .restrict rfl (controlSession_restricts keyed controlled).bump

/-! ### Requests and checks -/

/-- A payload holds the listed fields of the request and its rows, nothing else. -/
theorem getElem?_requestPayload {authorize : Bool} {key : String} (dotless : '.' ∉ key.toList)
    (kept : key ∉ ["client_request_id", "deadline_ms"]) :
    (requestPayload request count authorize)[key]? =
      if key ∈ Approval.kContext ∨ key ∈ requestKeys then request[key]? else none := by
  have rows : ∀ (indices : List Nat) (m : Message),
      (indices.foldl (fun payload i => payload.insertFrom request (rowKeys.map (row i)))
        m)[key]? = m[key]? := by
    intro indices
    induction indices with
    | nil => simp
    | cons i rest ih =>
      intro m
      have absent : key ∉ rowKeys.map (row i) := by
        intro member
        obtain ⟨name, _, same⟩ := List.mem_map.mp member
        exact row_ne dotless same
      rw [List.foldl_cons, ih, Message.getElem?_insertFrom, if_neg absent]
      simp
  have basis : (requestPayload request count false)[key]? =
      if key ∈ Approval.kContext ∨ key ∈ requestKeys then request[key]? else none := by
    have copied : ((Approval.copyContext request ∅).insertFrom request requestKeys)[key]? =
        if key ∈ Approval.kContext ∨ key ∈ requestKeys then request[key]? else none := by
      rw [Message.getElem?_insertFrom, Approval.getElem?_copyContext]
      by_cases context : key ∈ Approval.kContext <;> by_cases listed : key ∈ requestKeys <;>
        simp [context, listed]
    simpa [requestPayload, rows] using copied
  cases authorize with
  | false => exact basis
  | true =>
    have erased : (requestPayload request count true)[key]? =
        (requestPayload request count false)[key]? := by
      simp only [List.mem_cons, List.not_mem_nil, or_false, not_or] at kept
      simp [requestPayload, Message.eraseAll, Std.ExtTreeMap.getElem?_erase, Ne.symm kept.1,
        Ne.symm kept.2]
    exact erased.trans basis

/-- The fields outside of rows that a stored payload holds. -/
theorem get_targetPayload {input request payload : Message} {authorize : Bool} {key : String}
    (target : request = input ∧ payload = requestPayload input count authorize ∨
      ∃ deadline, request = input.insert "_approval_deadline" deadline ∧
        payload = (requestPayload input count authorize).insert "_approval_deadline" deadline)
    (dotless : '.' ∉ key.toList)
    (kept : key ∉ ["client_request_id", "deadline_ms", "_approval_deadline"]) :
    request.get key = input.get key ∧ payload.get key =
      if key ∈ Approval.kContext ∨ key ∈ requestKeys then input.get key else "" := by
  simp only [List.mem_cons, List.not_mem_nil, or_false, not_or] at kept
  have plain : (requestPayload input count authorize).get key =
      if key ∈ Approval.kContext ∨ key ∈ requestKeys then input.get key else "" := by
    rw [Message.get_eq, getElem?_requestPayload dotless (by simp [kept.1, kept.2.1]),
      Message.get_eq]
    split <;> rfl
  rcases target with ⟨rfl, rfl⟩ | ⟨deadline, rfl, rfl⟩
  · exact ⟨rfl, plain⟩
  · exact ⟨Message.get_insert_of_ne _ _ (Ne.symm kept.2.2),
      (Message.get_insert_of_ne _ _ (Ne.symm kept.2.2)).trans plain⟩

theorem CoveredBy.of_target {f : Frame} {i : Nat} {id : String} {value : String}
    (h : CoveredBy f d (request.insert "_approval_deadline" value) i id) :
    CoveredBy f d request i id := by
  have same : ∀ key, key ≠ "_approval_deadline" →
      Message.get (request.insert "_approval_deadline" value) key = request.get key :=
    fun key different => Message.get_insert_of_ne request value (Ne.symm different)
  have rows : ∀ name, Message.get (request.insert "_approval_deadline" value) (row i name) =
      request.get (row i name) := fun name => same _ (row_ne (by decide))
  have key : ∀ config, grantKey (request.insert "_approval_deadline" value) i config =
      grantKey request i config := by
    intro config
    simp only [grantKey, rows, same "subject" (by decide), same "profile" (by decide)]
  simpa only [CoveredBy, rows, key, same "session" (by decide)] using h

theorem approvalTarget_returns {request payload request' payload' : Message}
    (h : Returns c lo (approvalTarget request payload) (request', payload') hi) :
    request' = request ∧ payload' = payload ∨
      ∃ deadline, request' = request.insert "_approval_deadline" deadline ∧
        payload' = payload.insert "_approval_deadline" deadline := by
  rcases h.ite with ⟨_, h⟩ | ⟨_, h⟩
  · obtain ⟨_, _, h⟩ := h.bind
    obtain ⟨_, _, h⟩ := h.bind
    obtain ⟨rfl, rfl⟩ := Prod.mk.inj h.of_pure
    exact Or.inr ⟨_, rfl, rfl⟩
  · obtain ⟨rfl, rfl⟩ := Prod.mk.inj h.of_pure
    exact Or.inl ⟨rfl, rfl⟩

theorem validateStoredApproval_narrows {d after : Database} {id : String}
    {state next : RequestState} {fields : Message}
    (h : Returns c lo (validateStoredApproval d peer id state fields) (after, next) hi) :
    d.Narrows after := by
  rcases h.ite with ⟨_, h⟩ | ⟨_, h⟩
  · obtain ⟨rfl, _⟩ := Prod.mk.inj h.of_pure
    exact Database.Narrows.refl d
  · obtain ⟨_, h⟩ := h.skip
    obtain ⟨_, h⟩ := h.guard
    obtain ⟨_, _, h⟩ := h.bind
    obtain ⟨⟨coverage, _⟩, _, h⟩ := h.bind
    rcases h.ite with ⟨_, h⟩ | ⟨_, h⟩
    · obtain ⟨rfl, _⟩ := Prod.mk.inj h.of_pure
      exact Database.Narrows.refl d
    · obtain ⟨rfl, _⟩ := Prod.mk.inj h.of_pure
      exact (Database.endRequests_restricts d fun r _ _ =>
        Database.invalidated_ending r.state).bump

theorem result_narrows {cancel : Bool} {generation : Nat}
    (h : Returns c lo (result d peer request cancel generation) outcome hi) :
    d.Narrows outcome.tables := by
  obtain ⟨_, h⟩ := h.guard
  obtain ⟨_, h⟩ := h.skip
  obtain ⟨⟨r, fields⟩, _, h⟩ := h.bind
  rcases h.ite with ⟨_, h⟩ | ⟨_, h⟩
  · obtain rfl := h.of_pure
    refine Database.Restricts.bump (Database.endRequests_restricts d fun other _ pending => ?_)
    simp only [Bool.and_eq_true, decide_eq_true_eq] at pending
    simp [RequestState.Ending, pending.2]
  rcases h.ite with ⟨_, h⟩ | ⟨_, h⟩
  · obtain ⟨_, h⟩ := h.skip
    obtain ⟨⟨changed, state⟩, change, h⟩ := h.bind
    obtain ⟨_, _, h⟩ := h.bind
    obtain rfl := h.of_pure
    exact validateStoredApproval_narrows change
  · obtain rfl := h.of_pure
    exact Database.Narrows.refl d

theorem receiptRetry_tables
    (h : Returns c lo (receiptRetry d peer request fingerprint) (some outcome) hi) :
    outcome.tables = d := by
  obtain ⟨_, h⟩ := h.guard
  split at h
  · cases h.of_pure
  · obtain ⟨_, h⟩ := h.guard
    obtain ⟨_, _, h⟩ := h.bind
    obtain ⟨_, h⟩ := h.guard
    obtain rfl := Option.some.inj h.of_pure
    rfl

theorem requestRetry_narrows
    (h : Returns c lo (requestRetry d peer request fingerprint) (some outcome) hi) :
    d.Narrows outcome.tables := by
  obtain ⟨_, h⟩ := h.guard
  split at h
  · cases h.of_pure
  · obtain ⟨_, h⟩ := h.guard
    rcases h.ite with ⟨_, h⟩ | ⟨_, h⟩
    · obtain ⟨⟨changed, state⟩, change, h⟩ := h.bind
      obtain rfl := Option.some.inj h.of_pure
      exact validateStoredApproval_narrows change
    · obtain rfl := Option.some.inj h.of_pure
      exact Database.Narrows.refl d

theorem get_keepRows {payload reply : Message} {key : String} (other : starts key "r" = false) :
    (keepRows payload reply).get key = payload.get key := by
  unfold keepRows
  generalize reply.toList = fields
  induction fields generalizing payload with
  | nil => rfl
  | cons field rest ih =>
    rw [List.foldl_cons, ih]
    split
    · rename_i row
      refine Message.get_insert_of_ne payload _ ?_
      rintro rfl
      rw [other] at row
      cases row
    · rfl

theorem issueReceipt_effect {input request payload reply : Message} {grants : List String}
    (mode : input.getD "mode" "QUERY" = "AUTHORIZE")
    (target : request = input ∧ payload = requestPayload input count true ∨
      ∃ deadline, request = input.insert "_approval_deadline" deadline ∧
        payload = (requestPayload input count true).insert "_approval_deadline" deadline)
    (checked : Returns c lo (checkConditions d peer request true) (reply, grants) hi)
    (allowed : reply.get "decision" = "ALLOWED")
    (h : Returns c lo (issueReceipt d peer request payload fingerprint reply grants) outcome hi) :
    Effect (frame c lo hi) d (.evaluate peer input false) outcome.reply outcome.tables := by
  obtain ⟨receipt, issued, h⟩ := h.bind
  obtain ⟨created, _, h⟩ := h.bind
  obtain rfl := h.of_pure
  obtain ⟨value, counted, some, covered⟩ := checkConditions_returns checked allowed
  have distinct := (checkConditions_selected checked).2
  have fields := fun (key : String) (dotless : '.' ∉ key.toList) => get_targetPayload target dotless
  suffices fact : Issued (frame c lo hi) d peer input
      ⟨receipt, peer.identity, request.get "operation_id", request.get "step_id", fingerprint,
        payload, created, true⟩ grants from .issue fact
  refine ⟨freshId_returns issued, rfl, rfl, mode, (fields "subject" (by decide) (by decide)).2,
    (fields "profile" (by decide) (by decide)).2, ⟨value, ?_, some, ?_⟩, distinct⟩
  · rcases target with ⟨rfl, _⟩ | ⟨deadline, rfl, _⟩
    · exact counted
    · simpa [number, Std.ExtTreeMap.getElem?_insert] using counted
  · rcases target with ⟨rfl, _⟩ | ⟨deadline, rfl, _⟩
    · exact covered
    · exact covered.imp fun _ _ => CoveredBy.of_target

theorem storeRequest_effect {input request payload reply : Message}
    (target : request = input ∧ payload = requestPayload input count false ∨
      ∃ deadline, request = input.insert "_approval_deadline" deadline ∧
        payload = (requestPayload input count false).insert "_approval_deadline" deadline)
    (counted : ∃ rows, integer (request.get "count") 1 16 = .ok rows)
    (h : Returns c lo (storeRequest d peer request payload fingerprint reply count) outcome hi) :
    Effect (frame c lo hi) d (.evaluate peer input true) outcome.reply outcome.tables := by
  obtain ⟨_, h⟩ := h.skip
  obtain ⟨_, h⟩ := h.guard
  obtain ⟨_, _, h⟩ := h.bind
  obtain ⟨id, issued, h⟩ := h.bind
  obtain ⟨_, _, h⟩ := h.bind
  obtain rfl := h.of_pure
  have fields := fun (key : String) (dotless : '.' ∉ key.toList) => get_targetPayload target dotless
  have stored : ∀ key, '.' ∉ key.toList → starts key "r" = false →
      key ∉ ["client_request_id", "deadline_ms", "_approval_deadline"] →
      key ≠ "chosen_grant_mode" → Message.get
      (if request.get "approval_version" = "2" ∧ reply.get "decision" = "ALLOWED" then
        (keepRows payload reply).insert "chosen_grant_mode" (request.get "grant_mode")
      else keepRows payload reply) key =
      if key ∈ Approval.kContext ∨ key ∈ requestKeys then input.get key else "" := by
    intro key dotless rows kept other
    have field := (fields key dotless kept).2
    split
    · rw [Message.get_insert_of_ne _ _ (Ne.symm other), get_keepRows rows, field]
    · rw [get_keepRows rows, field]
  refine .store ⟨freshId_returns issued, rfl, (fields "subject" (by decide) (by decide)).1,
    (fields "profile" (by decide) (by decide)).1,
    stored "subject" (by decide) (by decide) (by decide) (by decide),
    stored "profile" (by decide) (by decide) (by decide) (by decide),
    stored "epoch" (by decide) (by decide) (by decide) (by decide), ?_, rfl, rfl, rfl⟩
  obtain ⟨rows, named⟩ := counted
  rw [(fields "count" (by decide) (by decide)).1] at named
  rw [stored "count" (by decide) (by decide) (by decide) (by decide), if_pos (by decide)]
  exact ⟨rows, integer_widen named (by decide) (le_refl _)⟩

theorem evaluate_effect {create : Bool}
    (h : Returns c lo (evaluate d peer request create) outcome hi) :
    Effect (frame c lo hi) d (.evaluate peer request create) outcome.reply outcome.tables := by
  obtain ⟨_, h⟩ := h.skip
  obtain ⟨_, h⟩ := h.skip
  obtain ⟨_, _, h⟩ := h.bind
  obtain ⟨_, h⟩ := h.guard
  obtain ⟨count, _, h⟩ := h.bind
  obtain ⟨_, h⟩ := h.skip
  obtain ⟨fingerprint, _, h⟩ := h.bind
  obtain ⟨retry, retried, h⟩ := h.bind
  rcases retry with _ | prior
  · obtain ⟨⟨target, payload⟩, targeted, h⟩ := h.bind
    have aimed := approvalTarget_returns targeted
    obtain ⟨⟨reply, grants⟩, conditions, h⟩ := h.bind
    rcases h.ite with ⟨creates, h⟩ | ⟨checks, h⟩
    · subst creates
      exact storeRequest_effect aimed (checkConditions_counted conditions) h
    · rcases h.ite with ⟨⟨authorize, allowed⟩, h⟩ | ⟨_, h⟩
      · simp only [Bool.and_eq_true, Bool.not_eq_eq_eq_not, Bool.not_true, beq_iff_eq] at authorize
        obtain ⟨isCheck, mode⟩ := authorize
        simp only [isCheck, mode, Bool.not_false, BEq.rfl, Bool.and_self] at aimed conditions
        rw [isCheck]
        exact issueReceipt_effect mode aimed conditions allowed h
      · obtain rfl := h.of_pure
        exact .restrict rfl (Database.Narrows.refl d)
  · obtain rfl := h.of_pure
    refine .restrict rfl ?_
    rcases retried.ite with ⟨_, retried⟩ | ⟨_, retried⟩
    · rw [receiptRetry_tables retried]
      exact Database.Narrows.refl d
    · rcases retried.ite with ⟨_, retried⟩ | ⟨_, retried⟩
      · exact requestRetry_narrows retried
      · cases retried.of_pure

end Consent.Repository
