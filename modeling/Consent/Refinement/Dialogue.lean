import Consent.Refinement.Requests

/-!
Refinement of the approval dialogue. A prompt shows the rows it stores; an answer inserts
one grant for each row that was shown and is still open.
-/
namespace Consent.Repository
open Profile
open Act (Returns)

variable {σ ε : Type} [Host σ ε] {c : Context ε} {lo hi : Progress σ ε}

variable {d : Database} {p : Display} {peer : Peer} {request : Message}

theorem definition_returns {id : String} {config : Message}
    (h : Returns c lo (definition d id) config hi) : d.activeConfig id = some config := by
  unfold definition at h
  split at h
  · rename_i found
    rw [found, h.of_pure]
  · exact absurd h not_returns_fail

/-! ### The approval dialogue -/

theorem requestRow_returns {request fields : Message} {ui : Bool} {r : RequestRow}
    (h : Returns c lo (requestRow d peer request ui) (r, fields) hi) :
    r ∈ d.requests ∧ fields = withColumns r := by
  obtain ⟨_, h⟩ := h.skip
  split at h
  · exact absurd h not_returns_fail
  · rename_i found
    obtain ⟨_, h⟩ := h.skip
    obtain ⟨_, h⟩ := h.guard
    obtain ⟨rfl, rfl⟩ := Prod.mk.inj h.of_pure
    exact ⟨List.mem_of_find?_eq_some found, rfl⟩

theorem promptDefinition_returns {pending config : Message} {i : Nat}
    (h : Returns c lo (promptDefinition d pending i) config hi) :
    PromptDefinition d pending i config := by
  obtain ⟨found, read, h⟩ := h.bind
  obtain ⟨_, _, h⟩ := h.bind
  obtain ⟨_, h⟩ := h.guard
  obtain ⟨same, h⟩ := h.guard
  obtain ⟨_, h⟩ := h.skip
  obtain rfl := h.of_pure
  exact ⟨definition_returns read, same.1, same.2⟩

theorem displayRows_returns {request pending current : Message} {count : Nat} {respond : Bool}
    {rows : List Nat}
    (h : Returns c lo (displayRows d peer request pending count respond) (current, rows) hi) :
    rows = if Approval.versioned pending then selectedRows pending current count respond
      else List.range count := by
  rcases h.ite with ⟨versioned, h⟩ | ⟨plain, h⟩
  · obtain ⟨_, h⟩ := h.skip
    obtain ⟨_, h⟩ := h.guard
    obtain ⟨⟨checked, _⟩, _, h⟩ := h.bind
    obtain ⟨rfl, rfl⟩ := Prod.mk.inj h.of_pure
    simp [versioned]
  · obtain ⟨_, rfl⟩ := Prod.mk.inj h.of_pure
    simp [plain]

theorem display_returns {respond : Bool} (h : Returns c lo (display d peer request respond) p hi) :
    Displayed d p ∧ (p.selected = false → p.rows = List.range p.count) ∧
      (∀ i ∈ p.rows, i < p.count) ∧
      (respond = true → p.rows = if p.selected then
        (List.range p.count).filter fun i => p.pending.get (promptRow i) == "1"
        else List.range p.count) := by
  obtain ⟨_, h⟩ := h.guard
  obtain ⟨_, h⟩ := h.skip
  obtain ⟨⟨r, pending⟩, found, h⟩ := h.bind
  obtain ⟨stored, rfl⟩ := requestRow_returns found
  obtain ⟨_, h⟩ := h.skip
  obtain ⟨state, h⟩ := h.guard
  obtain ⟨_, _, h⟩ := h.bind
  obtain ⟨_, _, h⟩ := h.bind
  obtain ⟨_, h⟩ := h.guard
  obtain ⟨_, _, h⟩ := h.bind
  obtain ⟨count, _, h⟩ := h.bind
  obtain ⟨_, h⟩ := h.guard
  obtain ⟨⟨current, rows⟩, displayed, h⟩ := h.bind
  obtain ⟨definitions, collected, h⟩ := h.bind
  obtain rfl := h.of_pure
  have rowsEq := displayRows_returns displayed
  refine ⟨⟨stored, state, rfl, collected.collect.imp fun _ _ => promptDefinition_returns, rfl, rfl,
    rfl⟩, ?_, ?_, ?_⟩
  · intro plain
    dsimp only at plain ⊢
    split
    · rfl
    · rw [rowsEq, plain]
      rfl
  · intro i member
    dsimp only at member ⊢
    split at member
    · exact List.mem_range.mp member
    · rw [rowsEq] at member
      split at member
      · exact List.mem_range.mp (List.mem_filter.mp member).1
      · exact List.mem_range.mp member
  · rintro rfl
    simp [rowsEq, selectedRows]


/-- The reply shows every row of the display and names the request. -/
theorem promptReply_shown {locale : String} {reply : Message}
    (h : Returns c lo (promptReply p locale) reply hi) :
    (∀ i ∈ p.rows, ∃ j, ∀ name ∈ shownKeys, reply.get (row j name) = p.pending.get (row i name)) ∧
      ∀ name ∈ ["request_id", "subject", "profile"], reply.get name = p.pending.get name := by
  obtain ⟨shown, described, h⟩ := h.bind
  obtain ⟨_, h⟩ := h.guard
  obtain ⟨_, h⟩ := h.skip
  obtain rfl := h.of_pure
  obtain ⟨rows, others⟩ := describeRows_shown (checked_returns described)
  refine ⟨rows, fun name listed => ?_⟩
  have plain : ∀ name ∈ ["request_id", "subject", "profile"],
      '.' ∉ name.toList ∧ "count" ≠ name ∧
        name ∈ ["request_id", "subject", "profile", "session", "generation"] := by decide
  obtain ⟨dotless, other, copied⟩ := plain name listed
  rw [others name dotless, Message.get_insert_of_ne _ _ other]
  exact Message.get_foldl_insert_of_mem _ (fun name => name) (fun name => p.pending.get name) _
    copied fun _ _ same => by rw [same]

/-- The payload that an answer leaves. -/
theorem finalPayload_retains (p : Display) (mode : String) (decided : Message)
    (state : RequestState) :
    Retains p (if state = .invalidated then (finalRows (Message.eraseAll
        (if p.choices then p.pending.insert "chosen_grant_mode" mode else p.pending)
        (columnFields ++ ["_prompt_locale"])) decided p.count).insert "reason" changedReason
      else finalRows (Message.eraseAll
        (if p.choices then p.pending.insert "chosen_grant_mode" mode else p.pending)
        (columnFields ++ ["_prompt_locale"])) decided p.count) := by
  rintro key ⟨decides, visible, other⟩
  simp only [List.mem_cons, not_or] at other
  have listed : key ∉ columnFields ++ ["_prompt_locale"] := by
    rw [List.mem_append, not_or]
    refine ⟨other.2.2, fun member => ?_⟩
    rw [List.mem_singleton.mp member] at visible
    exact absurd visible (by decide)
  have final : Message.get (finalRows (Message.eraseAll
      (if p.choices then p.pending.insert "chosen_grant_mode" mode else p.pending)
      (columnFields ++ ["_prompt_locale"])) decided p.count) key = p.pending.get key := by
    rw [get_finalRows visible decides, Message.get_eraseAll_of_notMem _ listed]
    split
    · exact Message.get_insert_of_ne _ _ (Ne.symm other.1)
    · rfl
  split
  · rw [Message.get_insert_of_ne _ _ (Ne.symm other.2.1), final]
  · exact final

theorem getPrompt_effect {outcome : Outcome} (displayed : Displayed d p)
    (every : p.selected = false → p.rows = List.range p.count) (bounded : ∀ i ∈ p.rows, i < p.count)
    (h : Returns c lo (getPrompt d peer request p) outcome hi) :
    Effect (frame c lo hi) d (.prompt peer request false) outcome.reply outcome.tables := by
  obtain ⟨located, h⟩ := h.guard
  obtain ⟨_, h⟩ := h.guard
  rcases h.ite with ⟨⟨selected, _⟩, h⟩ | ⟨_, h⟩
  · obtain rfl := h.of_pure
    refine .complete displayed selected ?_ fun key ⟨decides, visible, other⟩ => ?_
    · split
      · exact Or.inl rfl
      · exact Or.inr rfl
    · simp only [List.mem_cons, not_or] at other
      rw [get_finalRows visible decides, Message.get_eraseAll_of_notMem _ other.2.2]
      split
      · exact Message.get_insert_of_ne _ _ (Ne.symm other.1)
      · rfl
  · obtain ⟨reply, replied, h⟩ := h.bind
    obtain ⟨token, issued, h⟩ := h.bind
    obtain ⟨digest, hashed, h⟩ := h.bind
    obtain rfl := hash_returns hashed
    obtain rfl := h.of_pure
    have kept : ∀ key, key ∉ ["prompt_token", "ui_owner", "ui_instance"] →
        (Message.eraseAll (reply.insert "prompt_token" token) ["ui_owner", "ui_instance"]).get key =
          reply.get key := by
      intro key other
      simp only [List.mem_cons, List.not_mem_nil, or_false, not_or] at other
      rw [Message.get_eraseAll_of_notMem _ (by simp [other]),
        Message.get_insert_of_ne _ _ (Ne.symm other.1)]
    obtain ⟨rows, names⟩ := promptReply_shown replied
    refine .prompt ⟨displayed, freshId_returns issued, ?_, ?_, ?_, every, bounded, ?_, ?_⟩
    · rw [Message.get_eraseAll_of_notMem _ (by decide), Message.get_insert_self]
    · rw [kept _ (by decide), names _ (by simp), displayed.pending, withColumns_request]
    · intro name listed
      rw [kept name (by revert listed; revert name; decide), names name (by simp_all)]
    · intro i member
      obtain ⟨j, shown⟩ := rows i member
      refine ⟨j, fun name listed => ?_⟩
      rw [kept _ ?_, shown name listed]
      simp only [List.mem_cons, List.not_mem_nil, or_false, not_or]
      exact ⟨row_ne (by decide), row_ne (by decide), row_ne (by decide)⟩
    · intro empty
      rw [empty] at located
      exact absurd located (by decide)

/-- The grants inserted so far, in a frame that ends where the loop stands. -/
structure Granted (f : Frame) (d : Database) (p : Display) (mode : String) (done : List Nat)
    (state : Database × List String) (new : List Grant) : Prop where
  tables : state.1 = { d with grants := d.grants ++ new }
  ids : state.2 = new.map (·.id)
  granted : ∀ g ∈ new, ∃ i ∈ done, NewGrant f p mode i g
  distinct : (new.map (·.id)).Nodup

theorem NewGrant.mono {f f' : Frame} {mode : String} {i : Nat} {g : Grant}
    (h : NewGrant f p mode i g) (platform : f'.platform = f.platform)
    (start : f'.start.ids ≤ f.start.ids) (finish : f.finish.ids ≤ f'.finish.ids) :
    NewGrant f' p mode i g :=
  { h with fresh := by rw [Frame.Fresh, platform]; exact h.fresh.mono start finish }

theorem insertGrant_returns {current : Message} {mode : String} {time : Int}
    {before after : Database × List String} {i : Nat}
    (h : Returns c lo (insertGrant request p current mode time before i) after hi) :
    after = before ∨ ∃ g, NewGrant (frame c lo hi) p mode i g ∧
      after = ({ before.1 with grants := before.1.grants ++ [g] }, before.2 ++ [g.id]) := by
  rcases h.ite with ⟨_, h⟩ | ⟨_, h⟩
  · exact Or.inl h.of_pure.symm
  · obtain ⟨permitted, h⟩ := h.guard
    obtain ⟨duration, _, h⟩ := h.bind
    obtain ⟨id, issued, h⟩ := h.bind
    obtain rfl := h.of_pure
    exact Or.inr ⟨_, ⟨freshId_returns issued, rfl, rfl, rfl, rfl, rfl, rfl, permitted, rfl, rfl⟩,
      rfl⟩

theorem insertGrants_returns {current : Message} {mode : String} {state : Database × List String}
    (h : Returns c lo (insertGrants d request p current mode) state hi) :
    mode ∈ ["ONCE", "SESSION", "TIMED", "PERSISTENT"] ∧
      ∃ new, Granted (frame c lo hi) d p mode p.rows state new := by
  obtain ⟨known, h⟩ := h.guard
  obtain ⟨_, h⟩ := h.guard
  obtain ⟨time, _, loop⟩ := h.bind
  refine ⟨by simpa using known, ?_⟩
  refine loop.foldlM (fun (done : List Nat) state high =>
    ∃ new, Granted (frame c lo high) d p mode done state new) ?_ ?_ ?_
  · exact ⟨[], by simp, rfl, by simp, by simp⟩
  · rintro done i before after low high _ above below ⟨new, inv⟩ turn
    have grown : low.nextId ≤ high.nextId := turn.le.ids
    have wider : ∀ g ∈ new, ∃ k ∈ done ++ [i], NewGrant (frame c lo high) p mode k g := by
      intro g member
      obtain ⟨k, inside, grant⟩ := inv.granted g member
      exact ⟨k, by simp [inside], grant.mono rfl (le_refl _) grown⟩
    rcases insertGrant_returns turn with rfl | ⟨g, grant, rfl⟩
    · exact ⟨new, inv.tables, inv.ids, wider, inv.distinct⟩
    · refine ⟨new ++ [g], by simp [inv.tables], by simp [inv.ids], ?_, ?_⟩
      · intro g' member
        rcases List.mem_append.mp member with earlier | last
        · exact wider g' earlier
        · rw [List.mem_singleton.mp last]
          exact ⟨i, by simp, grant.mono rfl above.ids (le_refl _)⟩
      · rw [List.map_append, List.nodup_append]
        refine ⟨inv.distinct, by simp, ?_⟩
        intro id earlier id' last
        obtain ⟨g', member, rfl⟩ := List.mem_map.mp earlier
        rw [List.map_singleton, List.mem_singleton] at last
        obtain ⟨k, _, old⟩ := inv.granted g' member
        rw [last]
        exact old.fresh.ne grant.fresh (le_refl _)
  · rintro done state low high grown ⟨new, inv⟩
    refine ⟨new, { inv with granted := fun g member => ?_ }⟩
    obtain ⟨k, inside, grant⟩ := inv.granted g member
    exact ⟨k, inside, grant.mono rfl (le_refl _) grown.ids⟩

/-- The checks of an answer that its effect records. -/
theorem matchPrompt_returns {u : Unit} (h : Returns c lo (matchPrompt peer request p) u hi) :
    (request.get "prompt_token" ≠ "" ∧
      c.platform.hash (request.get "prompt_token") = p.row.token) ∧
    (p.row.uiOwner = peer.identity ∧ p.row.uiInstance = peer.instance) ∧
    ((p.typed || p.selected) = true → p.pending.get "_prompt_locale" ≠ "" ∧
      request.get "locale" = p.pending.get "_prompt_locale") ∧
    (p.selected = true → Approval.sameContext p.pending request = true) ∧
    (request.get "decision" = "ALLOWED" ∨ request.get "decision" = "DENIED") := by
  obtain ⟨digest, hashed, h⟩ := h.bind
  obtain ⟨⟨present, same, owner, «instance»⟩, h⟩ := h.guard
  obtain ⟨locale, h⟩ := h.guard
  obtain ⟨context, h⟩ := h.guard
  obtain ⟨decision, h⟩ := h.guard
  rw [hash_returns hashed] at same
  exact ⟨⟨present, same⟩, ⟨owner, «instance»⟩, locale, context, decision⟩

/-- What a successful answer commits. -/
structure Answer (f : Frame) (d : Database) (peer : Peer) (request : Message) (p : Display)
    (outcome : Outcome) (new : List Grant) (state : RequestState) (payload : Message) : Prop where
  answered : Answered f d peer request p new state
  tables : outcome.tables = Answered.after d p new state payload
  grants : outcome.newGrants = new.map (·.id)
  request : outcome.newRequest = p.row.id
  retains : Retains p payload

theorem answerPrompt_returns {outcome : Outcome} (displayed : Displayed d p)
    (rows : p.rows = if p.selected then
      (List.range p.count).filter fun i => p.pending.get (promptRow i) == "1"
      else List.range p.count) (h : Returns c lo (answerPrompt d peer request p) outcome hi) :
    ∃ new state payload, Answer (frame c lo hi) d peer request p outcome new state payload := by
  obtain ⟨matched, h⟩ := h.skip
  obtain ⟨⟨current, _⟩, _, h⟩ := h.bind
  obtain ⟨⟨granted, ids⟩, inserted, h⟩ := h.bind
  obtain ⟨⟨reevaluated, _⟩, _, h⟩ := h.bind
  obtain rfl := h.of_pure
  obtain ⟨token, ui, locale, context, decision⟩ := matchPrompt_returns matched
  have inserts : ∃ new, Granted (frame c lo hi) d p (responseMode request p) p.rows (granted, ids)
      new ∧ (new ≠ [] → responseMode request p ∈ ["ONCE", "SESSION", "TIMED", "PERSISTENT"]) ∧
      (request.get "decision" = "ALLOWED" ∨ request.get "decision" = "DENIED" ∧ new = []) := by
    rcases inserted.ite with ⟨allowed, inserted⟩ | ⟨refused, inserted⟩
    · obtain ⟨known, new, inv⟩ := insertGrants_returns inserted
      exact ⟨new, inv, fun _ => known, Or.inl allowed⟩
    · rw [← inserted.of_pure]
      exact ⟨[], ⟨by simp, rfl, by simp, by simp⟩, by simp,
        Or.inr ⟨decision.resolve_left refused, rfl⟩⟩
  obtain ⟨new, inv, known, decision⟩ := inserts
  obtain ⟨rfl, rfl⟩ : granted = _ ∧ ids = _ := ⟨inv.tables, inv.ids⟩
  refine ⟨new, _, _, ⟨displayed, rows, token, ui, locale, context, ?_, known, inv.granted,
    inv.distinct⟩, rfl, rfl, rfl, ?_⟩
  rotate_left
  · exact finalPayload_retains p _ _ _
  rcases decision with allowed | ⟨denied, none⟩
  · refine Or.inl ⟨allowed, ?_⟩
    rw [allowed, finalState, if_pos rfl]
    split
    · exact Or.inl rfl
    · exact Or.inr rfl
  · exact Or.inr ⟨denied, by rw [denied]; rfl, none⟩

theorem prompt_effect {respond : Bool} {outcome : Outcome}
    (h : Returns c lo (prompt d peer request respond) outcome hi) :
    Effect (frame c lo hi) d (.prompt peer request respond) outcome.reply outcome.tables := by
  obtain ⟨p, shown, h⟩ := h.bind
  obtain ⟨displayed, every, bounded, rows⟩ := display_returns shown
  rcases h.ite with ⟨rfl, h⟩ | ⟨gets, h⟩
  · obtain ⟨new, state, payload, answer⟩ := answerPrompt_returns displayed (rows rfl) h
    rw [answer.tables]
    exact .answer answer.answered answer.retains
  · rw [Bool.not_eq_true] at gets
    subst gets
    exact getPrompt_effect displayed every bounded h

end Consent.Repository
