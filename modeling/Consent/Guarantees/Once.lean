import Consent.Repository.Integrity

/-!
A `ONCE` grant is consumed at most once. Issuing a receipt uses its sources up; a used
grant is never selected again, and the evidence survives retries, revocation, compaction
and restart, because a grant row only ages.
-/
namespace Consent.Repository
open Profile
open Act (Returns)

/-- At some point of the history the grant was a source of the receipt. -/
def SourceEver (log : List Entry) (receipt grant : String) : Prop :=
  ∃ e ∈ log, (⟨receipt, grant⟩ : ReceiptSource) ∈ e.after.authorizationGrants

/-- At some point of the history the id was that of a `ONCE` grant. -/
def OnceEver (log : List Entry) (grant : String) : Prop :=
  ∃ e ∈ log, ∃ g ∈ e.after.grants, g.id = grant ∧ g.mode = "ONCE"

/-- The uses that a grant of its mode may have left. -/
def Grant.Remains (g : Grant) : Prop :=
  (g.mode ≠ "ONCE" → g.remaining = -1) ∧ (g.mode = "ONCE" → g.remaining = 0 ∨ g.remaining = 1)

theorem Grant.Ages.remains {g g' : Grant} (h : g.Ages g') (remains : g.Remains) : g'.Remains := by
  have mode : g'.mode = g.mode := by rw [h.same]
  unfold Grant.Remains at remains ⊢
  rw [mode]
  rcases h.used with same | ⟨once, low, less⟩
  · rw [same]
    exact remains
  · refine ⟨fun other => absurd once other, fun _ => ?_⟩
    rcases remains.2 once with zero | one <;> omega

theorem NewGrant.remains {f : Frame} {p : Display} {mode : String} {i : Nat} {g : Grant}
    (h : NewGrant f p mode i g) : g.Remains := by
  refine ⟨fun other => ?_, fun once => Or.inr ?_⟩
  · rw [h.remaining, if_neg (h.period ▸ other)]
  · rw [h.remaining, if_pos (h.period ▸ once)]

section
variable {P : Platform} {log : List Entry} {s t : Ledger} {e : Entry}

theorem SourceEver.known (run : Commits P log s) {receipt grant : String}
    (h : SourceEver log receipt grant) : P.Drawn 0 s.ids grant := by
  obtain ⟨e, member, edge⟩ := h
  obtain ⟨n, past⟩ := run.past member
  obtain ⟨g, stored, rfl⟩ := List.mem_map.mp (past.sound.linked.grants _ edge)
  exact (past.sound.known.grants g stored).mono (le_refl _) past.earlier

/-- A source that an entry adds is one of a receipt it issues. -/
theorem SourceEver.cons (run : Commits P log s) (step : Committed P s e t) {receipt grant : String}
    (h : SourceEver (e :: log) receipt grant) :
    SourceEver log receipt grant ∨
      ∃ peer request a grants, e.call = .evaluate peer request false ∧
        Issued e.frame s.tables peer request a grants ∧ t.tables = Issued.after s.tables a grants ∧
        receipt = a.id ∧ grant ∈ grants := by
  obtain ⟨e', member, edge⟩ := h
  rcases List.mem_cons.mp member with rfl | earlier
  · rw [step.after] at edge
    rcases (step.effect run.sound.keyed).new_source edge with old | new
    · exact Or.inl (run.now (H := fun d => (⟨receipt, grant⟩ : ReceiptSource) ∈
        d.authorizationGrants) (by simp [Database.fresh]) old)
    · exact Or.inr new
  · exact Or.inl ⟨e', earlier, edge⟩

/-- An entry turns no known grant into a `ONCE` grant. -/
theorem OnceEver.of_cons (run : Commits P log s) (step : Committed P s e t) {grant : String}
    (known : P.Drawn 0 s.ids grant) (h : OnceEver (e :: log) grant) : OnceEver log grant := by
  obtain ⟨e', member, g, stored, rfl, once⟩ := h
  rcases List.mem_cons.mp member with rfl | earlier
  · rw [step.after] at stored
    rcases (step.effect run.sound.keyed).new_grant stored with
      ⟨old, inside, ages⟩ | ⟨peer, request, p, new, state, payload, _, answered, _, added⟩
    · have mode : old.mode = "ONCE" := by rw [← once, ages.same]
      obtain ⟨e, member, found⟩ := run.now (H := fun d => old ∈ d.grants)
        (by simp [Database.fresh]) inside
      exact ⟨e, member, old, found, ages.id.symm, mode⟩
    · obtain ⟨i, _, grant⟩ := answered.granted g added
      have fresh := grant.fresh
      rw [Frame.Fresh, step.platform] at fresh
      exact absurd rfl (known.ne fresh step.start)
  · exact ⟨e', earlier, g, stored, rfl, once⟩

/-- The mode of a grant never changes. -/
theorem OnceEver.mode (run : Commits P log s) {g : Grant} (stored : g ∈ s.tables.grants)
    (h : OnceEver log g.id) : g.mode = "ONCE" := by
  obtain ⟨e, member, old, inside, same, once⟩ := h
  obtain ⟨n, past⟩ := run.past member
  rw [(past.grant inside stored same.symm).same]
  exact once

/-- The sources of an issued receipt are grants with uses left. -/
theorem Issued.source {f : Frame} {d : Database} {peer : Peer} {request : Message}
    {a : Authorization} {grants : List String} (h : Issued f d peer request a grants)
    {grant : String} (used : grant ∈ grants) :
    ∃ g ∈ d.grants, g.id = grant ∧ g.revoked = false ∧ g.remaining ≠ 0 := by
  obtain ⟨count, _, _, covered⟩ := h.covered
  obtain ⟨i, _, _, g, _, _, stored, name, _, live, left, _⟩ :=
    Table.forall₂_exists_left covered used
  exact ⟨g, stored, name, live, left⟩

/-- What a run keeps about the uses of grants. -/
structure UsedOnce (log : List Entry) (s : Ledger) : Prop where
  remains : ∀ g ∈ s.tables.grants, g.Remains
  used : ∀ receipt, ∀ g ∈ s.tables.grants, SourceEver log receipt g.id → g.mode = "ONCE" →
    g.remaining = 0
  single : ∀ grant receipt receipt', OnceEver log grant → SourceEver log receipt grant →
    SourceEver log receipt' grant → receipt = receipt'

theorem remains_step (run : Commits P log s) (inv : UsedOnce log s) (step : Committed P s e t) :
    ∀ g ∈ t.tables.grants, g.Remains := by
  intro g member
  rcases (step.effect run.sound.keyed).new_grant member with
    ⟨old, stored, ages⟩ | ⟨peer, request, p, new, state, payload, _, answered, _, added⟩
  · exact ages.remains (inv.remains old stored)
  · obtain ⟨i, _, grant⟩ := answered.granted g added
    exact grant.remains

theorem used_step (run : Commits P log s) (inv : UsedOnce log s) (step : Committed P s e t)
    (receipt : String) (g : Grant) (member : g ∈ t.tables.grants)
    (source : SourceEver (e :: log) receipt g.id) (once : g.mode = "ONCE") : g.remaining = 0 := by
  rcases source.cons run step with before | ⟨peer, request, a, grants, _, issued, after, _, used⟩
  · rcases (step.effect run.sound.keyed).new_grant member with
      ⟨old, stored, ages⟩ | ⟨peer, request, p, new, state, payload, _, answered, _, added⟩
    · have same : g.mode = old.mode := by rw [ages.same]
      have spent := inv.used receipt old stored (ages.id ▸ before) (same ▸ once)
      rcases ages.used with kept | ⟨_, low, less⟩ <;> omega
    · -- A grant that is inserted now was no source before.
      obtain ⟨i, _, grant⟩ := answered.granted g added
      have fresh := grant.fresh
      rw [Frame.Fresh, step.platform] at fresh
      exact absurd rfl ((before.known run).ne fresh step.start)
  · have left := remains_step run inv step g member
    obtain ⟨rows, uses, final⟩ := foldl_useGrant a.id grants
      { s.tables with authorizations := s.tables.authorizations ++ [a] }
    rw [after, Issued.after, final] at member
    obtain ⟨old, stored, use⟩ := Table.forall₂_exists_left uses member
    have same : g.mode = old.mode := by rw [use.ages.same]
    have some := (inv.remains old stored).2 (same ▸ once)
    have spent := use.consumed (use.ages.id ▸ used) (same ▸ once) (by omega)
    rcases left.2 once with zero | one <;> omega

theorem single_step (run : Commits P log s) (inv : UsedOnce log s) (step : Committed P s e t)
    (grant receipt receipt' : String) (once : OnceEver (e :: log) grant)
    (left : SourceEver (e :: log) receipt grant) (right : SourceEver (e :: log) receipt' grant) :
    receipt = receipt' := by
  -- A grant with an earlier use is not selected now.
  have clash : ∀ {other peer request a grants}, Issued e.frame s.tables peer request a grants →
      grant ∈ grants → ¬ SourceEver log other grant := by
    intro other peer request a grants issued used earlier
    have before := once.of_cons run step (earlier.known run)
    obtain ⟨g, stored, rfl, _, some⟩ := issued.source used
    exact some (inv.used other g stored earlier (before.mode run stored))
  rcases left.cons run step with left | ⟨_, _, a, grants, _, issued, after, rfl, used⟩
  · rcases right.cons run step with right | ⟨_, _, a, grants, _, issued, _, rfl, used⟩
    · exact inv.single grant receipt receipt' (once.of_cons run step (left.known run)) left right
    · exact absurd left (clash issued used)
  · rcases right.cons run step with right | ⟨_, _, a', grants', _, _, after', rfl, _⟩
    · exact absurd right (clash issued used)
    · have rows := congrArg Database.authorizations (after.symm.trans after')
      obtain ⟨_, _, final⟩ := foldl_useGrant a.id grants
        { s.tables with authorizations := s.tables.authorizations ++ [a] }
      obtain ⟨_, _, final'⟩ := foldl_useGrant a'.id grants'
        { s.tables with authorizations := s.tables.authorizations ++ [a'] }
      rw [Issued.after, Issued.after, final, final'] at rows
      have same : a = a' := by simpa [Database.bump] using rows
      rw [same]

theorem Commits.usedOnce (run : Commits P log s) : UsedOnce log s := by
  refine run.invariant (I := UsedOnce) ⟨?_, ?_, ?_⟩ fun run inv step =>
    ⟨remains_step run inv step, used_step run inv step, single_step run inv step⟩
  · exact fun g member => by cases member
  · exact fun _ g member => by cases member
  · rintro _ _ _ ⟨_, member, _⟩
    cases member

/-- The sources of a receipt that an entry issues are the grants its rows selected. -/
theorem Commits.issued (run : Commits P log s) (member : e ∈ log) {a : Authorization}
    (stored : a ∈ e.after.authorizations)
    (new : a.id ∉ e.before.authorizations.map Authorization.id) :
    ∃ peer request grants, e.call = .evaluate peer request false ∧
      (∃ count, number request "count" 0 1 16 = .ok count ∧
        List.Forall₂ (CoveredBy e.frame e.before request) (List.range count.toNat) grants) ∧
      grants.Nodup ∧ e.after.authorizationGrants =
        e.before.authorizationGrants ++ grants.map fun grant => ⟨a.id, grant⟩ := by
  obtain ⟨_, _, u, v, _, first, step, _⟩ := run.entry member
  rw [step.before] at new ⊢
  rw [step.after] at stored ⊢
  rcases (step.effect first.sound.keyed).new_receipt stored with
    ⟨old, inside, ages⟩ | ⟨peer, request, grants, call, issued, after⟩
  · exact absurd (ages.id ▸ List.mem_map_of_mem inside) new
  · obtain ⟨count, counted, _, covered⟩ := issued.covered
    obtain ⟨_, _, final⟩ := foldl_useGrant a.id grants
      { u.tables with authorizations := u.tables.authorizations ++ [a] }
    refine ⟨peer, request, grants, call, ⟨count, counted, covered⟩,
      issued.distinct first.sound.keyed.grants, ?_⟩
    rw [after, Issued.after, final]
    rfl

end

/-- The tables that an operation evaluates: those it found and the grants that it has
inserted itself, whose ids no grant had before. -/
structure Evaluated (log : List Entry) (d d' : Database) : Prop where
  grants : ∃ new, d'.grants = d.grants ++ new ∧ (new.map Grant.id).Nodup ∧
    ∀ g ∈ new, ∀ e ∈ log, g.id ∉ e.after.grants.map Grant.id

/-- No grant serves twice: the uses left fit the mode, a `ONCE` grant is the source of one
receipt ever, from then on it has none left and is not selected, and no authorization
uses one grant for two rows. -/
theorem once_consumed_at_most_once {σ ε : Type} [Host σ ε] {P : Platform} {w : World σ ε}
    {log : List Entry} {d : Database} (reachable : Reachable P w) (point : Point w log d) :
    (∀ g ∈ d.grants, g.Remains) ∧
    (∀ grant receipt receipt', OnceEver log grant → SourceEver log receipt grant →
      SourceEver log receipt' grant → receipt = receipt') ∧
    (∀ g ∈ d.grants, ∀ receipt, g.mode = "ONCE" → SourceEver log receipt g.id →
      g.remaining = 0) ∧
    (∀ (c : Context ε) (lo hi : Progress σ ε) d' peer request enforce reply selected,
      Evaluated log d d' →
      Returns c lo (checkConditions d' peer request enforce) (reply, selected) hi →
      selected.Nodup ∧ ∀ grant ∈ selected, ∀ receipt, OnceEver log grant →
        ¬ SourceEver log receipt grant) ∧
    (∀ e ∈ log, ∀ a ∈ e.after.authorizations,
      a.id ∉ e.before.authorizations.map Authorization.id →
      ∃ peer request grants, e.call = .evaluate peer request false ∧
        (∃ count, number request "count" 0 1 16 = .ok count ∧
          List.Forall₂ (CoveredBy e.frame e.before request) (List.range count.toNat) grants) ∧
        grants.Nodup ∧ e.after.authorizationGrants =
          e.before.authorizationGrants ++ grants.map fun grant => ⟨a.id, grant⟩) := by
  obtain ⟨ids, run⟩ := reachable.commits point
  have inv := run.usedOnce
  refine ⟨inv.remains, inv.single, fun g stored receipt once used =>
    inv.used receipt g stored used once, ?_, fun e member a => run.issued member⟩
  intro c lo hi d' peer request enforce reply selected evaluated returned
  obtain ⟨usable, distinct⟩ := checkConditions_selected returned
  obtain ⟨new, grants, apart, fresh⟩ := evaluated.grants
  refine ⟨distinct ?_, fun grant member receipt once source => ?_⟩
  · rw [grants, List.map_append, List.nodup_append]
    refine ⟨run.sound.keyed.grants, apart, ?_⟩
    rintro _ old _ added rfl
    obtain ⟨e, member, before⟩ := run.now (H := fun d => _ ∈ d.grants.map Grant.id)
      (by simp [Database.fresh]) old
    obtain ⟨g, inserted, same⟩ := List.mem_map.mp added
    exact fresh g inserted e member (same ▸ before)
  · obtain ⟨g, stored, rfl, _, left⟩ := usable grant member
    rw [grants] at stored
    rcases List.mem_append.mp stored with old | added
    · exact left (inv.used receipt g old source (once.mode run old))
    · obtain ⟨e, member, edge⟩ := source
      obtain ⟨n, past⟩ := run.past member
      exact fresh g added e member (past.sound.linked.grants _ edge)

/-- In the sample run the approved grant is consumed by the authorized check; data rests on
it, and so does what is derived from the data; in the end it is revoked. -/
theorem Sample.facts :
    ((Sample.world (Sample.steps.take 6)).members.tables.grants.map
      fun g => (g.id, g.mode, g.remaining, g.revoked)) = [("8", "ONCE", 0, false)] ∧
    (Sample.world (Sample.steps.take 6)).members.tables.authorizationGrants = [⟨"9", "8"⟩] ∧
    ((Sample.world (Sample.steps.take 8)).members.tables.artifacts.map
      fun a => (a.id, a.state)) = [("10", .active), ("11", .active)] ∧
    (Sample.world (Sample.steps.take 8)).members.tables.artifactParents = [⟨"11", "10"⟩] ∧
    ((Sample.world Sample.steps).members.tables.grants.any fun g => g.revoked) = true := by
  decide +kernel

theorem once_consumed_in_sample :
    ((Sample.world (Sample.steps.take 6)).members.tables.grants.map
      fun g => (g.id, g.mode, g.remaining, g.revoked)) = [("8", "ONCE", 0, false)] ∧
    ∀ g ∈ (Sample.world (Sample.steps.take 6)).members.tables.grants, g.Remains :=
  ⟨Sample.facts.1, (once_consumed_at_most_once (Sample.reachable _)
    (Sample.reachable (Sample.steps.take 6)).now).1⟩

end Consent.Repository
