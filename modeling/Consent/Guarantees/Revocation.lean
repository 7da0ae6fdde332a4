import Consent.Guarantees.Once
import Consent.Repository.Lineage

/-!
Revocation is complete and permanent. A revoked grant stays revoked while its row lives,
and a row that a link names is never deleted. A receipt loses its links only when it is
invalid, and the links of artifacts are never deleted, so whatever rests on a revoked
grant is refused from then on.
-/
namespace Consent.Repository
open Profile
open Act (Returns)

/-- The artifact rests on the grant, through any number of derivations. -/
inductive Database.Stems (d : Database) : String → String → Prop where
  | source {artifact grant : String} (edge : (⟨artifact, grant⟩ : ArtifactSource) ∈ d.artifactGrants) :
      Stems d artifact grant
  | derived {child parent grant : String}
      (link : (⟨child, parent⟩ : ArtifactParent) ∈ d.artifactParents) (rests : Stems d parent grant) :
      Stems d child grant

/-- The receipt that a repeated `AUTHORIZE` finds. -/
def priorReceipt (d : Database) (peer : Peer) (request : Message) : Option Authorization :=
  d.authorizations.find? fun a => decide (a.enforcer = peer.identity) &&
    decide (a.operation = request.get "operation_id") && decide (a.step = request.get "step_id")

/-- The artifact that a repeated `data_register` finds. -/
def priorArtifact (d : Database) (peer : Peer) (request : Message) : Option Artifact :=
  d.artifacts.find? fun prior => decide (prior.receipt = request.get "receipt") &&
    decide (prior.holder = peer.identity)

section
variable {P : Platform} {log : List Entry} {now : Ledger} {e : Entry}

/-- Sources are materialised: a derived artifact has a link to every grant it rests on. -/
theorem Lineage.stems {n : Nat} {d : Database} (lineage : Lineage P n d) {artifact grant : String}
    (rests : d.Stems artifact grant) : (⟨artifact, grant⟩ : ArtifactSource) ∈ d.artifactGrants := by
  induction rests with
  | source edge => exact edge
  | @derived child parent grant link _ ih =>
    exact (lineage.union child (fun alone => alone parent link) grant).mpr ⟨parent, link, ih⟩

/-- What every later transaction keeps holds from an entry on. -/
theorem Commits.since {I : Ledger → Prop} (run : Commits P log now) (member : e ∈ log)
    (start : ∀ {t : Ledger}, t.tables = e.after → Sound P t.ids t.tables → I t)
    (keeps : ∀ {s e t}, Sound P s.ids s.tables → Committed P s e t → I s → I t) : I now := by
  obtain ⟨_, _, s, t, _, first, step, rest⟩ := run.entry member
  have sound := step.sound first.sound
  exact (rest.stable (I := fun t => Sound P t.ids t.tables ∧ I t)
    (fun ⟨sound, holds⟩ step => ⟨step.sound sound, keeps sound step holds⟩)
    ⟨sound, start step.after.symm sound⟩).2

/-- A source of a receipt stays until the receipt is invalid, and then it never stands again. -/
theorem Commits.source_since (run : Commits P log now) (member : e ∈ log) {edge : ReceiptSource}
    (stored : edge ∈ e.after.authorizationGrants) :
    edge ∈ now.tables.authorizationGrants ∨ now.tables.Void edge.receipt := by
  refine (run.since (I := fun t => P.Drawn 0 t.ids edge.receipt ∧
    (edge ∈ t.tables.authorizationGrants ∨ t.tables.Void edge.receipt)) member ?_ ?_).2
  · intro t after sound
    rw [after]
    rw [after] at sound
    obtain ⟨a, inside, same⟩ := List.mem_map.mp (sound.linked.receipts edge stored)
    exact ⟨same ▸ sound.known.authorizations a inside, Or.inl stored⟩
  · rintro s e t sound step ⟨drawn, holds⟩
    have effect := step.effect sound.keyed
    refine ⟨drawn.mono (le_refl _) step.later, ?_⟩
    rcases holds with here | void
    · exact effect.source_kept here
    · refine Or.inr fun a inside same => ?_
      rcases effect.new_receipt inside with ⟨old, before, ages⟩ | ⟨_, _, _, _, issued, _⟩
      · by_contra valid
        have earlier := ages.valid (by simpa using valid)
        rw [void old before (ages.id.symm.trans same)] at earlier
        cases earlier
      · have fresh := issued.fresh
        rw [Frame.Fresh, step.platform] at fresh
        exact absurd same.symm (drawn.ne fresh step.start)

/-- A source of an artifact stays while the artifact does. -/
theorem Commits.artifact_since (run : Commits P log now) (member : e ∈ log) {edge : ArtifactSource}
    (stored : edge ∈ e.after.artifactGrants) :
    edge ∈ now.tables.artifactGrants ∨ edge.artifact ∉ now.tables.artifacts.map Artifact.id := by
  refine (run.since (I := fun t => P.Drawn 0 t.ids edge.artifact ∧
    (edge ∈ t.tables.artifactGrants ∨
      edge.artifact ∉ t.tables.artifacts.map Artifact.id)) member ?_ ?_).2
  · intro t after sound
    rw [after]
    rw [after] at sound
    obtain ⟨a, inside, same⟩ := List.mem_map.mp (sound.linked.artifacts edge stored)
    exact ⟨same ▸ sound.known.artifacts a inside, Or.inl stored⟩
  · rintro s e t sound step ⟨drawn, holds⟩
    refine ⟨drawn.mono (le_refl _) step.later, ?_⟩
    rcases holds with here | absent
    · cases (step.effect sound.keyed).artifacts with
      | fresh same =>
        rw [same]
        exact Or.inr (by simp [Database.fresh])
      | kept _ sources _ => exact Or.inl (sources ▸ here)
      | acquired _ after =>
        rw [after]
        exact Or.inl (List.mem_append_left _ here)
      | derived derived after =>
        obtain rfl := step.platform
        obtain ⟨extra, _, _, final⟩ := derived.tables (sound.known.unused step.start)
        rw [after, final]
        exact Or.inl (List.mem_append_left _ here)
    · refine Or.inr fun inside => ?_
      obtain ⟨a, found, same⟩ := List.mem_map.mp inside
      rcases (step.evolves sound).artifacts a found with ⟨old, before, loses⟩ | fresh
      · have id : a.id = old.id := by rw [loses.1]
        exact absent (same ▸ id ▸ List.mem_map_of_mem before)
      · exact drawn.ne fresh (le_refl _) same.symm

end

/-! ### What rests on a revoked grant is refused -/

/-- Every row of the grant is revoked. -/
def Database.Retired (d : Database) (grant : String) : Prop :=
  ∀ g ∈ d.grants, g.id = grant → g.revoked = true

section
variable {σ ε : Type} [Host σ ε] {c : Context ε} {lo hi : Progress σ ε} {d : Database} {grant : String}

theorem receiptValid_refused {receipt : String} (linked : Linked d) (retired : d.Retired grant)
    (rests : (⟨receipt, grant⟩ : ReceiptSource) ∈ d.authorizationGrants ∨ d.Void receipt) :
    ¬ Returns c lo (receiptValid d receipt) true hi := by
  intro h
  obtain ⟨a, time, found, valid, _, sources⟩ := receiptValid_returns h
  obtain ⟨stored, same⟩ := findAuthorization_mem found
  rcases rests with edge | void
  · obtain ⟨g, inside, name⟩ := List.mem_map.mp (linked.grants _ edge)
    have live := (sources _ edge rfl g inside name).1
    rw [retired g inside name] at live
    cases live
  · rw [void a stored same] at valid
    cases valid

theorem provenance_refused {peer : Peer} {request : Message} {artifact : String} {n : Nat}
    {P : Platform} (sound : Sound P n d) (retired : d.Retired grant)
    (rests : (⟨artifact, grant⟩ : ArtifactSource) ∈ d.artifactGrants ∨
      artifact ∉ d.artifacts.map Artifact.id) :
    ¬ Returns c lo (validateArtifactProvenance d peer request artifact) () hi := by
  intro h
  obtain ⟨a, _, found, _, _, _, _, _, sources⟩ := validateArtifactProvenance_returns h
  obtain ⟨stored, same⟩ := findArtifact_mem found
  rcases rests with edge | absent
  · obtain ⟨g, inside, name⟩ := List.mem_map.mp (sound.linked.artifactGrants _ edge)
    obtain ⟨r, defined, id⟩ := List.mem_map.mp (sound.linked.definitions g inside)
    have joined : (g, r) ∈ provenance d artifact := mem_provenance.mpr ⟨_, edge, rfl,
      name ▸ Table.find?_eq_some_of_mem sound.keyed.grants inside,
      id ▸ Table.find?_eq_some_of_mem sound.keyed.definitions defined⟩
    have live := (sources g r joined).1
    rw [retired g inside name] at live
    cases live
  · exact absent (same ▸ List.mem_map_of_mem stored)

theorem evaluate_refused {peer : Peer} {request : Message} {outcome : Outcome} {a : Authorization}
    (mode : request.getD "mode" "QUERY" = "AUTHORIZE") (prior : priorReceipt d peer request = some a)
    (void : ∀ {lo hi : Progress σ ε}, ¬ Returns c lo (receiptValid d a.id) true hi) :
    ¬ Returns c lo (evaluate d peer request false) outcome hi := by
  intro h
  obtain ⟨_, h⟩ := h.skip
  obtain ⟨_, h⟩ := h.skip
  obtain ⟨_, _, h⟩ := h.bind
  obtain ⟨_, h⟩ := h.guard
  obtain ⟨_, _, h⟩ := h.bind
  obtain ⟨_, h⟩ := h.skip
  obtain ⟨fingerprint, _, h⟩ := h.bind
  obtain ⟨retry, retried, _⟩ := h.bind
  simp only [mode, Bool.not_false, BEq.rfl, Bool.and_self, if_true] at retried
  obtain ⟨_, retried⟩ := retried.guard
  rw [show d.authorizations.find? _ = some a from prior] at retried
  obtain ⟨_, retried⟩ := retried.guard
  obtain ⟨stands, valid, retried⟩ := retried.bind
  obtain ⟨holds, _⟩ := retried.guard
  exact void (holds ▸ valid)

theorem registerData_refused {peer : Peer} {request : Message} {outcome : Outcome}
    (void : ∀ {lo hi : Progress σ ε}, ¬ Returns c lo (receiptValid d (request.get "receipt")) true hi) :
    ¬ Returns c lo (registerData d peer request) outcome hi := by
  intro h
  obtain ⟨stands, valid, h⟩ := h.bind
  obtain ⟨holds, _⟩ := h.guard
  exact void (holds ▸ valid)

end

/-- Once a grant is revoked, by whatever transaction, then at every later point of the run it
is not selected, the receipts it is a source of do not stand, neither as a retry nor for
data, and the artifacts that rest on it can be neither used, nor registered again, nor
derived from. -/
theorem revocation_complete_and_permanent {σ ε : Type} [Host σ ε] {P : Platform} {w : World σ ε}
    {log : List Entry} {d : Database} (reachable : Reachable P w) (point : Point w log d)
    {e : Entry} (member : e ∈ log) {g : Grant} (stored : g ∈ e.after.grants)
    (revoked : g.revoked = true) :
    (∀ (c : Context ε) (lo hi : Progress σ ε) d' peer request enforce reply selected,
      Evaluated log d d' →
      Returns c lo (checkConditions d' peer request enforce) (reply, selected) hi →
      g.id ∉ selected) ∧
    (∀ receipt, SourceEver log receipt g.id →
      ∀ (c : Context ε) (lo hi : Progress σ ε) peer request outcome incarnation,
        ¬ Returns c lo (receiptValid d receipt) true hi ∧
        (request.getD "mode" "QUERY" = "AUTHORIZE" →
          (priorReceipt d peer request).map Authorization.id = some receipt →
          ¬ Returns c lo (evaluate d peer request false) outcome hi) ∧
        (request.get "method" = "data_register" → request.get "receipt" = receipt →
          ¬ Returns c lo (data d peer request incarnation) outcome hi)) ∧
    (∀ artifact, (∃ e ∈ log, e.after.Stems artifact g.id) →
      ∀ (c : Context ε) (lo hi : Progress σ ε) peer request outcome incarnation,
        Returns c lo (data d peer request incarnation) outcome hi →
        (request.get "method" = "data_check" → request.get "artifact" ≠ artifact) ∧
        (request.get "method" = "data_register" →
          (priorArtifact d peer request).map Artifact.id ≠ some artifact) ∧
        (request.get "method" = "data_register_derived" →
          ∃ count, number request "count" 0 1 16 = .ok count ∧
            ∀ i < count.toNat, request.get ("parent" ++ toString i) ≠ artifact)) := by
  obtain ⟨ids, run⟩ := reachable.commits point
  obtain ⟨n, past⟩ := run.past member
  have sound := run.sound
  have retired : d.Retired g.id := fun g' inside same =>
    (past.grant stored inside same).revoked revoked
  refine ⟨?_, ?_, ?_⟩
  · intro c lo hi d' peer request enforce reply selected evaluated returned chosen
    obtain ⟨g', inside, same, live, _⟩ := (checkConditions_selected returned).1 g.id chosen
    obtain ⟨new, grants, _, fresh⟩ := evaluated.grants
    rw [grants] at inside
    rcases List.mem_append.mp inside with old | added
    · rw [retired g' old same] at live
      cases live
    · exact fresh g' added e member (same ▸ List.mem_map_of_mem stored)
  · rintro receipt ⟨e', logged, edge⟩ c lo hi peer request outcome incarnation
    have void : ∀ {lo hi : Progress σ ε}, ¬ Returns c lo (receiptValid d receipt) true hi :=
      receiptValid_refused sound.linked retired (run.source_since logged edge)
    refine ⟨void, fun mode prior => ?_, fun method named returned => ?_⟩
    · obtain ⟨a, found, rfl⟩ := Option.map_eq_some_iff.mp prior
      exact evaluate_refused mode found void
    · obtain ⟨_, _, work⟩ := data_uses returned (by simp [method])
      rw [if_pos method] at work
      exact registerData_refused (named ▸ void) work
  · rintro artifact ⟨e', logged, stems⟩ c lo hi peer request outcome incarnation returned
    obtain ⟨_, _, s, t, _, first, step, _⟩ := run.entry logged
    have lineage := (Commits.lineage (.cons first step) : Lineage P t.ids t.tables)
    rw [← step.after] at lineage
    have rests := run.artifact_since logged (lineage.stems stems)
    have refused : ∀ {lo hi : Progress σ ε},
        ¬ Returns c lo (validateArtifactProvenance d peer request artifact) () hi :=
      provenance_refused sound retired rests
    refine ⟨fun method named => ?_, fun method prior => ?_, fun method => ?_⟩
    · obtain ⟨_, _, work⟩ := data_uses returned (by simp [method])
      rw [if_neg (by simp [method]), if_neg (by simp [method])] at work
      exact refused (named ▸ work.skip.1)
    · obtain ⟨_, _, work⟩ := data_uses returned (by simp [method])
      rw [if_pos method] at work
      obtain ⟨stands, valid, work⟩ := work.bind
      obtain ⟨holds, _⟩ := work.guard
      rw [holds] at valid
      obtain ⟨a, found, rfl⟩ := Option.map_eq_some_iff.mp prior
      obtain ⟨x, _, receipt, live, _⟩ := receiptValid_returns valid
      obtain ⟨kept, name⟩ := findAuthorization_mem receipt
      have inside := List.mem_of_find?_eq_some found
      have matching := List.find?_some found
      simp only [Bool.and_eq_true, decide_eq_true_eq] at matching
      -- The receipt of the artifact stands, so it still has the artifact's sources.
      have edge : (⟨x.id, g.id⟩ : ReceiptSource) ∈ d.authorizationGrants := by
        refine run.lineage.bound a inside x kept live (matching.1.trans name.symm) g.id ?_
        exact rests.resolve_right fun absent => absent (List.mem_map_of_mem inside)
      exact receiptValid_refused sound.linked retired (Or.inl (name ▸ edge)) valid
    · obtain ⟨_, _, work⟩ := data_uses returned (by simp [method])
      rw [if_neg (by simp [method]), if_pos method] at work
      obtain ⟨count, counted, parents⟩ := deriveData_parents work
      exact ⟨count, counted, fun i below same => refused (same ▸ parents i below)⟩

/-- The grant that the sample run revokes never covers anything again. -/
theorem revocation_in_sample :
    ∃ g : Grant, g.revoked = true ∧
      (∀ receipt, SourceEver (Sample.world Sample.steps).progress.commits receipt g.id →
        ∀ (c : Context ProfileStep) (lo hi : Progress ProfileState ProfileStep),
          ¬ Returns c lo (receiptValid (Sample.world Sample.steps).members.tables receipt) true hi) := by
  have reachable := Sample.reachable Sample.steps
  obtain ⟨ids, run⟩ := reachable.commits reachable.now
  obtain ⟨e, member, g, stored, revoked⟩ := run.now
    (H := fun d => ∃ g ∈ d.grants, g.revoked = true) (by simp [Database.fresh])
    (by simpa using Sample.facts.2.2.2.2)
  obtain ⟨_, receipts, _⟩ := revocation_complete_and_permanent reachable reachable.now member stored
    revoked
  exact ⟨g, revoked, fun receipt source c lo hi =>
    (receipts receipt source c lo hi Sample.peer ∅ ⟨Database.fresh, ∅, .none, [], ""⟩ "").1⟩

end Consent.Repository
