import Consent.Guarantees.Once
import Consent.Repository.Lineage

/-!
Derived data inherits every restriction of its ancestors. The parent of an artifact has
an earlier id, so the relation has no cycle and an induction over ids carries what holds
of one derivation along every chain; what an original artifact may last is fixed by the
transaction that acquired it.
-/
namespace Consent.Repository
open Profile

/-- The second artifact is an ancestor of the first, at any depth. -/
def Database.Ancestor (d : Database) : String → String → Prop :=
  Relation.TransGen fun child parent => (⟨child, parent⟩ : ArtifactParent) ∈ d.artifactParents

/-- The transaction acquired the artifact: it expires when the retention of a definition that
its receipt names is over, counted from the creation of the receipt. -/
def Entry.Acquires (e : Entry) (a : Artifact) : Prop :=
  ∃ receipt ∈ e.before.authorizations, receipt.id = a.receipt ∧
    ∃ (i : Nat) (count retention : Int) (config : Message),
      number receipt.payload "count" 0 1 16 = .ok count ∧ i < count.toNat ∧
      e.before.activeConfig (receipt.payload.get (row i "definition")) = some config ∧
      number config "retention_ms" 0 0 kDayMs = .ok retention ∧
      a.expires = receipt.created + retention

section
variable {P : Platform} {log : List Entry} {s t : Ledger} {e : Entry} {n : Nat} {d : Database}

/-- Every ancestor is a row of the table. -/
theorem Linked.ancestor (linked : Linked d) {child ancestor : String}
    (h : d.Ancestor child ancestor) : ancestor ∈ d.artifacts.map Artifact.id := by
  cases h with
  | single link => exact linked.parents _ link
  | tail _ link => exact linked.parents _ link

/-- Ids decrease from child to parent. -/
theorem Lineage.ancestor_order (lineage : Lineage P n d) {child ancestor : String}
    (h : d.Ancestor child ancestor) :
    ∃ i j, i < j ∧ ancestor = P.ids.id i ∧ child = P.ids.id j := by
  induction h with
  | single link => exact lineage.order _ link
  | tail _ link ih =>
    obtain ⟨i, j, less, parent, child⟩ := lineage.order _ link
    obtain ⟨i', j', less', middle, first⟩ := ih
    have same := P.ids.injective (child.symm.trans middle)
    exact ⟨i, j', by omega, parent, first⟩

theorem Lineage.acyclic (lineage : Lineage P n d) (id : String) : ¬ d.Ancestor id id := by
  intro cycle
  obtain ⟨i, j, less, left, right⟩ := lineage.ancestor_order cycle
  have same := P.ids.injective (left.symm.trans right)
  omega

/-- A descendant keeps the restrictions of every ancestor. -/
theorem Lineage.ancestor_within (lineage : Lineage P n d) (sound : Sound P n d) {a p : Artifact}
    (stored : a ∈ d.artifacts) (inside : p ∈ d.artifacts) (h : d.Ancestor a.id p.id) :
    a.Within p := by
  suffices every : ∀ id, d.Ancestor a.id id → ∀ p ∈ d.artifacts, p.id = id → a.Within p from
    every p.id h p inside rfl
  intro id chain
  induction chain with
  | single link => exact fun p inside same => lineage.within _ link a stored p inside rfl same
  | tail _ link ih =>
    intro p inside same
    obtain ⟨m, known, name⟩ := List.mem_map.mp (sound.linked.children _ link)
    exact (ih m known name).trans (lineage.within _ link m known p inside name same)

/-- The sources of a derived artifact are those of its original ancestors. -/
theorem Lineage.original_union (lineage : Lineage P n d) {child : String}
    (derived : ¬ d.Original child) (g : String) :
    (⟨child, g⟩ : ArtifactSource) ∈ d.artifactGrants ↔
      ∃ ancestor, d.Ancestor child ancestor ∧ d.Original ancestor ∧
        (⟨ancestor, g⟩ : ArtifactSource) ∈ d.artifactGrants := by
  have id : ∃ j, child = P.ids.id j := by
    obtain ⟨parent, link⟩ := not_forall_not.mp derived
    obtain ⟨_, j, _, _, same⟩ := lineage.order _ link
    exact ⟨j, same⟩
  obtain ⟨j, rfl⟩ := id
  -- A parent is original, or it is derived and has an earlier id.
  induction j using Nat.strong_induction_on with
  | _ j ih =>
    rw [lineage.union _ derived g]
    constructor
    · rintro ⟨parent, link, edge⟩
      by_cases original : d.Original parent
      · exact ⟨parent, .single link, original, edge⟩
      · obtain ⟨i, j', less, rfl, child⟩ := lineage.order _ link
        have same : j = j' := P.ids.injective child
        obtain ⟨ancestor, chain, top, source⟩ := (ih i (by omega) original).mp edge
        exact ⟨ancestor, chain.head link, top, source⟩
    · rintro ⟨ancestor, chain, top, source⟩
      obtain ⟨parent, link, rest⟩ := Relation.TransGen.head'_iff.mp chain
      refine ⟨parent, link, ?_⟩
      rcases Relation.reflTransGen_iff_eq_or_transGen.mp rest with rfl | above
      · exact source
      · have original : ¬ d.Original parent := by
          intro alone
          obtain ⟨next, upper, _⟩ := Relation.TransGen.head'_iff.mp above
          exact alone next upper
        obtain ⟨i, j', less, rfl, child⟩ := lineage.order _ link
        have same : j = j' := P.ids.injective child
        exact (ih i (by omega) original).mpr ⟨ancestor, above, top, source⟩

/-- The artifacts without parents that an entry leaves were acquired by it or there before. -/
theorem acquires_step (run : Commits P log s)
    (before : ∀ a ∈ s.tables.artifacts, s.tables.Original a.id → ∃ e ∈ log, e.Acquires a)
    (step : Committed P s e t) :
    ∀ a ∈ t.tables.artifacts, t.tables.Original a.id → ∃ e' ∈ e :: log, e'.Acquires a := by
  have sound := run.sound
  have earlier : ∀ a ∈ s.tables.artifacts, s.tables.Original a.id →
      ∃ e' ∈ e :: log, e'.Acquires a := fun a stored original => by
    obtain ⟨e', member, acquires⟩ := before a stored original
    exact ⟨e', by simp [member], acquires⟩
  intro a' member original
  cases (step.effect sound.keyed).artifacts with
  | fresh same =>
    rw [same] at member
    cases member
  | kept artifacts _ parents =>
    obtain ⟨a, stored, loses⟩ := Table.forall₂_exists_left artifacts member
    rw [Database.Original, parents, loses.1] at original
    obtain ⟨e', logged, acquires⟩ := earlier a stored original
    rw [loses.1]
    exact ⟨e', logged, acquires⟩
  | @acquired peer request config a receipt retention acquired after =>
    rw [after] at member original
    rcases List.mem_append.mp member with old | new
    · exact earlier a' old original
    · obtain rfl := List.mem_singleton.mp new
      obtain ⟨i, count, counted, below, active⟩ := acquired.definition
      obtain ⟨level, same⟩ := acquired.artifact
      have named : receipt.id = a'.receipt := by rw [same]; rfl
      have expires : a'.expires = receipt.created + retention := by rw [same]; rfl
      refine ⟨e, by simp, receipt, ?_, named, i, count, retention, config, counted, below, ?_,
        acquired.retention, expires⟩
      · rw [step.before]
        exact List.mem_of_find?_eq_some acquired.found
      · rw [step.before]
        exact active
  | @derived a parents derived after =>
    obtain rfl := step.platform
    obtain ⟨extra, _, _, final⟩ := derived.tables (sound.known.unused step.start)
    rw [after, final] at member original
    rcases List.mem_append.mp member with old | new
    · exact earlier a' old fun parent link => original parent (List.mem_append_left _ link)
    · obtain rfl := List.mem_singleton.mp new
      obtain ⟨first, rest, rfl⟩ := List.exists_cons_of_ne_nil derived.some
      refine absurd (List.mem_append_right _ ?_) (original first)
      simp

theorem Commits.acquires (run : Commits P log s) :
    ∀ a ∈ s.tables.artifacts, s.tables.Original a.id → ∃ e ∈ log, e.Acquires a := by
  refine run.invariant (I := fun log s => ∀ a ∈ s.tables.artifacts, s.tables.Original a.id →
    ∃ e ∈ log, e.Acquires a) (fun a member => by cases member) ?_
  exact fun run before step => acquires_step run before step

end

/-- Derived data inherits every restriction of its ancestors. -/
theorem derived_inherits_restrictions {σ ε : Type} [Host σ ε] {P : Platform} {w : World σ ε}
    {log : List Entry} {d : Database} (reachable : Reachable P w) (point : Point w log d) :
    (∀ a ∈ d.artifacts, ∀ id, d.Ancestor a.id id → ∃ p ∈ d.artifacts, p.id = id ∧ a.Within p) ∧
    (∀ a ∈ d.artifacts, a.receipt = "derived:" ++ a.id ↔ ¬ d.Original a.id) ∧
    (∀ child, ¬ d.Original child → ∀ g,
      ((⟨child, g⟩ : ArtifactSource) ∈ d.artifactGrants ↔
        ∃ parent, (⟨child, parent⟩ : ArtifactParent) ∈ d.artifactParents ∧
          (⟨parent, g⟩ : ArtifactSource) ∈ d.artifactGrants) ∧
      ((⟨child, g⟩ : ArtifactSource) ∈ d.artifactGrants ↔
        ∃ ancestor, d.Ancestor child ancestor ∧ d.Original ancestor ∧
          (⟨ancestor, g⟩ : ArtifactSource) ∈ d.artifactGrants)) ∧
    (∀ a ∈ d.artifacts, ∃ g, (⟨a.id, g⟩ : ArtifactSource) ∈ d.artifactGrants) ∧
    (∀ id, ¬ d.Ancestor id id) ∧
    (∀ p ∈ d.artifacts, d.Original p.id → (∃ e ∈ log, e.Acquires p) ∧
      ∀ a ∈ d.artifacts, d.Ancestor a.id p.id → a.expires ≤ p.expires) := by
  obtain ⟨ids, run⟩ := reachable.commits point
  have sound := run.sound
  have lineage := run.lineage
  refine ⟨fun a stored id chain => ?_, fun a stored => ⟨fun derived => ?_, fun derived => ?_⟩,
    fun child derived g => ⟨lineage.union child derived g, lineage.original_union derived g⟩,
    lineage.sources, lineage.acyclic, fun p inside original =>
      ⟨run.acquires p inside original, fun a stored chain =>
        (lineage.ancestor_within sound stored inside chain).expires⟩⟩
  · obtain ⟨p, inside, rfl⟩ := List.mem_map.mp (sound.linked.ancestor chain)
    exact ⟨p, inside, rfl, lineage.ancestor_within sound stored inside chain⟩
  · rcases lineage.origin a stored with ⟨drawn, _⟩ | ⟨_, linked⟩
    · exact absurd derived (drawn.ne_derived a.id)
    · exact linked
  · rcases lineage.origin a stored with ⟨_, original⟩ | ⟨receipt, _⟩
    · exact absurd original derived
    · exact receipt

/-- In the sample run the derived artifact keeps the restrictions of its parent. -/
theorem derived_inherits_in_sample :
    (Sample.world (Sample.steps.take 8)).members.tables.artifactParents = [⟨"11", "10"⟩] ∧
    ∀ a ∈ (Sample.world (Sample.steps.take 8)).members.tables.artifacts, ∀ id,
      (Sample.world (Sample.steps.take 8)).members.tables.Ancestor a.id id →
      ∃ p ∈ (Sample.world (Sample.steps.take 8)).members.tables.artifacts, p.id = id ∧ a.Within p :=
  ⟨Sample.facts.2.2.2.1, (derived_inherits_restrictions (Sample.reachable _)
    (Sample.reachable (Sample.steps.take 8)).now).1⟩

end Consent.Repository
