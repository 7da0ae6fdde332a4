import Consent.Repository.Integrity

/-!
Where artifacts and receipts come from. Each artifact is acquired under a receipt or
derived from other artifacts; its sources are copied when it is inserted and its links
are never deleted. Compaction deletes the sources of invalid receipts only.
-/
namespace Consent.Repository

section
variable {f : Frame} {d d' : Database} {call : Call} {reply : Message}

/-- What a transaction does to the artifacts: a new file, at most blocked or released
rows, an acquisition or a derivation. -/
inductive ArtifactChange (f : Frame) (d d' : Database) : Prop where
  | fresh (same : d' = Database.fresh)
  | kept (artifacts : List.Forall₂ Artifact.Loses d.artifacts d'.artifacts)
      (sources : d'.artifactGrants = d.artifactGrants)
      (parents : d'.artifactParents = d.artifactParents)
  | acquired {peer : Peer} {request config : Message} {a : Artifact} {receipt : Authorization}
      {retention : Int} (acquired : Acquired f d peer request a receipt retention config)
      (after : d' = (insertOriginal d a).bump)
  | derived {a : Artifact} {parents : List String} (derived : Derived f d a parents)
      (after : d' = (insertDerived d a parents).bump)

theorem Projected.artifacts {definitions : Definitions} {ids : List String}
    (h : Projected definitions d ids d') :
    List.Forall₂ Artifact.Loses d.artifacts d'.artifacts ∧
      d'.artifactGrants = d.artifactGrants ∧ d'.artifactParents = d.artifactParents := by
  induction h with
  | nil => exact ⟨Table.forall₂_refl Artifact.Loses.refl _, rfl, rfl⟩
  | @cons ids mid id config active _ _ _ _ ih =>
    have retired := Database.invalidate_restricts mid id
    exact ⟨Table.forall₂_trans (R := Artifact.Loses) Artifact.Loses.trans ih.1 retired.artifacts,
      retired.artifactGrants.trans ih.2.1, retired.artifactParents.trans ih.2.2⟩

theorem Reclaims.artifacts (h : Relation.ReflTransGen Reclaims d d') :
    d'.artifacts = d.artifacts ∧ d'.artifactGrants = d.artifactGrants ∧
      d'.artifactParents = d.artifactParents := by
  induction h with
  | refl => exact ⟨rfl, rfl, rfl⟩
  | tail _ last ih =>
    obtain ⟨id, type, _, rfl⟩ := last
    cases type <;> exact ih

theorem Effect.artifacts (h : Effect f d call reply d') : ArtifactChange f d d' := by
  have same : List.Forall₂ Artifact.Loses d.artifacts d.artifacts :=
    Table.forall₂_refl Artifact.Loses.refl _
  cases h with
  | create => exact .fresh rfl
  | restrict other narrows =>
    exact .kept narrows.artifacts narrows.artifactGrants narrows.artifactParents
  | project steps marks moved =>
    rw [marks]
    exact .kept steps.artifacts.1 steps.artifacts.2.1 steps.artifacts.2.2
  | @issue peer request reply a grants issued =>
    obtain ⟨rows, _, final⟩ := foldl_useGrant a.id grants
      { d with authorizations := d.authorizations ++ [a] }
    rw [Issued.after, final]
    exact .kept same rfl rfl
  | acquire acquired => exact .acquired acquired rfl
  | derive derived => exact .derived derived rfl
  | compact steps =>
    obtain ⟨artifacts, sources, parents⟩ := Reclaims.artifacts steps
    exact .kept (artifacts ▸ same) sources parents
  | _ => exact .kept same rfl rfl

/-! ### Sources of receipts -/

/-- No receipt of that name is valid. -/
def Database.Void (d : Database) (receipt : String) : Prop :=
  ∀ a ∈ d.authorizations, a.id = receipt → a.valid = false

theorem Projected.sources {definitions : Definitions} {ids : List String}
    (h : Projected definitions d ids d') : d'.authorizationGrants = d.authorizationGrants := by
  induction h with
  | nil => rfl
  | @cons ids mid id config active _ _ _ _ ih =>
    exact (Database.invalidate_restricts mid id).authorizationGrants.trans ih

theorem Reclaims.source_kept {e : ReceiptSource} (h : Relation.ReflTransGen Reclaims d d')
    (member : e ∈ d.authorizationGrants) : e ∈ d'.authorizationGrants ∨ d'.Void e.receipt := by
  induction h with
  | refl => exact Or.inl member
  | @tail mid _ _ last ih =>
    obtain ⟨id, type, reclaimable, rfl⟩ := last
    have void : mid.Void e.receipt → (reclaim mid id type).Void e.receipt := by
      intro before a stored same
      have old := (Reclaims.evolves (F := fun _ => False)
        ⟨id, type, reclaimable, rfl⟩).authorizations a stored
      obtain ⟨b, inside, ages⟩ := old.resolve_right fun h => h
      by_contra valid
      have earlier := ages.valid (by simpa using valid)
      rw [before b inside (ages.id.symm.trans same)] at earlier
      cases earlier
    rcases ih with here | gone
    · cases type with
      | receipts =>
        by_cases reclaimed : e.receipt = id
        · exact Or.inr (void fun a stored same => reclaimable a stored (same.trans reclaimed))
        · exact Or.inl (List.mem_filter.mpr ⟨here, by simpa using reclaimed⟩)
      | requests => exact Or.inl here
      | sessions => exact Or.inl here
      | grants => exact Or.inl here
    · exact Or.inr (void gone)

/-- A source of a receipt is deleted only when the receipt is invalid. -/
theorem Effect.source_kept {e : ReceiptSource} (h : Effect f d call reply d')
    (member : e ∈ d.authorizationGrants) : e ∈ d'.authorizationGrants ∨ d'.Void e.receipt := by
  cases h with
  | create => exact Or.inr fun _ stored => by cases stored
  | restrict other narrows =>
    rw [narrows.authorizationGrants]
    exact Or.inl member
  | project steps marks moved =>
    rw [marks]
    exact Or.inl (by rw [steps.sources]; exact member)
  | @issue peer request reply a grants issued =>
    obtain ⟨rows, _, final⟩ := foldl_useGrant a.id grants
      { d with authorizations := d.authorizations ++ [a] }
    rw [Issued.after, final]
    exact Or.inl (List.mem_append_left _ member)
  | derive derived =>
    rw [insertDerived_eq]
    exact Or.inl member
  | compact steps => exact Reclaims.source_kept steps member
  | _ => exact Or.inl member

end

/-! ### The invariant -/

/-- The first artifact keeps every restriction of the second. -/
structure Artifact.Within (a p : Artifact) : Prop where
  session : a.session = p.session
  holder : a.holder = p.holder
  «instance» : a.instance = p.instance
  purpose : a.purpose = p.purpose
  recipient : a.recipient = p.recipient
  scope : a.scope = p.scope
  expires : a.expires ≤ p.expires
  level : p.level ≤ a.level

theorem Artifact.Within.trans {a b c : Artifact} (first : a.Within b) (second : b.Within c) :
    a.Within c where
  session := first.session.trans second.session
  holder := first.holder.trans second.holder
  «instance» := first.instance.trans second.instance
  purpose := first.purpose.trans second.purpose
  recipient := first.recipient.trans second.recipient
  scope := first.scope.trans second.scope
  expires := le_trans first.expires second.expires
  level := le_trans second.level first.level

/-- Blocking and releasing change neither side of the relation. -/
theorem Artifact.Within.loses {a p a' p' : Artifact} (h : a.Within p) (left : a.Loses a')
    (right : p.Loses p') : a'.Within p' := by
  rw [left.1, right.1]
  exact { h with }

/-- The artifact has no parent. -/
def Database.Original (d : Database) (id : String) : Prop :=
  ∀ parent, (⟨id, parent⟩ : ArtifactParent) ∉ d.artifactParents

structure Lineage (P : Platform) (n : Nat) (d : Database) : Prop where
  receipts : ∀ a ∈ d.authorizations, a.valid = true →
    ∃ g, (⟨a.id, g⟩ : ReceiptSource) ∈ d.authorizationGrants
  sources : ∀ a ∈ d.artifacts, ∃ g, (⟨a.id, g⟩ : ArtifactSource) ∈ d.artifactGrants
  origin : ∀ a ∈ d.artifacts, P.Drawn 0 n a.receipt ∧ d.Original a.id ∨
    a.receipt = "derived:" ++ a.id ∧ ¬ d.Original a.id
  bound : ∀ a ∈ d.artifacts, ∀ x ∈ d.authorizations, x.valid = true → a.receipt = x.id →
    ∀ g, (⟨a.id, g⟩ : ArtifactSource) ∈ d.artifactGrants →
      (⟨x.id, g⟩ : ReceiptSource) ∈ d.authorizationGrants
  union : ∀ child, ¬ d.Original child → ∀ g, (⟨child, g⟩ : ArtifactSource) ∈ d.artifactGrants ↔
    ∃ parent, (⟨child, parent⟩ : ArtifactParent) ∈ d.artifactParents ∧
      (⟨parent, g⟩ : ArtifactSource) ∈ d.artifactGrants
  within : ∀ e ∈ d.artifactParents, ∀ a ∈ d.artifacts, ∀ p ∈ d.artifacts, a.id = e.child →
    p.id = e.parent → a.Within p
  order : ∀ e ∈ d.artifactParents, ∃ i j, i < j ∧ e.parent = P.ids.id i ∧ e.child = P.ids.id j

/-- An issued id has no colon, so it is no receipt name of derived data. -/
theorem Platform.Drawn.ne_derived {P : Platform} {lo hi : Nat} {id : String} (h : P.Drawn lo hi id)
    (text : String) : id ≠ "derived:" ++ text := by
  obtain ⟨n, _, _, rfl⟩ := h
  intro same
  have colon : ':' ∈ (P.ids.id n).toList := by
    rw [same]
    simp
  exact absurd (P.ids.hexadecimal n ':' colon) (by decide)

section
variable {P : Platform} {s t : Ledger} {e : Entry}

/-- Receipts: a valid receipt was valid before and keeps its sources, or it is issued. -/
theorem Committed.valid_receipt (step : Committed P s e t) (sound : Sound P s.ids s.tables)
    {x : Authorization} (stored : x ∈ t.tables.authorizations) (valid : x.valid = true) :
    (∃ old ∈ s.tables.authorizations, old.valid = true ∧ old.id = x.id ∧
      ∀ g, (⟨x.id, g⟩ : ReceiptSource) ∈ s.tables.authorizationGrants →
        (⟨x.id, g⟩ : ReceiptSource) ∈ t.tables.authorizationGrants) ∨
      (P.Drawn s.ids t.ids x.id ∧ ∃ g, (⟨x.id, g⟩ : ReceiptSource) ∈ t.tables.authorizationGrants) := by
  have effect := step.effect sound.keyed
  rcases effect.new_receipt stored with ⟨old, inside, ages⟩ | ⟨peer, request, grants, _, issued, after⟩
  · refine Or.inl ⟨old, inside, ages.valid valid, ages.id.symm, fun g edge => ?_⟩
    rcases effect.source_kept edge with kept | void
    · exact kept
    · have invalid := void x stored rfl
      rw [valid] at invalid
      cases invalid
  · have fresh := issued.fresh
    rw [Frame.Fresh, step.platform] at fresh
    refine Or.inr ⟨fresh.mono step.start (le_of_eq step.finish), ?_⟩
    obtain ⟨count, _, some, covered⟩ := issued.covered
    obtain ⟨_, _, final⟩ := foldl_useGrant x.id grants
      { s.tables with authorizations := s.tables.authorizations ++ [x] }
    rw [after, Issued.after, final]
    cases grants with
    | nil =>
      have empty := covered.length_eq
      simp only [List.length_range, List.length_nil] at empty
      omega
    | cons g rest =>
      exact ⟨g, List.mem_append_right _ (by simp)⟩

/-- An artifact is inserted: what holds of its own links. -/
structure Inserted (P : Platform) (d : Database) (a : Artifact) (sources : List ArtifactSource)
    (links : List ArtifactParent) : Prop where
  new : a.id ∉ d.artifacts.map Artifact.id
  owned : ∀ e ∈ sources, e.artifact = a.id
  linked : ∀ e ∈ links, e.child = a.id
  sourced : ∃ g, (⟨a.id, g⟩ : ArtifactSource) ∈ sources
  origin : (a.receipt ∈ d.authorizations.map Authorization.id ∧ links = []) ∨
    (a.receipt = "derived:" ++ a.id ∧ links ≠ [])
  bound : ∀ x ∈ d.authorizations, a.receipt = x.id →
    ∀ g, (⟨a.id, g⟩ : ArtifactSource) ∈ sources → (⟨x.id, g⟩ : ReceiptSource) ∈ d.authorizationGrants
  union : links ≠ [] → ∀ g, (⟨a.id, g⟩ : ArtifactSource) ∈ sources ↔
    ∃ parent, (⟨a.id, parent⟩ : ArtifactParent) ∈ links ∧
      (⟨parent, g⟩ : ArtifactSource) ∈ d.artifactGrants
  within : ∀ e ∈ links, ∃ p ∈ d.artifacts, p.id = e.parent ∧ a.Within p
  order : ∀ e ∈ links, ∃ i j, i < j ∧ e.parent = P.ids.id i ∧ e.child = P.ids.id j

theorem Lineage.insert {n m : Nat} {d d' : Database} {a : Artifact} {sources : List ArtifactSource}
    {links : List ArtifactParent} (lineage : Lineage P n d) (sound : Sound P n d) (later : n ≤ m)
    (h : Inserted P d a sources links)
    (after : d' = { d with
      artifacts := d.artifacts ++ [a], artifactGrants := d.artifactGrants ++ sources
      artifactParents := d.artifactParents ++ links, revision := d'.revision }) :
    Lineage P m d' := by
  have other : ∀ {id}, id ∈ d.artifacts.map Artifact.id → id ≠ a.id := fun member same =>
    h.new (same ▸ member)
  -- What was known about earlier artifacts is unchanged.
  have edge : ∀ {id}, id ∈ d.artifacts.map Artifact.id → ∀ g,
      (⟨id, g⟩ : ArtifactSource) ∈ d.artifactGrants ++ sources ↔ ⟨id, g⟩ ∈ d.artifactGrants := by
    intro id member g
    rw [List.mem_append, or_iff_left]
    exact fun added => other member (h.owned _ added)
  have link : ∀ {id}, id ∈ d.artifacts.map Artifact.id → ∀ parent,
      (⟨id, parent⟩ : ArtifactParent) ∈ d.artifactParents ++ links ↔
        ⟨id, parent⟩ ∈ d.artifactParents := by
    intro id member parent
    rw [List.mem_append, or_iff_left]
    exact fun added => other member (h.linked _ added)
  have mine : ∀ g, (⟨a.id, g⟩ : ArtifactSource) ∈ d.artifactGrants ++ sources ↔ ⟨a.id, g⟩ ∈ sources := by
    intro g
    rw [List.mem_append, or_iff_right]
    exact fun old => h.new (sound.linked.artifacts _ old)
  have ours : ∀ parent, (⟨a.id, parent⟩ : ArtifactParent) ∈ d.artifactParents ++ links ↔
      ⟨a.id, parent⟩ ∈ links := by
    intro parent
    rw [List.mem_append, or_iff_right]
    exact fun old => h.new (sound.linked.children _ old)
  have original : ∀ {id}, id ∈ d.artifacts.map Artifact.id → (d'.Original id ↔ d.Original id) := by
    intro id member
    rw [after]
    exact forall_congr' fun parent => not_congr (link member parent)
  rw [after]
  constructor
  · exact lineage.receipts
  · intro b member
    rcases List.mem_append.mp member with old | added
    · obtain ⟨g, stored⟩ := lineage.sources b old
      exact ⟨g, List.mem_append_left _ stored⟩
    · obtain rfl := List.mem_singleton.mp added
      obtain ⟨g, stored⟩ := h.sourced
      exact ⟨g, List.mem_append_right _ stored⟩
  · intro b member
    rw [← after]
    rcases List.mem_append.mp member with old | added
    · rw [original (List.mem_map_of_mem old)]
      exact (lineage.origin b old).imp_left fun ⟨drawn, alone⟩ =>
        ⟨drawn.mono (le_refl _) later, alone⟩
    · obtain rfl := List.mem_singleton.mp added
      rcases h.origin with ⟨receipt, rfl⟩ | ⟨receipt, some⟩
      · obtain ⟨x, stored, same⟩ := List.mem_map.mp receipt
        refine Or.inl ⟨?_, fun parent stored => ?_⟩
        · rw [← same]
          exact (sound.known.authorizations x stored).mono (le_refl _) later
        · rw [after] at stored
          cases (ours parent).mp stored
      · obtain ⟨first, rest, rfl⟩ := List.exists_cons_of_ne_nil some
        refine Or.inr ⟨receipt, fun alone => alone first.parent ?_⟩
        rw [after, ← h.linked first (by simp)]
        exact List.mem_append_right _ (by simp)
  · intro b member x stored valid same g edged
    rcases List.mem_append.mp member with old | added
    · exact lineage.bound b old x stored valid same g ((edge (List.mem_map_of_mem old) g).mp edged)
    · obtain rfl := List.mem_singleton.mp added
      exact h.bound x stored same g ((mine g).mp edged)
  · intro child derived g
    obtain ⟨parent, stored⟩ := not_forall_not.mp derived
    rcases List.mem_append.mp stored with old | added
    · have known := sound.linked.children _ old
      rw [edge known g, lineage.union child (fun alone => alone parent old) g]
      refine exists_congr fun parent => ?_
      rw [link known parent]
      exact and_congr_right fun stored => (edge (sound.linked.parents _ stored) g).symm
    · obtain rfl : child = a.id := h.linked _ added
      rw [mine g, h.union (List.ne_nil_of_mem added) g]
      refine exists_congr fun parent => ?_
      rw [ours parent]
      refine and_congr_right fun stored => ?_
      obtain ⟨p, inside, same, _⟩ := h.within _ stored
      exact (edge (List.mem_map.mpr ⟨p, inside, same⟩) g).symm
  · intro e member b inB p inP child parent
    have stored : ∀ {q : Artifact}, q ∈ d.artifacts ++ [a] → q.id ∈ d.artifacts.map Artifact.id →
        q ∈ d.artifacts := by
      intro q inside known
      rcases List.mem_append.mp inside with old | added
      · exact old
      · rw [List.mem_singleton.mp added] at known
        exact absurd known h.new
    rcases List.mem_append.mp member with old | added
    · exact lineage.within e old b (stored inB (child ▸ sound.linked.children e old)) p
        (stored inP (parent ▸ sound.linked.parents e old)) child parent
    · obtain ⟨q, inside, same, within⟩ := h.within e added
      have known := stored inP (parent ▸ same ▸ List.mem_map_of_mem inside)
      obtain rfl := Table.eq_of_key sound.keyed.artifacts inside known (same.trans parent.symm)
      rcases List.mem_append.mp inB with old | new
      · exact absurd (h.linked e added ▸ child ▸ List.mem_map_of_mem old) h.new
      · rw [List.mem_singleton.mp new]
        exact within
  · intro link member
    rcases List.mem_append.mp member with old | added
    · exact lineage.order link old
    · exact h.order link added

/-- A receipt under which an artifact stands was not issued later. -/
theorem Lineage.receipt_ne {n lo hi : Nat} {d : Database} (lineage : Lineage P n d) {a : Artifact}
    (stored : a ∈ d.artifacts) (later : n ≤ lo) {id : String} (fresh : P.Drawn lo hi id) :
    a.receipt ≠ id := by
  rcases lineage.origin a stored with ⟨drawn, _⟩ | ⟨derived, _⟩
  · exact drawn.ne fresh later
  · rw [derived]
    exact (fresh.ne_derived a.id).symm

/-- A transaction that inserts no artifact keeps the lineage. -/
theorem Lineage.kept (step : Committed P s e t) (sound : Sound P s.ids s.tables)
    (lineage : Lineage P s.ids s.tables)
    (artifacts : List.Forall₂ Artifact.Loses s.tables.artifacts t.tables.artifacts)
    (sources : t.tables.artifactGrants = s.tables.artifactGrants)
    (parents : t.tables.artifactParents = s.tables.artifactParents) :
    Lineage P t.ids t.tables := by
  have original : ∀ id, t.tables.Original id ↔ s.tables.Original id := by
    intro id
    rw [Database.Original, parents]
    rfl
  have old : ∀ {a'}, a' ∈ t.tables.artifacts → ∃ a ∈ s.tables.artifacts, a.Loses a' ∧
      a'.id = a.id ∧ a'.receipt = a.receipt := by
    intro a' member
    obtain ⟨a, stored, loses⟩ := Table.forall₂_exists_left artifacts member
    exact ⟨a, stored, loses, by rw [loses.1], by rw [loses.1]⟩
  constructor
  · intro x stored valid
    rcases step.valid_receipt sound stored valid with ⟨x', inside, before, same, kept⟩ | ⟨_, new⟩
    · obtain ⟨g, edge⟩ := lineage.receipts x' inside before
      exact ⟨g, kept g (same ▸ edge)⟩
    · exact new
  · intro a' member
    obtain ⟨a, stored, _, id, _⟩ := old member
    rw [sources, id]
    exact lineage.sources a stored
  · intro a' member
    obtain ⟨a, stored, _, id, receipt⟩ := old member
    rw [original, id, receipt]
    exact (lineage.origin a stored).imp_left fun ⟨drawn, alone⟩ =>
      ⟨drawn.mono (le_refl _) step.later, alone⟩
  · intro a' member x inside valid same g edge
    obtain ⟨a, stored, _, id, receipt⟩ := old member
    rw [sources, id] at edge
    rw [receipt] at same
    rcases step.valid_receipt sound inside valid with ⟨x', found, before, sameId, kept⟩ | ⟨fresh, _⟩
    · refine kept g (sameId ▸ lineage.bound a stored x' found before (same.trans sameId.symm) g edge)
    · exact absurd same (lineage.receipt_ne stored (le_refl _) fresh)
  · intro child derived g
    rw [original] at derived
    rw [sources, parents]
    exact lineage.union child derived g
  · intro e member a' inA p' inP child parent
    obtain ⟨a, storedA, losesA, idA, _⟩ := old inA
    obtain ⟨p, storedP, losesP, idP, _⟩ := old inP
    rw [parents] at member
    exact (lineage.within e member a storedA p storedP (idA ▸ child) (idP ▸ parent)).loses losesA losesP
  · rw [parents]
    exact lineage.order

theorem Acquired.inserted {f : Frame} {d : Database} {peer : Peer} {request config : Message}
    {a : Artifact} {receipt : Authorization} {retention : Int} {n : Nat}
    (lineage : Lineage f.platform n d) (sound : Sound f.platform n d) (later : n ≤ f.start.ids)
    (h : Acquired f d peer request a receipt retention config) :
    Inserted f.platform d a
      ((d.authorizationGrants.filter fun e => decide (e.receipt = a.receipt)).map
        fun e => ⟨a.id, e.grant⟩) [] := by
  have stored := List.mem_of_find?_eq_some h.found
  have same : a.receipt = receipt.id := by
    obtain ⟨level, same⟩ := h.artifact
    rw [same]
    rfl
  have source : ∀ g, (⟨a.id, g⟩ : ArtifactSource) ∈
      (d.authorizationGrants.filter fun e => decide (e.receipt = a.receipt)).map
        (fun e => (⟨a.id, e.grant⟩ : ArtifactSource)) ↔
      (⟨receipt.id, g⟩ : ReceiptSource) ∈ d.authorizationGrants := by
    intro g
    simp only [List.mem_map, List.mem_filter, decide_eq_true_eq, ArtifactSource.mk.injEq, true_and]
    constructor
    · rintro ⟨⟨r, _⟩, ⟨edge, rfl⟩, rfl⟩
      rw [← same]
      exact edge
    · exact fun edge => ⟨⟨receipt.id, g⟩, ⟨edge, same.symm⟩, rfl⟩
  refine ⟨h.fresh.not_mem later sound.known.artifacts, ?_, by simp, ?_, ?_, ?_, by simp, by simp, by simp⟩
  · intro e member
    obtain ⟨_, _, rfl⟩ := List.mem_map.mp member
    rfl
  · obtain ⟨g, edge⟩ := lineage.receipts receipt stored h.valid
    exact ⟨g, (source g).mpr edge⟩
  · exact Or.inl ⟨same ▸ List.mem_map_of_mem stored, rfl⟩
  · intro x inside equal g edge
    rw [← equal, same]
    exact (source g).mp edge

theorem Derived.inserted {f : Frame} {d : Database} {a : Artifact} {parents : List String} {n : Nat}
    (lineage : Lineage f.platform n d) (sound : Sound f.platform n d) (later : n ≤ f.start.ids)
    (h : Derived f d a parents) {extra : List ArtifactSource}
    (owned : ∀ e ∈ extra, e.artifact = a.id)
    (members : ∀ g, (⟨a.id, g⟩ : ArtifactSource) ∈ d.artifactGrants ++ extra ↔
      ⟨a.id, g⟩ ∈ d.artifactGrants ∨ ∃ parent ∈ parents, ⟨parent, g⟩ ∈ d.artifactGrants) :
    Inserted f.platform d a extra
      ((parents.mergeSort fun x y => decide (x ≤ y)).map fun parent => ⟨a.id, parent⟩) := by
  have new := h.fresh.not_mem later sound.known.artifacts
  have mine : ∀ g, (⟨a.id, g⟩ : ArtifactSource) ∉ d.artifactGrants := fun g edge =>
    new (sound.linked.artifacts _ edge)
  have source : ∀ g, (⟨a.id, g⟩ : ArtifactSource) ∈ extra ↔
      ∃ parent ∈ parents, ⟨parent, g⟩ ∈ d.artifactGrants := by
    intro g
    have both := members g
    rw [List.mem_append, or_iff_right (mine g), or_iff_right (mine g)] at both
    exact both
  have link : ∀ parent, (⟨a.id, parent⟩ : ArtifactParent) ∈
      (parents.mergeSort fun x y => decide (x ≤ y)).map (fun p => (⟨a.id, p⟩ : ArtifactParent)) ↔
      parent ∈ parents := by
    intro parent
    simp
  have parent : ∀ {id}, id ∈ parents → ∃ p ∈ d.artifacts, p.id = id ∧ a.Within p := by
    intro id member
    obtain ⟨p, same, found⟩ := h.parent id member
    exact ⟨p, List.mem_of_find?_eq_some found.found, same,
      ⟨found.session.symm, found.holder.symm, found.instance.symm, found.purpose.symm,
        found.recipient.symm, found.scope.symm, found.expires, found.level⟩⟩
  refine ⟨new, owned, ?_, ?_, Or.inr ⟨h.receipt, ?_⟩, ?_, ?_, ?_, ?_⟩
  · intro e member
    obtain ⟨_, _, rfl⟩ := List.mem_map.mp member
    rfl
  · obtain ⟨first, rest, rfl⟩ := List.exists_cons_of_ne_nil h.some
    obtain ⟨p, stored, same, _⟩ := parent (List.mem_cons_self (a := first) (l := rest))
    obtain ⟨g, edge⟩ := lineage.sources p stored
    exact ⟨g, (source g).mpr ⟨first, by simp, same ▸ edge⟩⟩
  · obtain ⟨first, rest, rfl⟩ := List.exists_cons_of_ne_nil h.some
    exact List.ne_nil_of_mem ((link first).mpr (by simp))
  · intro x stored same
    have drawn := sound.known.authorizations x stored
    exact absurd (same.symm.trans h.receipt) (drawn.ne_derived a.id)
  · intro _ g
    rw [source g]
    exact exists_congr fun parent => and_congr_left fun _ => (link parent).symm
  · intro e member
    obtain ⟨id, listed, rfl⟩ := List.mem_map.mp member
    exact parent (List.mem_mergeSort.mp listed)
  · intro e member
    obtain ⟨id, listed, rfl⟩ := List.mem_map.mp member
    obtain ⟨p, stored, same, _⟩ := parent (List.mem_mergeSort.mp listed)
    obtain ⟨i, _, below, named⟩ := sound.known.artifacts p stored
    obtain ⟨j, above, _, child⟩ := h.fresh
    exact ⟨i, j, by omega, same.symm.trans named, child⟩

theorem Lineage.initial (n : Nat) : Lineage P n Database.fresh where
  receipts _ member := by cases member
  sources _ member := by cases member
  origin _ member := by cases member
  bound _ member := by cases member
  union _ derived := absurd (fun _ member => by cases member) derived
  within _ member := by cases member
  order _ member := by cases member

theorem Lineage.step (step : Committed P s e t) (sound : Sound P s.ids s.tables)
    (lineage : Lineage P s.ids s.tables) : Lineage P t.ids t.tables := by
  have effect := step.effect sound.keyed
  cases effect.artifacts with
  | fresh same =>
    rw [same]
    exact Lineage.initial t.ids
  | kept artifacts sources parents => exact lineage.kept step sound artifacts sources parents
  | acquired acquired after =>
    obtain rfl := step.platform
    exact lineage.insert sound step.later (acquired.inserted lineage sound step.start) (by
      rw [after]
      simp [insertOriginal, Database.bump])
  | derived derived after =>
    obtain rfl := step.platform
    obtain ⟨extra, owned, members, final⟩ := derived.tables (sound.known.unused step.start)
    refine lineage.insert sound step.later
      (derived.inserted lineage sound step.start owned members) ?_
    rw [after, final]
    rfl

theorem Commits.lineage {log : List Entry} (run : Commits P log s) : Lineage P s.ids s.tables :=
  run.invariant (I := fun _ s => Lineage P s.ids s.tables) (Lineage.initial 0)
    fun run lineage step => Lineage.step step (Commits.sound run) lineage

end

end Consent.Repository
