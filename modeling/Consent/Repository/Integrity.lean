import Consent.Repository.Chronicle
import Consent.Repository.Evolution

/-!
Integrity of the tables: primary keys are distinct, every id in use was issued, and the
link tables name rows that exist. Compaction removes a grant only when no link names it,
so the links survive it.
-/
namespace Consent.Repository

/-- The ids in use are among the first `n` that were issued. -/
structure Known (P : Platform) (n : Nat) (d : Database) : Prop where
  sessions : ∀ s ∈ d.sessions, P.Drawn 0 n s.id
  requests : ∀ r ∈ d.requests, P.Drawn 0 n r.id
  grants : ∀ g ∈ d.grants, P.Drawn 0 n g.id
  authorizations : ∀ a ∈ d.authorizations, P.Drawn 0 n a.id
  artifacts : ∀ a ∈ d.artifacts, P.Drawn 0 n a.id

theorem Known.evolves {P : Platform} {n lo hi : Nat} {d d' : Database} (known : Known P n d)
    (later : n ≤ hi) (h : Evolves (P.Drawn lo hi) d d') : Known P hi d' := by
  have old : ∀ {id}, P.Drawn 0 n id → P.Drawn 0 hi id := fun drawn => drawn.mono (le_refl _) later
  have new : ∀ id, P.Drawn lo hi id → P.Drawn 0 hi id :=
    fun _ drawn => drawn.mono (Nat.zero_le _) (le_refl _)
  exact ⟨h.sessions.keys (fun ages => ages.id) (fun s member => old (known.sessions s member)) new,
    h.requests.keys (fun ages => ages.id) (fun r member => old (known.requests r member)) new,
    h.grants.keys (fun ages => ages.id) (fun g member => old (known.grants g member)) new,
    h.authorizations.keys (fun ages => ages.id)
      (fun a member => old (known.authorizations a member)) new,
    h.artifacts.keys (fun ages => by rw [ages.1]) (fun a member => old (known.artifacts a member))
      new⟩

section
variable {α : Type} {f : Frame} {n : Nat} {rows : List α} {id : α → String}

/-- A table whose ids are known has none of the ids issued later. -/
theorem Frame.Fresh.not_mem (later : n ≤ f.start.ids)
    (known : ∀ a ∈ rows, f.platform.Drawn 0 n (id a)) {key : String} (fresh : f.Fresh key) :
    key ∉ rows.map id := by
  intro member
  obtain ⟨a, stored, rfl⟩ := List.mem_map.mp member
  exact (known a stored).ne fresh later rfl

theorem nodup_append_fresh (later : n ≤ f.start.ids)
    (known : ∀ a ∈ rows, f.platform.Drawn 0 n (id a)) (distinct : (rows.map id).Nodup)
    {new : List α} (apart : (new.map id).Nodup) (fresh : ∀ a ∈ new, f.Fresh (id a)) :
    ((rows ++ new).map id).Nodup := by
  rw [List.map_append, List.nodup_append]
  refine ⟨distinct, apart, ?_⟩
  rintro key old _ added rfl
  obtain ⟨a, member, rfl⟩ := List.mem_map.mp added
  exact (fresh a member).not_mem later known old

theorem nodup_append_row (later : n ≤ f.start.ids)
    (known : ∀ a ∈ rows, f.platform.Drawn 0 n (id a)) (distinct : (rows.map id).Nodup) {new : α}
    (fresh : f.Fresh (id new)) : ((rows ++ [new]).map id).Nodup :=
  nodup_append_fresh later known distinct (by simp) fun a member => by
    rw [List.mem_singleton.mp member]
    exact fresh

end

/-! ### Primary keys -/

theorem Database.Restricts.keyed {d d' : Database} (h : d.Restricts d') (keyed : d.Keyed) :
    d'.Keyed where
  definitions := by rw [h.definitions]; exact keyed.definitions
  sessions := by rw [Table.forall₂_map_eq (fun m => m.id) h.sessions]; exact keyed.sessions
  requests := by
    rw [Table.forall₂_map_eq (g := RequestRow.id) (fun m => m.ages.id) h.requests]
    exact keyed.requests
  grants := by
    rw [Table.forall₂_map_eq (g := Grant.id) (fun m => m.ages.id) h.grants]
    exact keyed.grants
  authorizations := by
    rw [Table.forall₂_map_eq (g := Authorization.id) (fun m => m.ages.id) h.authorizations]
    exact keyed.authorizations
  artifacts := by
    rw [Table.forall₂_map_eq (g := Artifact.id) (fun m => by rw [m.1]) h.artifacts]
    exact keyed.artifacts

theorem Projected.keyed {definitions : Definitions} {d d' : Database} {ids : List String}
    (h : Projected definitions d ids d') (keyed : d.Keyed) : d'.Keyed := by
  induction h with
  | nil => exact keyed
  | @cons ids mid id config active _ _ _ _ ih =>
    have retired := (Database.invalidate_restricts mid id).keyed ih
    exact { retired with definitions := Table.nodup_upsert _ retired.definitions }

theorem Reclaims.keyed {d d' : Database} (h : Relation.ReflTransGen Reclaims d d')
    (keyed : d.Keyed) : d'.Keyed := by
  induction h with
  | refl => exact keyed
  | tail _ last ih =>
    obtain ⟨id, type, _, rfl⟩ := last
    exact reclaim_keyed ih id type

variable {f : Frame} {d : Database} {call : Call} {reply : Message}

theorem Known.unused {n : Nat} (known : Known f.platform n d) (later : n ≤ f.start.ids) :
    ∀ a ∈ d.artifacts, ¬ f.Fresh a.id :=
  fun a stored fresh => (known.artifacts a stored).ne fresh later rfl

theorem Effect.keyed {n : Nat} {d d' : Database} (later : n ≤ f.start.ids)
    (known : Known f.platform n d) (keyed : d.Keyed) (h : Effect f d call reply d') : d'.Keyed := by
  cases h with
  | create => exact ⟨.nil, .nil, .nil, .nil, .nil, .nil⟩
  | incarnate fresh => exact { keyed with }
  | restrict other narrows => exact narrows.keyed keyed
  | project steps marks moved =>
    rw [marks]
    exact { steps.keyed keyed with }
  | openSession fresh =>
    exact { keyed with sessions := nodup_append_row later known.sessions keyed.sessions fresh }
  | store stored =>
    exact { keyed with requests := nodup_append_row later known.requests keyed.requests stored.fresh }
  | @issue peer request reply a grants issued =>
    obtain ⟨rows, uses, final⟩ := foldl_useGrant a.id grants
      { d with authorizations := d.authorizations ++ [a] }
    rw [Issued.after, final]
    refine { keyed with grants := ?_, authorizations := ?_ }
    · change (rows.map Grant.id).Nodup
      rw [Table.forall₂_map_eq (fun use => use.ages.id) uses]
      exact keyed.grants
    · exact nodup_append_row later known.authorizations keyed.authorizations issued.fresh
  | prompt prompted =>
    exact { keyed with requests := Table.nodup_updateWhere (fun _ _ => rfl) keyed.requests }
  | complete displayed selected ends =>
    exact { keyed with requests := Table.nodup_updateWhere (fun _ _ => rfl) keyed.requests }
  | answer answered =>
    refine { keyed with
      requests := Table.nodup_updateWhere (fun _ _ => rfl) keyed.requests
      grants := nodup_append_fresh later known.grants keyed.grants answered.distinct ?_ }
    intro g member
    obtain ⟨_, _, grant⟩ := answered.granted g member
    exact grant.fresh
  | acquire acquired =>
    exact { keyed with
      artifacts := nodup_append_row later known.artifacts keyed.artifacts acquired.fresh }
  | derive derived =>
    obtain ⟨extra, _, _, final⟩ := derived.tables (known.unused later)
    rw [final]
    exact { keyed with
      artifacts := nodup_append_row later known.artifacts keyed.artifacts derived.fresh }
  | compact steps => exact Reclaims.keyed steps keyed

/-! ### Definitions -/

/-- The projected definitions are valid, and the flag is part of the projection. -/
def Registered (d : Database) : Prop :=
  ∀ r ∈ d.definitions, ValidDefinition r.id r.config ∧
    r.config.get "active" = if r.active then "1" else "0"

theorem Registered.put (registered : Registered d) {id : String} {config : Message}
    (valid : ValidDefinition id config) (active : Bool) :
    Registered (putDefinition (d.invalidate id) ⟨id, active, projection config active⟩) := by
  intro r member
  rcases Table.mem_upsert member with rfl | ⟨stored, _⟩
  · exact ⟨valid.insert_active _, Message.get_insert_self _ _ _⟩
  · exact registered r stored

theorem Projected.registered {definitions : Definitions} {d d' : Database} {ids : List String}
    (valid : ValidRegistry definitions) (h : Projected definitions d ids d')
    (registered : Registered d) : Registered d' := by
  induction h with
  | nil => exact registered
  | @cons ids mid id config active _ _ listed _ ih => exact ih.put (valid id config listed) active

theorem Reclaims.definitions {d d' : Database} (h : Relation.ReflTransGen Reclaims d d') :
    d'.definitions = d.definitions := by
  induction h with
  | refl => rfl
  | tail _ last ih =>
    obtain ⟨id, type, _, rfl⟩ := last
    cases type <;> exact ih

/-- Only the projection of the registry and a new file change the definitions. -/
theorem Effect.definitions {d d' : Database} (h : Effect f d call reply d') :
    (call = .create ∧ d' = Database.fresh) ∨ d'.definitions = d.definitions ∨
      ∃ definitions revision offline ids mid, call = .replay definitions revision offline ∧
        Projected definitions d ids mid ∧
        d' = { mid with revision := d'.revision, registryRevision := revision } := by
  cases h with
  | create => exact Or.inl ⟨rfl, rfl⟩
  | restrict other narrows => exact Or.inr (Or.inl narrows.definitions)
  | project steps marks moved => exact Or.inr (Or.inr ⟨_, _, _, _, _, rfl, steps, marks⟩)
  | @issue peer request reply a grants issued =>
    obtain ⟨rows, _, final⟩ := foldl_useGrant a.id grants
      { d with authorizations := d.authorizations ++ [a] }
    rw [Issued.after, final]
    exact Or.inr (Or.inl rfl)
  | derive derived =>
    rw [insertDerived_eq]
    exact Or.inr (Or.inl rfl)
  | compact steps => exact Or.inr (Or.inl (Reclaims.definitions steps))
  | _ => exact Or.inr (Or.inl rfl)

theorem Effect.definitions_kept {d d' : Database} (h : Effect f d call reply d')
    (other : call.projects = false) :
    d'.definitions = d.definitions := by
  rcases h.definitions with ⟨rfl, _⟩ | same | ⟨_, _, _, _, _, rfl, _, _⟩
  · cases other
  · exact same
  · cases other

theorem Effect.registered {d d' : Database}
    (valid : ∀ definitions revision offline, call = .replay definitions revision offline →
      ValidRegistry definitions) (registered : Registered d) (h : Effect f d call reply d') :
    Registered d' := by
  rcases h.definitions with ⟨rfl, rfl⟩ | same |
    ⟨definitions, revision, offline, ids, mid, rfl, steps, marks⟩
  · exact fun _ member => by cases member
  · rw [Registered, same]
    exact registered
  · have projected := steps.registered (valid _ _ _ rfl) registered
    rw [marks]
    exact projected

/-! ### Links -/

/-- The link tables name rows that exist, and so does a grant its definition. -/
structure Linked (d : Database) : Prop where
  receipts : ∀ e ∈ d.authorizationGrants, e.receipt ∈ d.authorizations.map Authorization.id
  grants : ∀ e ∈ d.authorizationGrants, e.grant ∈ d.grants.map Grant.id
  artifacts : ∀ e ∈ d.artifactGrants, e.artifact ∈ d.artifacts.map Artifact.id
  artifactGrants : ∀ e ∈ d.artifactGrants, e.grant ∈ d.grants.map Grant.id
  children : ∀ e ∈ d.artifactParents, e.child ∈ d.artifacts.map Artifact.id
  parents : ∀ e ∈ d.artifactParents, e.parent ∈ d.artifacts.map Artifact.id
  definitions : ∀ g ∈ d.grants, g.definition ∈ d.definitions.map DefinitionRow.id

theorem Database.Restricts.linked {d d' : Database} (h : d.Restricts d') (linked : Linked d) :
    Linked d' := by
  have grants : d'.grants.map Grant.id = d.grants.map Grant.id :=
    Table.forall₂_map_eq (fun m => m.ages.id) h.grants
  have receipts : d'.authorizations.map Authorization.id = d.authorizations.map Authorization.id :=
    Table.forall₂_map_eq (fun m => m.ages.id) h.authorizations
  have artifacts : d'.artifacts.map Artifact.id = d.artifacts.map Artifact.id :=
    Table.forall₂_map_eq (fun m => by rw [m.1]) h.artifacts
  constructor
  · rw [h.authorizationGrants, receipts]
    exact linked.receipts
  · rw [h.authorizationGrants, grants]
    exact linked.grants
  · rw [h.artifactGrants, artifacts]
    exact linked.artifacts
  · rw [h.artifactGrants, grants]
    exact linked.artifactGrants
  · rw [h.artifactParents, artifacts]
    exact linked.children
  · rw [h.artifactParents, artifacts]
    exact linked.parents
  · intro g' member
    obtain ⟨g, stored, loses⟩ := Table.forall₂_exists_left h.grants member
    have same : g'.definition = g.definition := by rw [loses.1]
    rw [same, h.definitions]
    exact linked.definitions g stored

theorem Projected.linked {definitions : Definitions} {d d' : Database} {ids : List String}
    (h : Projected definitions d ids d') (linked : Linked d) : Linked d' := by
  induction h with
  | nil => exact linked
  | @cons ids mid id config active _ _ _ _ ih =>
    have retired := (Database.invalidate_restricts mid id).linked ih
    refine { retired with definitions := fun g member => ?_ }
    have found := retired.definitions g member
    change _ ∈ (Table.upsert DefinitionRow.id _ _).map DefinitionRow.id
    rw [Table.map_upsert]
    split
    · exact found
    · exact List.mem_append_left _ found

theorem Reclaims.linked {d d' : Database} (h : Relation.ReflTransGen Reclaims d d')
    (linked : Linked d) : Linked d' := by
  induction h with
  | refl => exact linked
  | @tail mid _ _ last ih =>
    obtain ⟨id, type, reclaimable, rfl⟩ := last
    cases type with
    | receipts =>
      refine { ih with receipts := fun e member => ?_, grants := fun e member => ?_ }
      · change _ ∈ (Table.updateWhere _ _ _).map Authorization.id
        rw [Table.map_updateWhere fun _ _ => by rfl]
        exact ih.receipts e (List.mem_filter.mp member).1
      · exact ih.grants e (List.mem_filter.mp member).1
    | requests => exact { ih with }
    | sessions => exact { ih with }
    | grants =>
      obtain ⟨_, unused, unused'⟩ := reclaimable
      have stays : ∀ key ∈ mid.grants.map Grant.id, key ≠ id →
          key ∈ (reclaim mid id .grants).grants.map Grant.id := by
        intro key member other
        obtain ⟨g, stored, rfl⟩ := List.mem_map.mp member
        exact List.mem_map_of_mem (List.mem_filter.mpr ⟨stored, by simpa using other⟩)
      refine { ih with grants := ?_, artifactGrants := ?_, definitions := ?_ }
      · exact fun e member => stays _ (ih.grants e member) (unused e member)
      · exact fun e member => stays _ (ih.artifactGrants e member) (unused' e member)
      · exact fun g member => ih.definitions g (List.mem_filter.mp member).1

/-- A definition that a prompt shows is stored under the name it has. -/
theorem PromptDefinition.stored {pending config : Message} {i : Nat} (registered : Registered d)
    (h : PromptDefinition d pending i config) :
    ∃ r ∈ d.definitions, r.active = true ∧ r.config = config ∧ r.id = pending.get (row i "definition") ∧
      config.get "definition" = r.id := by
  obtain ⟨active, _, _⟩ := h
  obtain ⟨r, found, same⟩ := Option.map_eq_some_iff.mp active
  have named := List.find?_some found
  simp only [decide_eq_true_eq] at named
  have stored := List.mem_of_find?_eq_some found
  refine ⟨r, stored, named.2, same, named.1, ?_⟩
  rw [← same]
  exact (registered r stored).1.named

/-- The definition of a displayed row. -/
theorem Displayed.definition {p : Display} (h : Displayed d p) {i : Nat} (bound : i < p.count) :
    PromptDefinition d p.pending i (p.definitions.getD i ∅) := by
  have counted : p.definitions.length = p.count := by
    simpa using h.definitions.length_eq.symm
  have here := h.definitions.get (i := i) (by simpa using bound) (by omega)
  simpa [List.getD_eq_getElem?_getD, List.getElem?_eq_getElem (show i < p.definitions.length by omega)]
    using here

theorem Answered.bounded {peer : Peer} {request : Message} {p : Display} {new : List Grant}
    {state : RequestState} (h : Answered f d peer request p new state) {i : Nat}
    (member : i ∈ p.rows) : i < p.count := by
  rw [h.rows] at member
  split at member
  · exact List.mem_range.mp (List.mem_filter.mp member).1
  · exact List.mem_range.mp member

theorem Effect.linked {n : Nat} {d d' : Database} (later : n ≤ f.start.ids)
    (known : Known f.platform n d) (registered : Registered d) (linked : Linked d)
    (h : Effect f d call reply d') : Linked d' := by
  cases h with
  | create => constructor <;> intro _ member <;> cases member
  | restrict other narrows => exact narrows.linked linked
  | project steps marks moved =>
    rw [marks]
    exact { steps.linked linked with }
  | @issue peer request reply a grants issued =>
    obtain ⟨rows, uses, final⟩ := foldl_useGrant a.id grants
      { d with authorizations := d.authorizations ++ [a] }
    have ids : rows.map Grant.id = d.grants.map Grant.id :=
      Table.forall₂_map_eq (fun use => use.ages.id) uses
    obtain ⟨count, _, _, covered⟩ := issued.covered
    rw [Issued.after, final]
    refine { linked with receipts := ?_, grants := ?_, artifactGrants := ?_, definitions := ?_ }
    · intro e member
      change _ ∈ (d.authorizations ++ [a]).map Authorization.id
      rcases List.mem_append.mp member with old | new
      · simpa using Or.inl (linked.receipts e old)
      · obtain ⟨_, _, rfl⟩ := List.mem_map.mp new
        simp
    · intro e member
      change _ ∈ rows.map Grant.id
      rw [ids]
      rcases List.mem_append.mp member with old | new
      · exact linked.grants e old
      · obtain ⟨grant, used, rfl⟩ := List.mem_map.mp new
        obtain ⟨i, _, _, g, _, _, stored, rfl, _⟩ := Table.forall₂_exists_left covered used
        exact List.mem_map_of_mem stored
    · intro e member
      change _ ∈ rows.map Grant.id
      rw [ids]
      exact linked.artifactGrants e member
    · intro g member
      obtain ⟨old, stored, use⟩ := Table.forall₂_exists_left uses member
      have same : g.definition = old.definition := by rw [use.ages.same]
      rw [same]
      exact linked.definitions old stored
  | @answer peer request reply payload p new state answered =>
    have more : ∀ key ∈ d.grants.map Grant.id, key ∈ (d.grants ++ new).map Grant.id :=
      fun key member => by rw [List.map_append]; exact List.mem_append_left _ member
    refine { linked with grants := ?_, artifactGrants := ?_, definitions := ?_ }
    · exact fun e member => more _ (linked.grants e member)
    · exact fun e member => more _ (linked.artifactGrants e member)
    · intro g member
      rcases List.mem_append.mp member with old | added
      · exact linked.definitions g old
      · obtain ⟨i, shown, grant⟩ := answered.granted g added
        obtain ⟨r, stored, _, _, _, named⟩ :=
          (answered.displayed.definition (answered.bounded shown)).stored registered
        rw [grant.definition, named]
        exact List.mem_map_of_mem stored
  | @acquire peer request reply config incarnation a receipt retention acquired =>
    have more : ∀ key ∈ d.artifacts.map Artifact.id, key ∈ (d.artifacts ++ [a]).map Artifact.id :=
      fun key member => by rw [List.map_append]; exact List.mem_append_left _ member
    have here : a.id ∈ (d.artifacts ++ [a]).map Artifact.id := List.mem_map_of_mem (by simp)
    refine { linked with artifacts := ?_, artifactGrants := ?_, children := ?_, parents := ?_ }
    · intro e member
      rcases List.mem_append.mp member with old | added
      · exact more _ (linked.artifacts e old)
      · obtain ⟨_, _, rfl⟩ := List.mem_map.mp added
        exact here
    · intro e member
      rcases List.mem_append.mp member with old | added
      · exact linked.artifactGrants e old
      · obtain ⟨source, used, rfl⟩ := List.mem_map.mp added
        exact linked.grants source (List.mem_filter.mp used).1
    · exact fun e member => more _ (linked.children e member)
    · exact fun e member => more _ (linked.parents e member)
  | @derive peer request reply incarnation a parents derived =>
    obtain ⟨extra, owned, members, final⟩ := derived.tables (known.unused later)
    rw [final]
    have more : ∀ key ∈ d.artifacts.map Artifact.id, key ∈ (d.artifacts ++ [a]).map Artifact.id :=
      fun key member => by rw [List.map_append]; exact List.mem_append_left _ member
    have here : a.id ∈ (d.artifacts ++ [a]).map Artifact.id := List.mem_map_of_mem (by simp)
    refine { linked with artifacts := ?_, artifactGrants := ?_, children := ?_, parents := ?_ }
    · intro e member
      rcases List.mem_append.mp member with old | added
      · exact more _ (linked.artifacts e old)
      · rw [owned e added]
        exact here
    · intro e member
      rcases List.mem_append.mp member with old | added
      · exact linked.artifactGrants e old
      · have inherited : (⟨a.id, e.grant⟩ : ArtifactSource) ∈ d.artifactGrants ++ extra := by
          rw [← owned e added]
          exact member
        rcases (members e.grant).mp inherited with old | ⟨parent, _, old⟩
        · exact linked.artifactGrants ⟨a.id, e.grant⟩ old
        · exact linked.artifactGrants ⟨parent, e.grant⟩ old
    · intro e member
      rcases List.mem_append.mp member with old | added
      · exact more _ (linked.children e old)
      · obtain ⟨_, _, rfl⟩ := List.mem_map.mp added
        exact here
    · intro e member
      rcases List.mem_append.mp member with old | added
      · exact more _ (linked.parents e old)
      · obtain ⟨parent, listed, rfl⟩ := List.mem_map.mp added
        obtain ⟨p, rfl, found⟩ := derived.parent parent (List.mem_mergeSort.mp listed)
        exact more _ (List.mem_map_of_mem (List.mem_of_find?_eq_some found.found))
  | compact steps => exact Reclaims.linked steps linked
  | _ => exact { linked with }

/-! ### Runs -/

/-- The integrity of the tables after `n` ids were issued. -/
structure Sound (P : Platform) (n : Nat) (d : Database) : Prop where
  keyed : d.Keyed
  known : Known P n d
  registered : Registered d
  linked : Linked d

theorem Sound.initial (P : Platform) : Sound P 0 Database.fresh where
  keyed := ⟨.nil, .nil, .nil, .nil, .nil, .nil⟩
  known := by constructor <;> intro _ member <;> cases member
  registered := fun _ member => by cases member
  linked := by constructor <;> intro _ member <;> cases member

namespace Committed

variable {P : Platform} {s t : Ledger} {e : Entry}

theorem evolves (h : Committed P s e t) (sound : Sound P s.ids s.tables) :
    Evolves (P.Drawn s.ids t.ids) s.tables t.tables := by
  obtain rfl := h.platform
  refine ((h.effect sound.keyed).evolves sound.keyed (sound.known.unused h.start)).mono ?_
  exact fun id fresh => fresh.mono h.start (le_of_eq h.finish)

theorem later (h : Committed P s e t) : s.ids ≤ t.ids :=
  le_trans h.start (le_trans h.order (le_of_eq h.finish))

theorem sound (h : Committed P s e t) (sound : Sound P s.ids s.tables) :
    Sound P t.ids t.tables := by
  have evolves := h.evolves sound
  obtain rfl := h.platform
  have effect := h.effect sound.keyed
  exact ⟨effect.keyed h.start sound.known sound.keyed, sound.known.evolves h.later evolves,
    effect.registered h.registry sound.registered,
    effect.linked h.start sound.known sound.registered sound.linked⟩

end Committed

/-- Runs of the abstract machine from a fresh database. -/
abbrev Commits (P : Platform) (log : List Entry) (s : Ledger) : Prop :=
  Journal.Runs (Committed P) Ledger.initial log s

variable {P : Platform} {log : List Entry}

theorem Commits.sound {s : Ledger} (run : Commits P log s) :
    Sound P s.ids s.tables :=
  run.stable (I := fun s => Sound P s.ids s.tables) (fun sound step => step.sound sound)
    (Sound.initial P)

/-- Between two points of a run rows age, and new rows have ids issued between them. -/
theorem evolves_of_runs {s t : Ledger} (sound : Sound P s.ids s.tables)
    (run : Journal.Runs (Committed P) s log t) :
    s.ids ≤ t.ids ∧ Evolves (P.Drawn s.ids t.ids) s.tables t.tables := by
  have both := run.stable (I := fun t => s.ids ≤ t.ids ∧ Sound P t.ids t.tables ∧
      Evolves (P.Drawn s.ids t.ids) s.tables t.tables)
    (fun ⟨order, sound, evolves⟩ step => ⟨le_trans order step.later, step.sound sound,
      (evolves.mono fun _ drawn => drawn.mono (le_refl _) step.later).trans
        ((step.evolves sound).mono fun _ drawn => drawn.mono order (le_refl _))⟩)
    ⟨le_refl _, sound, .refl _⟩
  exact ⟨both.1, both.2.2⟩

/-- A point of the past: the tables an entry left, and what became of them. -/
structure Past (P : Platform) (s : Ledger) (d : Database) (n : Nat) : Prop where
  sound : Sound P n d
  earlier : n ≤ s.ids
  evolves : Evolves (P.Drawn n s.ids) d s.tables

/-- A logged entry, the run before it and the run after it. -/
theorem Commits.entry {now : Ledger} (run : Commits P log now) {e : Entry} (member : e ∈ log) :
    ∃ later earlier s t, log = later ++ e :: earlier ∧ Commits P earlier s ∧ Committed P s e t ∧
      Journal.Runs (Committed P) t later now := by
  obtain ⟨later, earlier, rfl⟩ := List.append_of_mem member
  obtain ⟨s, t, first, step, rest⟩ := Journal.Runs.split run
  exact ⟨later, earlier, s, t, rfl, first, step, rest⟩

theorem Commits.past {s : Ledger} (run : Commits P log s) {e : Entry} (member : e ∈ log) :
    ∃ n, Past P s e.after n := by
  obtain ⟨_, _, _, t, _, first, step, rest⟩ := run.entry member
  have sound := step.sound first.sound
  obtain ⟨order, evolves⟩ := evolves_of_runs sound rest
  rw [← step.after] at sound evolves
  exact ⟨t.ids, sound, order, evolves⟩

/-- What the tables hold now is new or was left by the last entry. -/
theorem Commits.now {s : Ledger} (run : Commits P log s) {H : Database → Prop}
    (none : ¬ H Database.fresh) (holds : H s.tables) :
    ∃ e ∈ log, H e.after := by
  cases run with
  | nil => exact absurd holds none
  | @cons log _ _ e _ step => exact ⟨e, by simp, by rw [step.after]; exact holds⟩

namespace Past

variable {P : Platform} {s : Ledger} {d : Database} {n : Nat}

/-- A row whose id is known comes from the row that had it. -/
theorem descends {α : Type} {Ages : α → α → Prop} {id : α → String} {before after : List α}
    (h : Table.Descends Ages id (P.Drawn n s.ids) before after)
    (keeps : ∀ {a b}, Ages a b → id b = id a) (known : ∀ a ∈ before, P.Drawn 0 n (id a))
    (distinct : (before.map id).Nodup) {a b : α} (old : a ∈ before) (new : b ∈ after)
    (same : id b = id a) : Ages a b := by
  rcases h b new with ⟨c, stored, ages⟩ | fresh
  · rwa [Table.eq_of_key distinct old stored (same.symm.trans (keeps ages))]
  · exact absurd same.symm ((known a old).ne fresh (le_refl _))

theorem grant (past : Past P s d n) {g g' : Grant} (old : g ∈ d.grants) (new : g' ∈ s.tables.grants)
    (same : g'.id = g.id) : g.Ages g' :=
  descends past.evolves.grants (fun ages => ages.id) past.sound.known.grants past.sound.keyed.grants
    old new same

end Past

/-! ### Points of a run -/

/-- The tables that the transactions of a log left. -/
def tablesAfter : List Entry → Database
  | [] => Database.fresh
  | e :: _ => e.after

theorem Commits.tables {P : Platform} {log : List Entry} {s : Ledger} (run : Commits P log s) :
    s.tables = tablesAfter log := by
  cases run with
  | nil => rfl
  | cons _ step => exact step.after.symm

/-- A point of the run that led to the world: the transactions committed so far and the
tables they left, on which the next transaction works. -/
structure Point {σ ε : Type} (w : World σ ε) (log : List Entry) (d : Database) : Prop where
  history : log <:+ w.progress.commits
  tables : d = tablesAfter log

section
variable {σ ε : Type} [Profile.Host σ ε] {P : Platform} {w : World σ ε} {log : List Entry}
  {d : Database}

/-- The transactions up to a point are a run of the abstract machine. -/
theorem Reachable.commits (h : Reachable P w) (point : Point w log d) :
    ∃ ids, Commits P log ⟨d, ids⟩ := by
  obtain ⟨ids, _, run⟩ := h.chronicled.run
  obtain ⟨later, whole⟩ := point.history
  obtain rfl := point.tables
  suffices ∀ {later : List Entry} {s : Ledger}, Commits P (later ++ log) s →
      ∃ ids, Commits P log ⟨tablesAfter log, ids⟩ by
    rw [← whole] at run
    exact this run
  intro later
  induction later with
  | nil =>
    rintro ⟨tables, ids⟩ run
    obtain rfl : tables = _ := run.tables
    exact ⟨ids, run⟩
  | cons _ _ ih =>
    intro s run
    cases run with
    | cons earlier _ => exact ih earlier

/-- The last point. -/
theorem Reachable.now (h : Reachable P w) : Point w w.progress.commits w.members.tables := by
  obtain ⟨ids, _, run⟩ := h.chronicled.run
  exact ⟨List.suffix_refl _, Commits.tables run⟩

end

end Consent.Repository
