import Consent.Repository.Transition

/-!
How rows change over a run. A row keeps its identity; it ages along a preorder of its
own (`Grant.Ages` and so on), and a row that appears has a fresh id. `Evolves` says this
of two databases and composes, so it holds of any two points of a run.
-/
namespace Consent.Repository

/-- A grant is used up or revoked, and nothing else happens to it. -/
structure Grant.Ages (g g' : Grant) : Prop where
  same : g' = { g with remaining := g'.remaining, revoked := g'.revoked }
  revoked : g.revoked = true → g'.revoked = true
  used : g'.remaining = g.remaining ∨
    (g.mode = "ONCE" ∧ 0 ≤ g'.remaining ∧ g'.remaining < g.remaining)

/-- A receipt becomes invalid; the payload of an invalid receipt may be emptied. -/
structure Authorization.Ages (a a' : Authorization) : Prop where
  same : a' = { a with valid := a'.valid, payload := a'.payload }
  valid : a'.valid = true → a.valid = true
  payload : a'.payload = a.payload ∨ a'.valid = false ∧ a'.payload = ∅

/-- A request that ended can only become invalidated. -/
def RequestState.Next (state next : RequestState) : Prop :=
  next = state ∨ state = .pending ∨ next = .invalidated

/-- A dialogue shows a request and ends it; the columns and fields it asks with stay. -/
structure RequestRow.Ages (r r' : RequestRow) : Prop where
  same : r' = { r with
    state := r'.state, token := r'.token, uiOwner := r'.uiOwner, uiInstance := r'.uiInstance
    payload := r'.payload }
  state : r.state.Next r'.state
  fields : ∀ key, Stable key → r'.payload.get key = r.payload.get key

structure SessionRow.Ages (s s' : SessionRow) : Prop where
  id : s'.id = s.id
  subject : s'.subject = s.subject
  profile : s'.profile = s.profile
  ended : s.state.Ended → s'.state.Ended

/-! ### Aging is a preorder -/

theorem Grant.Ages.refl (g : Grant) : g.Ages g := ⟨rfl, fun h => h, Or.inl rfl⟩

theorem Grant.Ages.trans {g h k : Grant} (first : g.Ages h) (second : h.Ages k) : g.Ages k := by
  have mode : h.mode = g.mode := by rw [first.same]
  refine ⟨by rw [second.same, first.same], fun revoked => second.revoked (first.revoked revoked), ?_⟩
  rcases first.used with used | ⟨once, low, less⟩
  · rw [← used, ← mode]
    exact second.used
  · rcases second.used with used | ⟨_, low', less'⟩
    · rw [used]
      exact Or.inr ⟨once, low, less⟩
    · exact Or.inr ⟨once, low', lt_trans less' less⟩

theorem Grant.Ages.id {g g' : Grant} (h : g.Ages g') : g'.id = g.id := by rw [h.same]

theorem Grant.Loses.ages {g g' : Grant} (h : g.Loses g') : g.Ages g' := by
  have used : g'.remaining = g.remaining := by rw [h.1]
  exact ⟨by rw [used]; exact h.1, h.2, Or.inl used⟩

theorem Authorization.Ages.refl (a : Authorization) : a.Ages a := ⟨rfl, fun h => h, Or.inl rfl⟩

theorem Authorization.Ages.trans {a b c : Authorization} (first : a.Ages b) (second : b.Ages c) :
    a.Ages c := by
  refine ⟨by rw [second.same, first.same], fun valid => first.valid (second.valid valid), ?_⟩
  rcases second.payload with payload | cleared
  · rw [payload]
    refine first.payload.imp_right fun ⟨invalid, cleared⟩ => ⟨?_, cleared⟩
    exact Bool.eq_false_iff.mpr fun valid => by simp [second.valid valid] at invalid
  · exact Or.inr cleared

theorem Authorization.Ages.id {a a' : Authorization} (h : a.Ages a') : a'.id = a.id := by rw [h.same]

theorem Authorization.Loses.ages {a a' : Authorization} (h : a.Loses a') : a.Ages a' := by
  have payload : a'.payload = a.payload := by rw [h.1]
  exact ⟨by rw [payload]; exact h.1, h.2, Or.inl payload⟩

theorem RequestState.Next.refl (state : RequestState) : state.Next state := Or.inl rfl

theorem RequestState.Next.trans {a b c : RequestState} (first : a.Next b) (second : b.Next c) :
    a.Next c := by
  rcases second with rfl | pending | invalidated
  · exact first
  · rcases first with rfl | start | ended
    · exact Or.inr (Or.inl pending)
    · exact Or.inr (Or.inl start)
    · rw [ended] at pending
      cases pending
  · exact Or.inr (Or.inr invalidated)

theorem RequestRow.Ages.refl (r : RequestRow) : r.Ages r :=
  ⟨rfl, .refl _, fun _ _ => rfl⟩

theorem RequestRow.Ages.trans {r s t : RequestRow} (first : r.Ages s) (second : s.Ages t) :
    r.Ages t :=
  ⟨by rw [second.same, first.same], first.state.trans second.state,
    fun key stable => (second.fields key stable).trans (first.fields key stable)⟩

theorem RequestRow.Ages.id {r r' : RequestRow} (h : r.Ages r') : r'.id = r.id := by rw [h.same]

theorem RequestRow.Ends.ages {r r' : RequestRow} (h : r.Ends r') : r.Ages r' := by
  rcases h with rfl | ⟨same, ending⟩
  · exact .refl _
  · refine ⟨by rw [same], ?_, fun _ _ => by rw [same]⟩
    by_cases pending : r.state = .pending
    · exact Or.inr (Or.inl pending)
    · exact Or.inr (Or.inr (ending.2 pending))

theorem SessionRow.Ages.refl (s : SessionRow) : s.Ages s := ⟨rfl, rfl, rfl, fun h => h⟩

theorem SessionRow.Ages.trans {s t u : SessionRow} (first : s.Ages t) (second : t.Ages u) :
    s.Ages u :=
  ⟨second.id.trans first.id, second.subject.trans first.subject,
    second.profile.trans first.profile, fun ended => second.ended (first.ended ended)⟩

theorem SessionRow.Moves.ages {s s' : SessionRow} (h : s.Moves s') : s.Ages s' :=
  ⟨h.id, h.subject, h.profile, h.ended⟩

/-! ### Tables -/

/-- Rows age, and what appears has a fresh id. -/
structure Evolves (Fresh : String → Prop) (d d' : Database) : Prop where
  sessions : Table.Descends SessionRow.Ages SessionRow.id Fresh d.sessions d'.sessions
  requests : Table.Descends RequestRow.Ages RequestRow.id Fresh d.requests d'.requests
  grants : Table.Descends Grant.Ages Grant.id Fresh d.grants d'.grants
  authorizations :
    Table.Descends Authorization.Ages Authorization.id Fresh d.authorizations d'.authorizations
  sources : Table.Descends Eq ReceiptSource.receipt Fresh d.authorizationGrants d'.authorizationGrants
  artifacts : Table.Descends Artifact.Loses Artifact.id Fresh d.artifacts d'.artifacts
  artifactSources : Table.Descends Eq ArtifactSource.artifact Fresh d.artifactGrants d'.artifactGrants
  parents : Table.Descends Eq ArtifactParent.child Fresh d.artifactParents d'.artifactParents

namespace Evolves

variable {Fresh : String → Prop} {d e e' : Database}

theorem refl (d : Database) : Evolves Fresh d d where
  sessions := .refl SessionRow.Ages.refl _
  requests := .refl RequestRow.Ages.refl _
  grants := .refl Grant.Ages.refl _
  authorizations := .refl Authorization.Ages.refl _
  sources := .refl (fun _ => rfl) _
  artifacts := .refl Artifact.Loses.refl _
  artifactSources := .refl (fun _ => rfl) _
  parents := .refl (fun _ => rfl) _

theorem trans (first : Evolves Fresh d e) (second : Evolves Fresh e e') : Evolves Fresh d e' where
  sessions := first.sessions.trans SessionRow.Ages.trans (fun h => h.id) second.sessions
  requests := first.requests.trans RequestRow.Ages.trans (fun h => h.id) second.requests
  grants := first.grants.trans Grant.Ages.trans (fun h => h.id) second.grants
  authorizations :=
    first.authorizations.trans Authorization.Ages.trans (fun h => h.id) second.authorizations
  sources := first.sources.trans Eq.trans (fun h => by rw [h]) second.sources
  artifacts := first.artifacts.trans Artifact.Loses.trans (fun h => by rw [h.1]) second.artifacts
  artifactSources :=
    first.artifactSources.trans Eq.trans (fun h => by rw [h]) second.artifactSources
  parents := first.parents.trans Eq.trans (fun h => by rw [h]) second.parents

theorem mono {Fresh' : String → Prop} (weaker : ∀ id, Fresh id → Fresh' id)
    (h : Evolves Fresh d e) : Evolves Fresh' d e where
  sessions := h.sessions.mono weaker
  requests := h.requests.mono weaker
  grants := h.grants.mono weaker
  authorizations := h.authorizations.mono weaker
  sources := h.sources.mono weaker
  artifacts := h.artifacts.mono weaker
  artifactSources := h.artifactSources.mono weaker
  parents := h.parents.mono weaker

theorem fresh : Evolves Fresh d Database.fresh := by
  constructor <;> intro row member <;> cases member

theorem of_restricts (h : d.Restricts e) : Evolves Fresh d e where
  sessions := .of_forall₂ SessionRow.Moves.ages h.sessions
  requests := .of_forall₂ RequestRow.Ends.ages h.requests
  grants := .of_forall₂ Grant.Loses.ages h.grants
  authorizations := .of_forall₂ Authorization.Loses.ages h.authorizations
  sources := by rw [h.authorizationGrants]; exact .refl (fun _ => rfl) _
  artifacts := .of_forall₂ (fun h => h) h.artifacts
  artifactSources := by rw [h.artifactGrants]; exact .refl (fun _ => rfl) _
  parents := by rw [h.artifactParents]; exact .refl (fun _ => rfl) _

end Evolves

/-! ### Receipts -/

/-- What the uses of the listed grants do to one grant. -/
structure Grant.Uses (ids : List String) (g g' : Grant) : Prop where
  ages : g.Ages g'
  revoked : g'.revoked = g.revoked
  other : g.id ∉ ids → g' = g
  consumed : g.id ∈ ids → g.mode = "ONCE" → g.remaining ≤ 1 → g'.remaining ≤ 0

theorem Grant.Uses.trans {first second : List String} {g h k : Grant} (left : g.Uses first h)
    (right : h.Uses second k) : g.Uses (first ++ second) k := by
  have same : h.id = g.id := left.ages.id
  have mode : h.mode = g.mode := by rw [left.ages.same]
  refine ⟨left.ages.trans right.ages, right.revoked.trans left.revoked, fun absent => ?_,
    fun member once low => ?_⟩
  · rw [List.mem_append, not_or] at absent
    rw [right.other (same ▸ absent.2), left.other absent.1]
  · have falls : ∀ {a b : Grant}, a.Ages b → b.remaining ≤ a.remaining := fun h => by
      rcases h.used with used | ⟨_, _, less⟩
      · exact le_of_eq used
      · exact le_of_lt less
    rcases List.mem_append.mp member with earlier | later
    · exact le_trans (falls right.ages) (left.consumed earlier once low)
    · exact right.consumed (same ▸ later) (mode ▸ once) (le_trans (falls left.ages) low)

theorem useGrant_uses (receipt grant : String) (d : Database) :
    List.Forall₂ (Grant.Uses [grant]) d.grants (useGrant receipt d grant).grants := by
  rw [useGrant, Table.updateWhere, List.forall₂_map_right_iff, List.forall₂_same]
  intro g _
  split
  · rename_i used
    simp only [Bool.and_eq_true, decide_eq_true_eq] at used
    obtain ⟨⟨named, once⟩, left⟩ := used
    refine ⟨⟨rfl, fun h => h, Or.inr ⟨once, ?_, ?_⟩⟩, rfl, ?_, ?_⟩
    · dsimp only
      omega
    · dsimp only
      omega
    · simp [named]
    · dsimp only
      omega
  · rename_i unused
    simp only [Bool.and_eq_true, decide_eq_true_eq, not_and, not_lt] at unused
    refine ⟨.refl g, rfl, fun _ => rfl, fun member once _ => unused ⟨?_, once⟩⟩
    simpa using member

/-- The tables after a receipt was issued. -/
theorem foldl_useGrant (receipt : String) (grants : List String) (d : Database) :
    ∃ rows, List.Forall₂ (Grant.Uses grants) d.grants rows ∧
      grants.foldl (useGrant receipt) d =
        { d with
          grants := rows
          authorizationGrants :=
            d.authorizationGrants ++ grants.map fun grant => ⟨receipt, grant⟩ } := by
  induction grants generalizing d with
  | nil =>
    refine ⟨d.grants, ?_, by simp⟩
    exact Table.forall₂_refl (fun g => ⟨.refl g, rfl, fun _ => rfl, by simp⟩) _
  | cons grant rest ih =>
    obtain ⟨rows, uses, final⟩ := ih (useGrant receipt d grant)
    refine ⟨rows, ?_, ?_⟩
    · exact Table.forall₂_comp (T := Grant.Uses (grant :: rest)) Grant.Uses.trans
        (useGrant_uses receipt grant d) uses
    · rw [List.foldl_cons, final]
      simp [useGrant]

/-! ### Derived data -/

/-- The tables after an artifact was derived from the listed parents. -/
theorem foldl_inheritFrom (id : String) (parents : List String) (d : Database)
    (apart : id ∉ parents) :
    ∃ extra : List ArtifactSource, (∀ e ∈ extra, e.artifact = id) ∧
      (∀ g, (⟨id, g⟩ : ArtifactSource) ∈ d.artifactGrants ++ extra ↔
        ⟨id, g⟩ ∈ d.artifactGrants ∨ ∃ parent ∈ parents, ⟨parent, g⟩ ∈ d.artifactGrants) ∧
      parents.foldl (inheritFrom id) d =
        { d with
          artifactGrants := d.artifactGrants ++ extra
          artifactParents := d.artifactParents ++ parents.map fun parent => ⟨id, parent⟩ } := by
  induction parents generalizing d with
  | nil => exact ⟨[], by simp, by simp, by simp⟩
  | cons parent rest ih =>
    simp only [List.mem_cons, not_or] at apart
    obtain ⟨extra, owned, members, final⟩ := ih (inheritFrom id d parent) apart.2
    let copied : List ArtifactSource := (d.artifactGrants.filter fun e => decide (e.artifact = parent) &&
      !d.artifactGrants.contains ⟨id, e.grant⟩).map fun e => ⟨id, e.grant⟩
    have copies : ∀ e ∈ copied, e.artifact = id := by
      intro e member
      obtain ⟨_, _, rfl⟩ := List.mem_map.mp member
      rfl
    have inherited : ∀ g, (⟨id, g⟩ : ArtifactSource) ∈ d.artifactGrants ++ copied ↔
        ⟨id, g⟩ ∈ d.artifactGrants ∨ ⟨parent, g⟩ ∈ d.artifactGrants := by
      intro g
      rw [List.mem_append]
      constructor
      · rintro (old | added)
        · exact Or.inl old
        · obtain ⟨e, found, same⟩ := List.mem_map.mp added
          obtain ⟨stored, matching⟩ := List.mem_filter.mp found
          simp only [Bool.and_eq_true, decide_eq_true_eq] at matching
          obtain ⟨_, rfl⟩ := ArtifactSource.mk.inj same
          rw [← matching.1]
          exact Or.inr stored
      · rintro (old | inherited)
        · exact Or.inl old
        · by_cases present : (⟨id, g⟩ : ArtifactSource) ∈ d.artifactGrants
          · exact Or.inl present
          · refine Or.inr (List.mem_map.mpr ⟨⟨parent, g⟩, List.mem_filter.mpr ⟨inherited, ?_⟩, rfl⟩)
            simp [present]
    refine ⟨copied ++ extra, ?_, ?_, ?_⟩
    · intro e member
      rcases List.mem_append.mp member with here | later
      · exact copies e here
      · exact owned e later
    · intro g
      have others : ∀ other, other ∈ rest → ((⟨other, g⟩ : ArtifactSource) ∈
          (inheritFrom id d parent).artifactGrants ↔ ⟨other, g⟩ ∈ d.artifactGrants) := by
        intro other member
        rw [show (inheritFrom id d parent).artifactGrants = d.artifactGrants ++ copied from rfl,
          List.mem_append, or_iff_left]
        intro added
        have same : other = id := copies _ added
        exact apart.2 (same ▸ member)
      have inner := members g
      rw [show (inheritFrom id d parent).artifactGrants = d.artifactGrants ++ copied from rfl,
        inherited g] at inner
      rw [← List.append_assoc, inner, List.exists_mem_cons_iff, or_assoc]
      refine or_congr_right (or_congr_right (exists_congr fun other => and_congr_right fun member => ?_))
      exact others other member
    · rw [List.foldl_cons, final]
      simp [inheritFrom, copied]

/-! ### Effects -/

section
variable {F : String → Prop} {d d' : Database}

theorem Projected.evolves {definitions : Definitions} {ids : List String}
    (h : Projected definitions d ids d') : Evolves F d d' := by
  induction h with
  | nil => exact .refl d
  | @cons ids mid id config active _ _ _ _ ih =>
    have retired : Evolves F mid (mid.invalidate id) :=
      .of_restricts (Database.invalidate_restricts mid id)
    exact (ih.trans retired).trans { Evolves.refl (mid.invalidate id) with }

theorem Reclaims.evolves (h : Reclaims d d') : Evolves F d d' := by
  obtain ⟨id, type, reclaimable, rfl⟩ := h
  cases type with
  | receipts =>
    refine { Evolves.refl d with authorizations := ?_, sources := .filter (fun _ => rfl) _ }
    refine .updateWhere Authorization.Ages.refl fun a _ invalid => ⟨rfl, fun valid => valid, ?_⟩
    simp only [Bool.and_eq_true, Bool.not_eq_eq_eq_not, Bool.not_true] at invalid
    exact Or.inr ⟨invalid.2, rfl⟩
  | requests =>
    refine { Evolves.refl d with requests := ?_ }
    refine .updateWhere RequestRow.Ages.refl fun _ _ _ => ⟨rfl, .refl _, ?_⟩
    rintro key ⟨_, visible, other⟩
    refine Message.get_eraseAll_of_notMem _ fun member => ?_
    have hidden : ∀ key ∈ privateFields, starts key "_" = true ∨ key ∈ columnFields := by decide
    rcases hidden key member with unseen | column
    · simp [visible] at unseen
    · exact other (by simp [column])
  | sessions =>
    refine { Evolves.refl d with sessions := ?_ }
    exact .updateWhere SessionRow.Ages.refl fun _ _ _ => ⟨rfl, rfl, rfl, fun ended => ended⟩
  | grants => exact { Evolves.refl d with grants := .filter Grant.Ages.refl _ }

theorem Reclaims.evolves_many (h : Relation.ReflTransGen Reclaims d d') : Evolves F d d' := by
  induction h with
  | refl => exact .refl d
  | tail _ last ih => exact ih.trans last.evolves

variable {f : Frame} {call : Call} {reply : Message}

theorem Issued.evolves {peer : Peer} {request : Message} {a : Authorization} {grants : List String}
    (h : Issued f d peer request a grants) :
    Evolves f.Fresh d (Issued.after d a grants) := by
  obtain ⟨rows, uses, final⟩ := foldl_useGrant a.id grants
    { d with authorizations := d.authorizations ++ [a] }
  rw [Issued.after, final]
  refine { Evolves.refl d with grants := ?_, authorizations := ?_, sources := ?_ }
  · exact .of_forall₂ (fun use => use.ages) uses
  · exact .append Authorization.Ages.refl (by simpa using h.fresh)
  · refine .append (fun _ => rfl) fun e member => ?_
    obtain ⟨_, _, rfl⟩ := List.mem_map.mp member
    exact h.fresh

/-- The tables after a derivation. -/
theorem Derived.tables {a : Artifact} {parents : List String}
    (unused : ∀ a ∈ d.artifacts, ¬ f.Fresh a.id) (h : Derived f d a parents) :
    ∃ extra : List ArtifactSource, (∀ e ∈ extra, e.artifact = a.id) ∧
      (∀ g, (⟨a.id, g⟩ : ArtifactSource) ∈ d.artifactGrants ++ extra ↔
        ⟨a.id, g⟩ ∈ d.artifactGrants ∨ ∃ parent ∈ parents, ⟨parent, g⟩ ∈ d.artifactGrants) ∧
      insertDerived d a parents =
        { d with
          artifacts := d.artifacts ++ [a]
          artifactGrants := d.artifactGrants ++ extra
          artifactParents := d.artifactParents ++
            (parents.mergeSort fun x y => decide (x ≤ y)).map fun parent => ⟨a.id, parent⟩ } := by
  have apart : a.id ∉ parents.mergeSort fun x y => decide (x ≤ y) := by
    intro member
    obtain ⟨p, same, parent⟩ := h.parent a.id (List.mem_mergeSort.mp member)
    have stored := List.mem_of_find?_eq_some parent.found
    exact unused p stored (same ▸ h.fresh)
  obtain ⟨extra, owned, members, final⟩ := foldl_inheritFrom a.id _
    { d with artifacts := d.artifacts ++ [a] } apart
  exact ⟨extra, owned, by simpa only [List.mem_mergeSort] using members, final⟩

theorem Derived.evolves {a : Artifact} {parents : List String}
    (unused : ∀ a ∈ d.artifacts, ¬ f.Fresh a.id) (h : Derived f d a parents) :
    Evolves f.Fresh d (insertDerived d a parents).bump := by
  obtain ⟨extra, owned, _, final⟩ := h.tables unused
  rw [final]
  refine { Evolves.refl d with artifacts := ?_, artifactSources := ?_, parents := ?_ }
  · exact .append Artifact.Loses.refl (by simpa using h.fresh)
  · exact .append (fun _ => rfl) fun e member => by rw [owned e member]; exact h.fresh
  · refine .append (fun _ => rfl) fun e member => ?_
    obtain ⟨_, _, rfl⟩ := List.mem_map.mp member
    exact h.fresh

/-- A dialogue writes the displayed request, and keeps what it asks for. -/
theorem Displayed.descends {p : Display} (h : Displayed d p) (keyed : d.Keyed)
    {condition : RequestRow → Bool} {write : RequestRow → RequestRow}
    (own : ∀ r, condition r = true → r.id = p.row.id)
    (keeps : ∀ r, write r = { r with
      state := (write r).state, token := (write r).token, uiOwner := (write r).uiOwner
      uiInstance := (write r).uiInstance, payload := (write r).payload })
    (retains : Retains p (write p.row).payload) :
    Table.Descends RequestRow.Ages RequestRow.id F d.requests
      (Table.updateWhere d.requests condition write) := by
  refine .updateWhere RequestRow.Ages.refl fun r member holds => ?_
  obtain rfl := Table.eq_of_key keyed.requests member h.stored (own r holds)
  exact ⟨keeps _, Or.inr (Or.inl h.state), h.retains retains⟩

/-- Every committed transaction lets rows age and gives new rows fresh ids. -/
theorem Effect.evolves (keyed : d.Keyed) (unused : ∀ a ∈ d.artifacts, ¬ f.Fresh a.id)
    (h : Effect f d call reply d') :
    Evolves f.Fresh d d' := by
  cases h with
  | create => exact .fresh
  | incarnate fresh => exact { Evolves.refl d with }
  | restrict other narrows => exact .of_restricts narrows.toRestricts
  | project steps marks moved =>
    rw [marks]
    exact { steps.evolves (F := f.Fresh) with }
  | openSession fresh =>
    exact { Evolves.refl d with sessions := .append SessionRow.Ages.refl (by simpa using fresh) }
  | store stored =>
    exact { Evolves.refl d with
      requests := .append RequestRow.Ages.refl (by simpa using stored.fresh) }
  | issue issued => exact issued.evolves
  | prompt prompted =>
    exact { Evolves.refl d with
      requests := prompted.displayed.descends keyed (fun _ same => by simpa using same)
        (fun _ => rfl) (displayedPayload_retains _ _) }
  | complete displayed selected ends retains =>
    exact { Evolves.refl d with
      requests := displayed.descends keyed (fun _ same => by simpa using same) (fun _ => rfl)
        retains }
  | answer answered retains =>
    refine { Evolves.refl d with
      requests := answered.displayed.descends keyed (fun _ waits => ?_) (fun _ => rfl) retains
      grants := ?_ }
    · simp only [Bool.and_eq_true, decide_eq_true_eq] at waits
      exact waits.1
    · refine .append Grant.Ages.refl fun g member => ?_
      obtain ⟨_, _, grant⟩ := answered.granted g member
      exact grant.fresh
  | acquire acquired =>
    refine { Evolves.refl d with artifacts := ?_, artifactSources := ?_ }
    · exact .append Artifact.Loses.refl (by simpa using acquired.fresh)
    · refine .append (fun _ => rfl) fun e member => ?_
      obtain ⟨_, _, rfl⟩ := List.mem_map.mp member
      exact acquired.fresh
  | derive derived => exact derived.evolves unused
  | compact steps => exact Reclaims.evolves_many steps

/-! ### Where rows come from -/

/-- A derivation touches the artifacts and their links only. -/
theorem insertDerived_eq (d : Database) (a : Artifact) (parents : List String) :
    insertDerived d a parents =
      { d with
        artifacts := (insertDerived d a parents).artifacts
        artifactGrants := (insertDerived d a parents).artifactGrants
        artifactParents := (insertDerived d a parents).artifactParents } :=
  List.foldlRecOn (motive := fun (e : Database) => e = { d with
      artifacts := e.artifacts, artifactGrants := e.artifactGrants
      artifactParents := e.artifactParents })
    (parents.mergeSort fun x y => decide (x ≤ y)) (inheritFrom a.id) rfl fun e same parent _ => by
      conv_lhs => rw [inheritFrom, same]
      rfl

/-- New grants come from an answered prompt only. -/
theorem Effect.new_grant (h : Effect f d call reply d') {g : Grant} (member : g ∈ d'.grants) :
    (∃ old ∈ d.grants, old.Ages g) ∨
      ∃ peer request p new state payload, call = .prompt peer request true ∧
        Answered f d peer request p new state ∧ d' = Answered.after d p new state payload ∧
        g ∈ new := by
  have unchanged : g ∈ d.grants → ∃ old ∈ d.grants, old.Ages g := fun stored =>
    ⟨g, stored, .refl g⟩
  cases h with
  | create => cases member
  | restrict other narrows =>
    obtain ⟨old, stored, loses⟩ := Table.forall₂_exists_left narrows.grants member
    exact Or.inl ⟨old, stored, loses.ages⟩
  | project steps marks moved =>
    rw [marks] at member
    exact Or.inl (((steps.evolves (F := fun _ => False)).grants g member).resolve_right fun h => h)
  | @issue peer request reply a grants issued =>
    obtain ⟨rows, uses, final⟩ := foldl_useGrant a.id grants
      { d with authorizations := d.authorizations ++ [a] }
    rw [Issued.after, final] at member
    obtain ⟨old, stored, use⟩ := Table.forall₂_exists_left uses member
    exact Or.inl ⟨old, stored, use.ages⟩
  | answer answered =>
    rcases List.mem_append.mp member with stored | added
    · exact Or.inl (unchanged stored)
    · exact Or.inr ⟨_, _, _, _, _, _, rfl, answered, rfl, added⟩
  | derive derived =>
    rw [insertDerived_eq] at member
    exact Or.inl (unchanged member)
  | compact steps =>
    exact Or.inl (((Reclaims.evolves_many (F := fun _ => False) steps).grants g
      member).resolve_right fun h => h)
  | _ => exact Or.inl (unchanged member)

/-- New requests are stored by `request`. -/
theorem Effect.new_request (keyed : d.Keyed) (h : Effect f d call reply d') {r : RequestRow}
    (member : r ∈ d'.requests) :
    (∃ old ∈ d.requests, old.Ages r) ∨
      ∃ peer request, call = .evaluate peer request true ∧ Stored f peer request r := by
  have unchanged : r ∈ d.requests → ∃ old ∈ d.requests, old.Ages r := fun stored =>
    ⟨r, stored, .refl r⟩
  have aged : Evolves (fun _ => False) d d' → ∃ old ∈ d.requests, old.Ages r := fun evolves =>
    (evolves.requests r member).resolve_right fun h => h
  cases h with
  | create => cases member
  | restrict other narrows => exact Or.inl (aged (.of_restricts narrows.toRestricts))
  | project steps marks moved =>
    rw [marks] at member
    exact Or.inl (((steps.evolves (F := fun _ => False)).requests r member).resolve_right fun h => h)
  | store stored =>
    rcases List.mem_append.mp member with old | added
    · exact Or.inl (unchanged old)
    · obtain rfl := List.mem_singleton.mp added
      exact Or.inr ⟨_, _, rfl, stored⟩
  | @issue peer request reply a grants issued =>
    obtain ⟨rows, uses, final⟩ := foldl_useGrant a.id grants
      { d with authorizations := d.authorizations ++ [a] }
    rw [Issued.after, final] at member
    exact Or.inl (unchanged member)
  | prompt prompted =>
    exact Or.inl ((prompted.displayed.descends (F := fun _ => False) keyed
      (fun _ same => by simpa using same) (fun _ => rfl) (displayedPayload_retains _ _) r
      member).resolve_right fun h => h)
  | complete displayed selected ends retains =>
    exact Or.inl ((displayed.descends (F := fun _ => False) keyed (fun _ same => by simpa using same)
      (fun _ => rfl) retains r member).resolve_right fun h => h)
  | answer answered retains =>
    refine Or.inl ((answered.displayed.descends (F := fun _ => False) keyed (fun _ waits => ?_)
      (fun _ => rfl) retains r member).resolve_right fun h => h)
    simp only [Bool.and_eq_true, decide_eq_true_eq] at waits
    exact waits.1
  | derive derived =>
    rw [insertDerived_eq] at member
    exact Or.inl (unchanged member)
  | compact steps => exact Or.inl (aged (Reclaims.evolves_many steps))
  | _ => exact Or.inl (unchanged member)

/-- New receipts are issued, and their sources with them. -/
theorem Effect.new_receipt (h : Effect f d call reply d') {a : Authorization}
    (member : a ∈ d'.authorizations) :
    (∃ old ∈ d.authorizations, old.Ages a) ∨
      ∃ peer request grants, call = .evaluate peer request false ∧
        Issued f d peer request a grants ∧ d' = Issued.after d a grants := by
  have unchanged : a ∈ d.authorizations → ∃ old ∈ d.authorizations, old.Ages a := fun stored =>
    ⟨a, stored, .refl a⟩
  cases h with
  | create => cases member
  | restrict other narrows =>
    obtain ⟨old, stored, loses⟩ := Table.forall₂_exists_left narrows.authorizations member
    exact Or.inl ⟨old, stored, loses.ages⟩
  | project steps marks moved =>
    rw [marks] at member
    exact Or.inl (((steps.evolves (F := fun _ => False)).authorizations a
      member).resolve_right fun h => h)
  | @issue peer request reply new grants issued =>
    obtain ⟨rows, _, final⟩ := foldl_useGrant new.id grants
      { d with authorizations := d.authorizations ++ [new] }
    rw [Issued.after, final] at member
    rcases List.mem_append.mp member with stored | added
    · exact Or.inl (unchanged stored)
    · obtain rfl := List.mem_singleton.mp added
      exact Or.inr ⟨peer, request, grants, rfl, issued, rfl⟩
  | derive derived =>
    rw [insertDerived_eq] at member
    exact Or.inl (unchanged member)
  | compact steps =>
    exact Or.inl (((Reclaims.evolves_many (F := fun _ => False) steps).authorizations a
      member).resolve_right fun h => h)
  | _ => exact Or.inl (unchanged member)

/-- New sources of receipts come from an issued receipt only. -/
theorem Effect.new_source (h : Effect f d call reply d') {e : ReceiptSource}
    (member : e ∈ d'.authorizationGrants) :
    e ∈ d.authorizationGrants ∨
      ∃ peer request a grants, call = .evaluate peer request false ∧
        Issued f d peer request a grants ∧ d' = Issued.after d a grants ∧ e.receipt = a.id ∧
        e.grant ∈ grants := by
  cases h with
  | create => cases member
  | restrict other narrows =>
    rw [narrows.authorizationGrants] at member
    exact Or.inl member
  | project steps marks moved =>
    rw [marks] at member
    have old := (steps.evolves (F := fun _ => False)).sources e member
    obtain ⟨_, stored, rfl⟩ := old.resolve_right fun h => h
    exact Or.inl stored
  | @issue peer request reply a grants issued =>
    obtain ⟨rows, uses, final⟩ := foldl_useGrant a.id grants
      { d with authorizations := d.authorizations ++ [a] }
    rw [Issued.after, final] at member
    rcases List.mem_append.mp member with stored | added
    · exact Or.inl stored
    · obtain ⟨grant, used, rfl⟩ := List.mem_map.mp added
      exact Or.inr ⟨peer, request, a, grants, rfl, issued, rfl, rfl, used⟩
  | derive derived =>
    rw [insertDerived_eq] at member
    exact Or.inl member
  | compact steps =>
    have old := (Reclaims.evolves_many (F := fun _ => False) steps).sources e member
    obtain ⟨_, stored, rfl⟩ := old.resolve_right fun h => h
    exact Or.inl stored
  | _ => exact Or.inl member

end

end Consent.Repository
