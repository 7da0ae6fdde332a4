import Consent.Repository.Maintenance

/-!
Most transactions only take rights away: they revoke grants, invalidate receipts, end
requests, move sessions on and block artifacts. `Database.Restricts` says so row by
row. It is reflexive and transitive, so a transaction restricts when its statements do.
-/
namespace Consent.Repository

/-- At most the revocation flag is raised. -/
def Grant.Loses (g g' : Grant) : Prop :=
  g' = { g with revoked := g'.revoked } ∧ (g.revoked = true → g'.revoked = true)

/-- At most the receipt becomes invalid. -/
def Authorization.Loses (a a' : Authorization) : Prop :=
  a' = { a with valid := a'.valid } ∧ (a'.valid = true → a.valid = true)

/-- At most an artifact is blocked or released. -/
def Artifact.Loses (a a' : Artifact) : Prop :=
  a' = { a with state := a'.state, cleanupError := a'.cleanupError } ∧
    (a'.state = .active → a.state = .active)

/-- The states in which a request ends other than by an answer; an ended request can
only become invalidated. -/
def RequestState.Ending (state next : RequestState) : Prop :=
  (next = .cancelled ∨ next = .expired ∨ next = .invalidated) ∧
    (state ≠ .pending → next = .invalidated)

/-- At most the request ends and its token is dropped. -/
def RequestRow.Ends (r r' : RequestRow) : Prop :=
  r' = r ∨ (r' = { r with state := r'.state, token := "" } ∧ r.state.Ending r'.state)

def SessionState.Ended (state : SessionState) : Prop := state = .closing ∨ state = .closed

/-- A session keeps its identity, and stays ended once it is. -/
structure SessionRow.Moves (s s' : SessionRow) : Prop where
  id : s'.id = s.id
  subject : s'.subject = s.subject
  profile : s'.profile = s.profile
  owner : s'.owner = s.owner
  «instance» : s'.instance = s.instance
  ended : s.state.Ended → s'.state.Ended
  closed : s.state = .closed → s' = s

theorem Grant.Loses.refl (g : Grant) : g.Loses g := ⟨rfl, fun h => h⟩

theorem Grant.Loses.trans {g h k : Grant} (first : g.Loses h) (second : h.Loses k) :
    g.Loses k := by
  refine ⟨?_, fun revoked => second.2 (first.2 revoked)⟩
  rw [second.1, first.1]

theorem Authorization.Loses.refl (a : Authorization) : a.Loses a := ⟨rfl, fun h => h⟩

theorem Authorization.Loses.trans {a b c : Authorization} (first : a.Loses b)
    (second : b.Loses c) : a.Loses c := by
  refine ⟨?_, fun valid => first.2 (second.2 valid)⟩
  rw [second.1, first.1]

theorem Artifact.Loses.refl (a : Artifact) : a.Loses a := ⟨rfl, fun h => h⟩

theorem Artifact.Loses.trans {a b c : Artifact} (first : a.Loses b) (second : b.Loses c) :
    a.Loses c := by
  refine ⟨?_, fun active => first.2 (second.2 active)⟩
  rw [second.1, first.1]

theorem RequestRow.Ends.refl (r : RequestRow) : r.Ends r := Or.inl rfl

theorem RequestState.Ending.ne_pending {state next : RequestState} (h : state.Ending next) :
    next ≠ .pending := by
  rintro rfl
  simp [RequestState.Ending] at h

theorem RequestRow.Ends.trans {r s t : RequestRow} (first : r.Ends s) (second : s.Ends t) :
    r.Ends t := by
  rcases first with rfl | ⟨same, ending⟩
  · exact second
  · rcases second with rfl | ⟨again, next⟩
    · exact Or.inr ⟨same, ending⟩
    · refine Or.inr ⟨by rw [again, same], next.1, fun _ => next.2 ending.ne_pending⟩

theorem SessionRow.Moves.refl (s : SessionRow) : s.Moves s :=
  ⟨rfl, rfl, rfl, rfl, rfl, fun h => h, fun _ => rfl⟩

theorem SessionRow.Moves.trans {s t u : SessionRow} (first : s.Moves t) (second : t.Moves u) :
    s.Moves u where
  id := second.id.trans first.id
  subject := second.subject.trans first.subject
  profile := second.profile.trans first.profile
  owner := second.owner.trans first.owner
  «instance» := second.instance.trans first.instance
  ended h := second.ended (first.ended h)
  closed h := by
    have same := first.closed h
    subst same
    exact second.closed h

/-- Only rights are taken away; the tables that record who uses what are untouched. -/
structure Database.Restricts (d d' : Database) : Prop where
  definitions : d'.definitions = d.definitions
  sessions : List.Forall₂ SessionRow.Moves d.sessions d'.sessions
  requests : List.Forall₂ RequestRow.Ends d.requests d'.requests
  grants : List.Forall₂ Grant.Loses d.grants d'.grants
  authorizations : List.Forall₂ Authorization.Loses d.authorizations d'.authorizations
  authorizationGrants : d'.authorizationGrants = d.authorizationGrants
  artifacts : List.Forall₂ Artifact.Loses d.artifacts d'.artifacts
  artifactGrants : d'.artifactGrants = d.artifactGrants
  artifactParents : d'.artifactParents = d.artifactParents
  registryRevision : d'.registryRevision = d.registryRevision
  incarnation : d'.incarnation = d.incarnation
  revision : d.revision ≤ d'.revision

namespace Database

theorem Restricts.refl (d : Database) : d.Restricts d where
  definitions := rfl
  sessions := Table.forall₂_refl SessionRow.Moves.refl _
  requests := Table.forall₂_refl RequestRow.Ends.refl _
  grants := Table.forall₂_refl Grant.Loses.refl _
  authorizations := Table.forall₂_refl Authorization.Loses.refl _
  authorizationGrants := rfl
  artifacts := Table.forall₂_refl Artifact.Loses.refl _
  artifactGrants := rfl
  artifactParents := rfl
  registryRevision := rfl
  incarnation := rfl
  revision := le_refl _

theorem Restricts.trans {d e f : Database} (first : d.Restricts e) (second : e.Restricts f) :
    d.Restricts f where
  definitions := second.definitions.trans first.definitions
  sessions :=
    Table.forall₂_trans (R := SessionRow.Moves) SessionRow.Moves.trans first.sessions second.sessions
  requests :=
    Table.forall₂_trans (R := RequestRow.Ends) RequestRow.Ends.trans first.requests second.requests
  grants := Table.forall₂_trans (R := Grant.Loses) Grant.Loses.trans first.grants second.grants
  authorizations :=
    Table.forall₂_trans (R := Authorization.Loses) Authorization.Loses.trans first.authorizations
      second.authorizations
  authorizationGrants := second.authorizationGrants.trans first.authorizationGrants
  artifacts :=
    Table.forall₂_trans (R := Artifact.Loses) Artifact.Loses.trans first.artifacts second.artifacts
  artifactGrants := second.artifactGrants.trans first.artifactGrants
  artifactParents := second.artifactParents.trans first.artifactParents
  registryRevision := second.registryRevision.trans first.registryRevision
  incarnation := second.incarnation.trans first.incarnation
  revision := le_trans first.revision second.revision

/-! ### Statements that restrict -/

theorem revision_bump (d : Database) : d.revision < d.bump.revision := by
  simp [bump]

theorem bump_restricts (d : Database) : d.Restricts d.bump :=
  { Restricts.refl d with revision := le_of_lt d.revision_bump }


theorem revokeGrants_restricts (d : Database) (condition : Grant → Bool) :
    d.Restricts (d.revokeGrants condition) where
  __ := Restricts.refl d
  grants := Table.forall₂_updateWhere Grant.Loses.refl fun _ _ _ => ⟨rfl, fun _ => rfl⟩

theorem invalidateReceipts_restricts (d : Database) (condition : Authorization → Bool) :
    d.Restricts (d.invalidateReceipts condition) where
  __ := Restricts.refl d
  authorizations := Table.forall₂_updateWhere Authorization.Loses.refl
    fun _ _ _ => ⟨rfl, fun valid => by simp at valid⟩

theorem blockArtifacts_restricts (d : Database) (condition : Artifact → Bool) :
    d.Restricts (d.blockArtifacts condition) where
  __ := Restricts.refl d
  artifacts := Table.forall₂_updateWhere Artifact.Loses.refl
    fun _ _ _ => ⟨rfl, fun active => by simp at active⟩

theorem endRequests_restricts (d : Database) {state : RequestState} {condition : RequestRow → Bool}
    (ending : ∀ r ∈ d.requests, condition r = true → r.state.Ending state) :
    d.Restricts (d.endRequests state condition) where
  __ := Restricts.refl d
  requests := Table.forall₂_updateWhere RequestRow.Ends.refl
    fun r member h => Or.inr ⟨rfl, ending r member h⟩

theorem updateSessions_restricts (d : Database) {condition : SessionRow → Bool}
    {f : SessionRow → SessionRow}
    (moves : ∀ s ∈ d.sessions, condition s = true → s.Moves (f s)) :
    d.Restricts (d.updateSessions condition f) where
  __ := Restricts.refl d
  sessions := Table.forall₂_updateWhere SessionRow.Moves.refl moves

theorem invalidated_ending (state : RequestState) : state.Ending .invalidated := by
  simp [RequestState.Ending]

theorem closeSession_restricts (d : Database) (session : String) :
    d.Restricts (d.closeSession session) := by
  refine (updateSessions_restricts d ?_).trans ((revokeGrants_restricts _ _).trans
    ((blockArtifacts_restricts _ _).trans
      (endRequests_restricts _ fun r _ _ => invalidated_ending r.state)))
  intro s _ h
  simp only [Bool.and_eq_true, decide_eq_true_eq] at h
  refine ⟨rfl, rfl, rfl, rfl, rfl, fun _ => Or.inl rfl, fun closed => ?_⟩
  simp [closed] at h

theorem suspendSession_restricts (d : Database) (session : String) (now : Int) :
    d.Restricts (d.suspendSession session now) := by
  refine (updateSessions_restricts d ?_).trans
    (endRequests_restricts _ fun r _ _ => invalidated_ending r.state)
  intro s _ h
  simp only [Bool.and_eq_true, decide_eq_true_eq] at h
  refine ⟨rfl, rfl, rfl, rfl, rfl, fun ended => ?_, fun closed => ?_⟩
  · simp [SessionState.Ended, h.2] at ended
  · simp [closed] at h

theorem finishCleanup_restricts (d : Database) : d.Restricts d.finishCleanup := by
  refine updateSessions_restricts d fun s _ h => ?_
  simp only [Bool.and_eq_true, decide_eq_true_eq] at h
  refine ⟨rfl, rfl, rfl, rfl, rfl, fun _ => Or.inr rfl, fun closed => ?_⟩
  simp [closed] at h

theorem invalidate_restricts (d : Database) (definition : String) :
    d.Restricts (d.invalidate definition) :=
  (revokeGrants_restricts d _).trans ((invalidateReceipts_restricts _ _).trans
    ((blockArtifacts_restricts _ _).trans
      (endRequests_restricts _ fun r _ _ => invalidated_ending r.state)))

theorem foldl_restricts {α : Type} {f : Database → α → Database}
    (turn : ∀ (d : Database) item, d.Restricts (f d item)) (items : List α) (d : Database) :
    d.Restricts (items.foldl f d) := by
  induction items generalizing d with
  | nil => exact Restricts.refl d
  | cons item rest ih => exact (turn d item).trans (ih (f d item))

/-! ### Whole transactions -/

/-- No grant and no session changed, apart from sessions whose cleanup is finished. -/
structure Quiet (d d' : Database) : Prop where
  grants : d'.grants = d.grants
  sessions : d'.sessions = d.sessions ∨ d'.sessions = d.finishCleanup.sessions

/-- A transaction that only takes rights away moves the revision, or it is quiet. -/
structure Narrows (d d' : Database) : Prop extends d.Restricts d' where
  moved : d.revision < d'.revision ∨ d.Quiet d'

theorem Narrows.refl (d : Database) : d.Narrows d :=
  ⟨Restricts.refl d, Or.inr ⟨rfl, Or.inl rfl⟩⟩

/-- A transaction that ends with `Bump`. -/
theorem Restricts.bump {d e : Database} (h : d.Restricts e) : d.Narrows e.bump :=
  ⟨h.trans (bump_restricts e), Or.inl (lt_of_le_of_lt h.revision e.revision_bump)⟩

/-- Blocked artifacts still hold the cleanup of their session. -/
theorem finishCleanup_blockArtifacts (d : Database) (condition : Artifact → Bool) :
    (d.blockArtifacts condition).finishCleanup.sessions = d.finishCleanup.sessions := by
  have resident : ∀ s : SessionRow,
      ((d.blockArtifacts condition).artifacts.any fun a =>
        decide (a.session = s.id) && decide (a.state ≠ .deleted)) =
      d.artifacts.any fun a => decide (a.session = s.id) && decide (a.state ≠ .deleted) := by
    intro s
    simp only [blockArtifacts, updateArtifacts, Table.updateWhere, List.any_map]
    congr 1
    funext a
    by_cases blocked : a.state = .active ∧ condition a = true
    · simp [blocked.1, blocked.2]
    · simp [blocked]
  simp only [finishCleanup, updateSessions, resident]
  rfl

theorem resetRuntime_narrows (d : Database) : d.Narrows d.resetRuntime := by
  refine Restricts.bump ((endRequests_restricts d fun r _ _ => invalidated_ending r.state).trans
    ((updateSessions_restricts _ ?_).trans ((revokeGrants_restricts _ _).trans
      ((invalidateReceipts_restricts _ _).trans ((blockArtifacts_restricts _ _).trans
        (finishCleanup_restricts _))))))
  intro s _ h
  simp only [decide_eq_true_eq] at h
  refine ⟨rfl, rfl, rfl, rfl, rfl, fun _ => Or.inl rfl, fun closed => ?_⟩
  simp [closed] at h

end Database

theorem fenceBinding_restricts (retireGrants : Bool) (removedUser : String) (d : Database)
    (b : Profile.Binding) : d.Restricts (fenceBinding retireGrants removedUser d b) := by
  dsimp only [fenceBinding]
  split
  · exact (Database.foldl_restricts Database.closeSession_restricts _ d).trans
      ((Database.endRequests_restricts _ fun r _ _ => Database.invalidated_ending r.state).trans
        (Database.revokeGrants_restricts _ _))
  · exact (Database.foldl_restricts Database.closeSession_restricts _ d).trans
      (Database.endRequests_restricts _ fun r _ _ => Database.invalidated_ending r.state)

theorem fenceTables_narrows (bindings : List Profile.Binding) (retireGrants : Bool)
    (removedUser : String) (d : Database) :
    d.Narrows (fenceTables bindings retireGrants removedUser d) :=
  ((Database.foldl_restricts (fenceBinding_restricts retireGrants removedUser) bindings d).trans
    ((Database.invalidateReceipts_restricts _ _).trans (Database.finishCleanup_restricts _))).bump

end Consent.Repository
