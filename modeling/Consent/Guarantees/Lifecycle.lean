import Consent.Guarantees.Once

/-!
The life of rows over a whole run. A request goes back to the call that stored it, a grant to
an answer that allowed a prompt, and a receipt to a check whose rows such grants covered; from
then on rows only age.
-/
namespace Consent.Repository
open Profile

/-- The transaction is a `request` that stores the row. -/
def Entry.Stores (e : Entry) (r : RequestRow) : Prop :=
  ∃ peer request, e.call = .evaluate peer request true ∧ Stored e.frame peer request r

/-- The transaction is an answer that allows a prompt, and the grant is one that it gives. -/
def Entry.Gives (e : Entry) (g : Grant) : Prop :=
  ∃ peer request p new state, e.call = .prompt peer request true ∧
    request.get "decision" = "ALLOWED" ∧
    Answered e.frame e.before peer request p new state ∧ g ∈ new

/-- The transaction is a check that issues the receipt under these grants. -/
def Entry.Issues (e : Entry) (a : Authorization) (grants : List String) : Prop :=
  ∃ peer request, e.call = .evaluate peer request false ∧
    Issued e.frame e.before peer request a grants

section
variable {P : Platform} {log : List Entry} {s t : Ledger} {e : Entry}

theorem Committed.gives (step : Committed P s e t) (keyed : s.tables.Keyed) :
    ∀ g ∈ t.tables.grants, (∃ old ∈ s.tables.grants, old.Ages g) ∨ e.Gives g := by
  intro g member
  rcases (step.effect keyed).new_grant member with old |
    ⟨peer, request, p, new, state, _, call, answered, _, inside⟩
  · exact Or.inl old
  · rw [← step.before] at answered
    refine Or.inr ⟨peer, request, p, new, state, call, ?_, answered, inside⟩
    rcases answered.decision with ⟨allowed, _⟩ | ⟨_, _, none⟩
    · exact allowed
    · simp [none] at inside

theorem Committed.issues (step : Committed P s e t) (keyed : s.tables.Keyed) :
    ∀ a ∈ t.tables.authorizations,
      (∃ old ∈ s.tables.authorizations, old.Ages a) ∨ ∃ grants, e.Issues a grants := by
  intro a member
  rcases (step.effect keyed).new_receipt member with old | ⟨peer, request, grants, call, issued, _⟩
  · exact Or.inl old
  · rw [← step.before] at issued
    exact Or.inr ⟨grants, peer, request, call, issued⟩

theorem Commits.asked (run : Commits P log s) :
    ∀ r ∈ s.tables.requests, ∃ e ∈ log, ∃ first : RequestRow, e.Stores first ∧ first.Ages r :=
  run.origin (·.tables.requests) RequestRow.Ages Entry.Stores .refl .trans rfl fun run step _ =>
    (step.effect (Commits.sound run).keyed).new_request (Commits.sound run).keyed

theorem Commits.given (run : Commits P log s) :
    ∀ g ∈ s.tables.grants, ∃ e ∈ log, ∃ first : Grant, e.Gives first ∧ first.Ages g :=
  run.origin (·.tables.grants) Grant.Ages Entry.Gives .refl .trans rfl fun run step =>
    step.gives (Commits.sound run).keyed

end

section
variable {σ ε : Type} [Host σ ε] {P : Platform} {w : World σ ε} {log : List Entry} {d : Database}

/-- No authority without approval: a request was stored by a call of its owner, a grant was given
by an answer to a prompt, and a receipt was issued by a check all of whose rows were covered by
grants that stood, each of which was given by an answer before the check. -/
theorem authority_rests_on_approval (reachable : Reachable P w) (point : Point w log d) :
    (∀ r ∈ d.requests, ∃ e ∈ log, ∃ first : RequestRow, e.Stores first ∧ first.Ages r) ∧
    (∀ g ∈ d.grants, ∃ e ∈ log, ∃ first : Grant, e.Gives first ∧ first.Ages g) ∧
    ∀ a ∈ d.authorizations, ∃ later e earlier, log = later ++ e :: earlier ∧
      ∃ receipt grants, e.Issues receipt grants ∧ receipt.Ages a ∧
        ∀ grant ∈ grants, ∃ g ∈ e.before.grants, g.id = grant ∧ g.revoked = false ∧
          ∃ e' ∈ earlier, ∃ first : Grant, e'.Gives first ∧ first.Ages g := by
  obtain ⟨ids, run⟩ := reachable.commits point
  refine ⟨Commits.asked run, Commits.given run, fun a stored => ?_⟩
  obtain ⟨e, member, receipt, ⟨grants, issues⟩, ages⟩ :=
    run.origin (·.tables.authorizations) Authorization.Ages (fun e a => ∃ grants, e.Issues a grants)
      .refl .trans rfl (fun run step => step.issues (Commits.sound run).keyed) a stored
  obtain ⟨later, earlier, s, _, split, before, step, _⟩ := Commits.entry run member
  refine ⟨later, e, earlier, split, receipt, grants, issues, ages, fun grant used => ?_⟩
  obtain ⟨_, _, _, issued⟩ := issues
  obtain ⟨_, _, _, covered⟩ := issued.covered
  obtain ⟨_, _, _, g, _, _, held, name, _, live, _⟩ := Table.forall₂_exists_left covered used
  rw [step.before] at held ⊢
  exact ⟨g, held, name, live, before.given g held⟩

theorem receipt_of_sample_rests_on_approval :
    (Sample.world (Sample.steps.take 6)).members.tables.authorizationGrants = [⟨"9", "8"⟩] ∧
    ∀ a ∈ (Sample.world (Sample.steps.take 6)).members.tables.authorizations,
      ∃ e ∈ (Sample.world (Sample.steps.take 6)).progress.commits, ∃ receipt grants,
        e.Issues receipt grants ∧ receipt.Ages a := by
  refine ⟨Sample.facts.2.1, fun a stored => ?_⟩
  obtain ⟨_, e, _, split, receipt, grants, issues, ages, _⟩ :=
    (authority_rests_on_approval (Sample.reachable _) (Sample.reachable _).now).2.2 a stored
  exact ⟨e, by simp [split], receipt, grants, issues, ages⟩

/-- At any two points of a run, whatever was compacted, restarted or lost between them: keys are
distinct, links name rows that exist, and a row with the id of an earlier one is that row, aged. -/
theorem rows_age (reachable : Reachable P w) (point : Point w log d) :
    (d.Keyed ∧ Registered d ∧ Linked d) ∧ ∀ e ∈ log,
      (∀ s ∈ e.after.sessions, ∀ s' ∈ d.sessions, s'.id = s.id → s.Ages s') ∧
      (∀ r ∈ e.after.requests, ∀ r' ∈ d.requests, r'.id = r.id → r.Ages r') ∧
      (∀ g ∈ e.after.grants, ∀ g' ∈ d.grants, g'.id = g.id → g.Ages g') ∧
      (∀ a ∈ e.after.authorizations, ∀ a' ∈ d.authorizations, a'.id = a.id → a.Ages a') ∧
      ∀ a ∈ e.after.artifacts, ∀ a' ∈ d.artifacts, a'.id = a.id → a.Loses a' := by
  obtain ⟨ids, run⟩ := reachable.commits point
  refine ⟨⟨run.sound.keyed, run.sound.registered, run.sound.linked⟩, fun e member => ?_⟩
  obtain ⟨n, ⟨keyed, known, _, _⟩, _, evolves⟩ := run.past member
  exact ⟨fun s old s' new => Past.descends evolves.sessions (·.id) known.sessions keyed.sessions old new,
    fun r old r' new => Past.descends evolves.requests (·.id) known.requests keyed.requests old new,
    fun g old g' new => Past.descends evolves.grants (·.id) known.grants keyed.grants old new,
    fun a old a' new => Past.descends evolves.authorizations (·.id) known.authorizations
      keyed.authorizations old new,
    fun a old a' new => Past.descends evolves.artifacts (fun loses => by rw [loses.1])
      known.artifacts keyed.artifacts old new⟩

theorem rows_of_sample_age : Linked (Sample.world Sample.steps).members.tables ∧
    ∀ e ∈ (Sample.world Sample.steps).progress.commits, ∀ g ∈ e.after.grants,
      ∀ g' ∈ (Sample.world Sample.steps).members.tables.grants, g'.id = g.id → g.Ages g' := by
  obtain ⟨⟨_, _, linked⟩, ages⟩ := rows_age (Sample.reachable Sample.steps) (Sample.reachable _).now
  exact ⟨linked, fun e member => (ages e member).2.2.1⟩

end

end Consent.Repository
