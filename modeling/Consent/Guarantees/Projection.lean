import Consent.Repository.Consistency

/-!
Registry and projection stay consistent across crashes and failures.

A run may lose any registry write before its rename, after it, or before the projection
is committed, and the process, or the machine, may go down at any point. Whenever
`Ensure` or `Open` returns normally, the definitions table is the projection of the
durable registry file, and operations are evaluated against that projection only.
-/
namespace Consent.Repository
open Profile

variable {σ ε : Type} [Host σ ε]

/-- The tables hold the projection of the registry that the last replay of the log made,
and its revision. -/
def Serves (d : Database) (r : Registry) (log : List Entry) : Prop :=
  ∃ e offline, lastProjection log = some e ∧
    e.call = .replay r.definitions r.revision offline ∧ d.registryRevision = r.revision ∧
    Projection e.frame offline r.definitions d.definitions

/-- What is served is the projection of a durable registry file. -/
structure Served (m : Members) (log : List Entry) : Prop where
  durable : m.disk.durable = m.disk.registry
  serves : ∃ r, m.disk.content = some r ∧ Serves m.tables r log

/-- A log that ends with the projection of what is in memory is served. -/
theorem Runs.served {P : Platform} {w : World σ ε} (runs : Runs P w)
    (clean : Untampered w.progress.record) (matched : Matched w.members)
    (settled : Sealed w.members) (replayed : Replayed w.view) :
    Served w.members w.view.log := by
  obtain ⟨ids, _, run⟩ := runs.chronicled.run
  obtain ⟨r, content, definitions, _, revision⟩ := runs.consistent.stamped.mirrored matched
  obtain ⟨e, offline, last, call⟩ := replayed
  have log : w.view.log = w.progress.commits := filterMap_own w.progress.history
  obtain ⟨rows, marked, _, _, _, earlier, step⟩ := Commits.projection run (log ▸ last)
  obtain ⟨mark, projects⟩ := step.projection (Commits.sound earlier) call
  refine ⟨settled matched, r, content, e, offline, last, ?_, ?_, ?_⟩
  · rw [definitions, revision]
    exact call
  · rw [revision]
    exact marked.trans mark
  · have listed := runs.listed clean
    have named : ∀ row ∈ e.after.definitions, row.id ∈ w.members.definitions := by
      intro row member
      have here := listed.files row.id (listed.rows row (rows ▸ member))
      exact definitions ▸ here.mem content
    rw [definitions, rows]
    exact projects named

/-- Before an operation is evaluated, the storage has been found in order. -/
theorem prepare_runs {P : Platform} {w v : World σ ε} (attained : Attained P w) {peer : Peer}
    {request : Message} {environment : Environment ε} {result : String × Nat}
    (run : (prepare peer).run ⟨P, environment⟩ ((Step.execute peer request).enter w) =
      (.ok result, v)) : Runs P v ∧ Clear v.view := by
  obtain ⟨runs, recorded, rest⟩ := attained.runs
  obtain ⟨reaches, ends⟩ := prepare_clear (c := ⟨P, environment⟩) (K := fun _ _ => False) peer
    ((Step.execute peer request).enter w) recorded rest
  rw [run] at reaches ends
  cases ends with
  | ok clear => exact ⟨(runs.enter (.execute peer request)).reaches rfl reaches, clear⟩

/-- What a normal return of `Ensure` or `Open` found. -/
def Ensured.Consistent (s : Ensured) (log : List Entry) : Prop :=
  s.durable = true ∧ ∃ r, s.registry = some r ∧ Serves s.tables r log

/-- Every normal return of a run found the projection of a durable file. -/
theorem Runs.consistent_along {P : Platform} {w : World σ ε} (h : Runs P w)
    (untampered : Untampered w.progress.history) :
    Along (fun s earlier => s.Consistent (earlier.filterMap Moment.entry?)) w.progress.history := by
  intro later s earlier split
  have found := h.along (G := fun s earlier => Untampered earlier →
    s.Consistent (earlier.filterMap Moment.entry?)) fun runs able clean => ?_
  · have part : w.progress.record = later.filter Moment.own ++
        .storage (.ensured s) :: earlier.filter Moment.own := by
      rw [Progress.record, split, List.filter_append, List.filter_cons_of_pos rfl]
    have within : Untampered (earlier.filter Moment.own) := fun moment member =>
      untampered moment (by rw [split]; simp [(List.mem_filter.mp member).1])
    exact filterMap_own earlier ▸ found _ _ _ part within
  · obtain ⟨settled, replayed⟩ := runs.consistent.settled able
    have served := runs.served clean able.matched settled replayed
    obtain ⟨r, content, serves⟩ := served.serves
    refine ⟨?_, r, content, serves⟩
    simp [Members.ensured, served.durable]

/-- While no other program touches the registry, every normal return of `Ensure` and of `Open`
finds a durable registry and its projection, and so does every operation. -/
theorem projection_of_durable_registry {P : Platform} {w : World σ ε} (attained : Attained P w)
    (untampered : Untampered w.progress.history) :
    (∀ later s earlier, w.progress.history = later ++ .storage (.ensured s) :: earlier →
      s.Consistent (earlier.filterMap Moment.entry?)) ∧
    ∀ peer request environment result v,
      (prepare peer).run ⟨P, environment⟩ ((Step.execute peer request).enter w) = (.ok result, v) →
      Untampered v.progress.history → Served v.members v.progress.commits := by
  refine ⟨attained.runs.1.consistent_along untampered, ?_⟩
  intro peer request environment result v run clean
  obtain ⟨runs, ⟨matched, serves⟩, unfenced, _⟩ := prepare_runs attained run
  have within : Untampered v.progress.record := fun moment member =>
    clean moment (List.mem_filter.mp member).1
  obtain ⟨settled, replayed⟩ := runs.consistent.serves (opened_of_serving serves) unfenced
  have log : v.view.log = v.progress.commits := filterMap_own v.progress.history
  exact log ▸ runs.served within matched settled replayed

/-- The database is lost, the write that should name the next one fails, and the repository
goes on with a second database. -/
theorem projection_in_sample :
    (Sample.worldOf (Sample.lossy.take 3)).members.dbIdentity = 2 ∧
    ∀ later s earlier, (Sample.worldOf (Sample.lossy.take 3)).progress.history =
        later ++ .storage (.ensured s) :: earlier →
      s.Consistent (earlier.filterMap Moment.entry?) :=
  ⟨by decide +kernel, (projection_of_durable_registry (Sample.worldOf_reachable _).attained
    (by decide +kernel)).1⟩

end Consent.Repository
