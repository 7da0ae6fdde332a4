import Consent.Library.Journal
import Consent.Repository.Calls

/-!
Every table of a run is what the committed transactions of its history made of a fresh
database (`Reachable.chronicled`). The entries of the history are steps of the abstract
machine, so what the abstract machine keeps holds in every run.
-/
namespace Consent.Repository
open Profile
open Act (Returns)

/-- What the abstract machine keeps: the tables, and how many ids were issued. -/
structure Ledger where
  tables : Database
  ids : Nat

def Ledger.initial : Ledger := ⟨Database.fresh, 0⟩

/-- The entry records work that a transaction returned. -/
def Entry.Worked (e : Entry) : Prop :=
  ∃ (σ ε : Type) (_ : Host σ ε) (c : Context ε) (lo hi : Progress σ ε) (outcome : Outcome),
    Returns c lo (e.call.work e.before) outcome hi ∧ e = entryOf c e.call e.before outcome lo hi

/-- The entry continues the ledger. -/
structure Committed (P : Platform) (s : Ledger) (e : Entry) (t : Ledger) : Prop where
  platform : e.frame.platform = P
  before : e.before = s.tables
  after : e.after = t.tables
  start : s.ids ≤ e.frame.start.ids
  order : e.frame.start.ids ≤ e.frame.finish.ids
  finish : e.frame.finish.ids = t.ids
  work : e.Worked
  registry : ∀ definitions revision offline, e.call = .replay definitions revision offline →
    ValidRegistry definitions

/-- Committed work is a step of the abstract machine. -/
theorem Committed.effect {P : Platform} {s t : Ledger} {e : Entry} (h : Committed P s e t)
    (keyed : s.tables.Keyed) : Effect e.frame s.tables e.call e.reply t.tables := by
  obtain ⟨σ, ε, _, c, lo, hi, outcome, work, same⟩ := h.work
  rw [← h.before] at keyed ⊢
  rw [← h.after, same]
  exact work_effect keyed work

variable {σ ε : Type} [Host σ ε]

/-- The commits of the history lead from a fresh database to the tables. -/
structure Chronicled (P : Platform) (w : World σ ε) : Prop where
  run : ∃ ids, ids ≤ w.progress.nextId ∧
    Journal.Runs (Committed P) Ledger.initial w.progress.commits ⟨w.members.tables, ids⟩
  registry : ValidRegistry w.members.definitions

theorem Chronicled.at {w : World σ ε} {q : Progress σ ε} {P : Platform} (holds : Chronicled P w)
    (later : w.progress ≤ q) : Chronicled P (w.at q) := by
  obtain ⟨ids, below, run⟩ := holds.run
  rw [← Progress.commits_eq later] at run
  exact ⟨⟨ids, le_trans below later.ids, run⟩, holds.registry⟩

/-- Committed work continues the journal. -/
theorem Chronicled.commit {c : Context ε} {w : World σ ε} {q : Progress σ ε} {call : Call}
    {outcome : Outcome} (holds : Chronicled c.platform w)
    (registry : ∀ definitions revision offline, call = .replay definitions revision offline →
      ValidRegistry definitions)
    (work : Returns c w.progress (call.work w.members.tables) outcome q) :
    Chronicled c.platform
      ((w.at q).commit (entryOf c call w.members.tables outcome w.progress q)) := by
  obtain ⟨ids, below, run⟩ := holds.run
  rw [← Progress.commits_eq work.le] at run
  refine ⟨⟨q.nextId, le_refl _, .cons run ⟨rfl, rfl, rfl, below, work.le.ids, rfl, ?_, registry⟩⟩,
    holds.registry⟩
  exact ⟨σ, ε, _, c, w.progress, q, outcome, work, rfl⟩

/-- A registry made by the repository is valid. -/
theorem Source.valid {P : Platform} {K : Members → Registry → Prop} {m : Members}
    {content : Registry} (h : Source P K m content)
    (valid : ValidRegistry m.definitions) : ValidRegistry content.definitions := by
  cases h with
  | found missing empty inode incarnation =>
    rw [empty]
    exact empty_validRegistry
  | follow matched follows => exact follows.valid valid
  | bind matched definitions =>
    rw [definitions]
    exact valid

theorem Move.chronicled {c : Context ε} {K : Members → Registry → Prop} {w v : World σ ε}
    (h : Move c K w v)
    (holds : Chronicled c.platform w) : Chronicled c.platform v := by
  cases h with
  | progress later => exact holds.at later
  | steer steers =>
    refine ⟨?_, ?_⟩ <;> dsimp only
    · rw [steers.tables]
      exact holds.run
    · rw [steers.definitions]
      exact holds.registry
  | touch spoken past => exact ⟨holds.run, holds.registry⟩
  | place file nextInode real => exact ⟨holds.run, holds.registry⟩
  | commit work other blank serves turns =>
    have kept := holds.commit (fun _ _ _ replays => by rw [replays] at other; cases other) work
    exact ⟨kept.run, kept.registry⟩
  | create work fenced => exact holds.commit (by simp) work
  | incarnate work blank => exact holds.commit (by simp) work
  | sync => exact ⟨holds.run, holds.registry⟩
  | replay matched synced replays work =>
    have next := holds.commit (fun definitions revision offline same => ?_) work
    · exact ⟨next.run, next.registry⟩
    · obtain ⟨rfl, _, _⟩ := Call.replay.inj (replays.symm.trans same)
      exact holds.registry
  | @write content source outcome =>
    have valid := source.valid holds.registry
    cases outcome with
    | failed => exact ⟨holds.run, holds.registry⟩
    | renamed => exact ⟨holds.run, holds.registry⟩
    | durable => exact ⟨holds.run, valid⟩
  | expect stored => exact ⟨holds.run, holds.registry⟩
  | reject stored booted => exact ⟨holds.run, holds.registry⟩
  | load stored decoded expects valid fenced => exact ⟨holds.run, valid⟩
  | adopt inode matched real named own renewed =>
    obtain ⟨ids, below, run⟩ := holds.run
    exact ⟨⟨ids, Nat.le_succ_of_le below, run⟩, holds.registry⟩
  | ensure able => exact ⟨holds.run, holds.registry⟩

omit [Host σ ε] in
theorem Step.enter_chronicled {P : Platform} {w : World σ ε} (step : Step σ)
    (holds : Chronicled P w) : Chronicled P (step.enter w) := by
  cases step with
  | restart main offline powerLoss => exact ⟨holds.run, empty_validRegistry⟩
  | _ => exact ⟨holds.run, holds.registry⟩

theorem Runs.chronicled {P : Platform} {w : World σ ε} (h : Runs P w) : Chronicled P w := by
  induction h with
  | start device registry main => exact ⟨⟨0, le_refl _, .nil⟩, empty_validRegistry⟩
  | enter step _ ih => exact step.enter_chronicled ih
  | move platform _ move ih =>
    subst platform
    exact move.chronicled ih

/-- The tables of every run are what its committed transactions made of a fresh
database. -/
theorem Reachable.chronicled {P : Platform} {w : World σ ε} (h : Reachable P w) :
    Chronicled P w :=
  h.runs.1.chronicled

end Consent.Repository
