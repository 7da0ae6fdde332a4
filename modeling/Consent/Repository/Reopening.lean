import Consent.Repository.Consistency

/-!
A process that finds the database its registry names opens it as it is: nothing is
retired, and approvals that are not bound to the old process stay.
-/
namespace Consent.Repository
open Profile
open Act (Returns Throws)

variable {σ ε : Type} [Host σ ε]

/-! ### Storage that nobody touches -/

/-- Nobody touches the files, and SQLite finds nothing corrupt in them. -/
structure Environment.Quiet (environment : Environment ε) : Prop where
  disk : ∀ n, environment.disk n = []
  sql : ∀ n code, environment.fault n = some code → code ≠ .corrupt ∧ code ≠ .notadb

/-- An error that is not a reason to retire the database. -/
def Failure.plain (failure : Failure) : Prop := failure.corruption = false

section
variable {c : Context ε}

theorem sqlOutcome_throws (quiet : c.environment.Quiet) :
    Throws c (sqlOutcome : Query σ ε Unit) Failure.plain := by
  intro s e t run
  rcases fault : c.environment.fault s.faulted with _ | code
  · simp [sqlOutcome, fault] at run
  · simp only [sqlOutcome, fault, Prod.mk.injEq, Except.error.injEq] at run
    obtain ⟨corrupt, notadb⟩ := quiet.sql _ code fault
    rw [← run.1]
    simp [Failure.plain, Failure.corruption, sqlFailure, corrupt, notadb]

theorem query_throws {α : Type} {x : Query σ ε α} {Q : Failure → Prop} (h : Throws c x Q) :
    Throws c (query x) Q := by
  intro w e v run
  rw [query_run] at run
  obtain ⟨failed, _⟩ := Prod.mk.inj run
  exact h w.progress e (x.run c w.progress).2 (Prod.ext failed rfl)

theorem performPlain_throws (quiet : c.environment.Quiet) {call : Call}
    (work : ∀ d, Throws c (call.work d : Query σ ε Outcome) Failure.plain) :
    Throws c (performPlain call : Process σ ε Outcome) Failure.plain := by
  refine .bind (query_throws fun s e t run => by cases run) fun start => ?_
  refine .bind (fun s e t run => by cases run) fun m => ?_
  refine .bind (query_throws (work m.tables)) fun outcome => ?_
  refine .bind (query_throws (sqlOutcome_throws quiet)) fun _ => ?_
  exact .bind (fun s e t run => by cases run) fun _ => .pure

theorem resetTables_throws (quiet : c.environment.Quiet) (d : Database) :
    Throws c (Call.resetRuntime.work d : Query σ ε Outcome) Failure.plain :=
  .bind (sqlOutcome_throws quiet) fun _ => .pure

end

/-! ### Approvals that stay -/

/-- The grant is there; if it was revoked, its definition is projected anew. -/
def KeptGrant (d d' : Database) (g : Grant) : Prop :=
  ∃ g' ∈ d'.grants, g' = { g with revoked := g'.revoked } ∧
    (g'.revoked = g.revoked ∨ d'.findDefinition g.definition ≠ d.findDefinition g.definition)

/-- Every grant that is not bound to a process is there. -/
def Kept (d d' : Database) : Prop := ∀ g ∈ d.grants, g.mode = "PERSISTENT" → KeptGrant d d' g

theorem Kept.refl (d : Database) : Kept d d := fun g stored _ => ⟨g, stored, rfl, Or.inl rfl⟩

theorem Database.revokeGrants_hit {d : Database} {condition : Grant → Bool} {g : Grant}
    (stored : g ∈ d.grants) (hit : condition g = true) :
    { g with revoked := true } ∈ (d.revokeGrants condition).grants :=
  Table.mem_updateWhere.mpr ⟨g, stored, Or.inl ⟨hit, rfl⟩⟩

theorem Database.revokeGrants_miss {d : Database} {condition : Grant → Bool} {g : Grant}
    (stored : g ∈ d.grants) (miss : condition g = false) :
    g ∈ (d.revokeGrants condition).grants :=
  Table.mem_updateWhere.mpr ⟨g, stored, Or.inr ⟨miss, rfl⟩⟩

/-- A projection revokes the grants of the definitions that it changes. -/
theorem Projected.kept {definitions : Definitions} {d d' : Database} {ids : List String}
    (h : Projected definitions d ids d') :
    (∀ id ∈ ids, d'.findDefinition id ≠ d.findDefinition id) ∧
      (∀ id, id ∉ ids → d'.findDefinition id = d.findDefinition id) ∧
      ∀ g ∈ d.grants, ∃ g' ∈ d'.grants, g' = { g with revoked := g'.revoked } ∧
        (g'.revoked = g.revoked ∨ g.definition ∈ ids) := by
  induction h with
  | nil => exact ⟨by simp, fun _ _ => rfl, fun g stored => ⟨g, stored, rfl, Or.inl rfl⟩⟩
  | @cons ids mid id config active earlier once listed changed ih =>
    obtain ⟨moved, same, kept⟩ := ih
    have found : ∀ other, (putDefinition (mid.invalidate id)
        ⟨id, active, projection config active⟩).findDefinition other =
          if id = other then some ⟨id, active, projection config active⟩
          else mid.findDefinition other := fun other => Table.find?_upsert other
    refine ⟨fun other member => ?_, fun other absent => ?_, fun g stored => ?_⟩
    · rw [found]
      rcases List.mem_cons.mp member with rfl | member
      · rw [if_pos rfl, ← same other once]
        exact fun equal => changed (by rw [← equal]; rfl)
      · have differs : id ≠ other := fun equal => once (equal ▸ member)
        rw [if_neg differs]
        exact moved other member
    · rw [List.mem_cons, not_or] at absent
      rw [found, if_neg (Ne.symm absent.1)]
      exact same other absent.2
    · obtain ⟨g', there, form, revoked⟩ := kept g stored
      have named : g'.definition = g.definition := by rw [form]
      by_cases hit : g.definition = id
      · refine ⟨{ g' with revoked := true }, Database.revokeGrants_hit there ?_, ?_,
          Or.inr (by simp [hit])⟩
        · exact decide_eq_true (named.trans hit)
        · rw [form]
      · refine ⟨g', Database.revokeGrants_miss there ?_, form, revoked.imp_right fun member =>
          List.mem_cons_of_mem _ member⟩
        exact decide_eq_false fun same => hit (named.symm.trans same)

theorem Kept.replay {c : Context ε} {lo hi : Progress σ ε} {d : Database}
    {definitions : Definitions} {revision : Int} {offline : Bool} {outcome : Outcome}
    (h : Returns c lo (replay definitions revision offline d) outcome hi) :
    Kept d outcome.tables := by
  obtain ⟨ids, mid, steps, marks, _⟩ := replay_projects h
  obtain ⟨moved, _, kept⟩ := steps.kept
  intro g stored _
  obtain ⟨g', there, form, revoked⟩ := kept g stored
  refine ⟨g', ?_, form, revoked.imp_right fun member => ?_⟩
  · rw [marks]
    exact there
  · rw [marks]
    exact moved g.definition member

theorem Kept.resetRuntime {d d' : Database} (h : Kept d d') : Kept d d'.resetRuntime := by
  intro g stored mode
  obtain ⟨g', there, form, revoked⟩ := h g stored mode
  have period : g'.mode = "PERSISTENT" := by rw [form]; exact mode
  exact ⟨g', Database.revokeGrants_miss there (by simp [period]), form, revoked⟩

/-! ### Opening what the registry names -/

/-- An assertion about the members. -/
abbrev On (A : Members → Prop) (w : World σ ε) : Prop := A w.members

/-- In context `c`, from members with `A`, `x` leads to members with `B` or `F`. -/
abbrev Leads (c : Context ε) {α : Type} (A : Members → Prop) (x : Process σ ε α)
    (B : α → Members → Prop) (F : Failure → Members → Prop) : Prop :=
  Act.Spec c Act.Law.free (On A) x (fun a => On (B a)) fun e => On (F e)

section
variable {c : Context ε} {α : Type} {A B : Members → Prop} {F : Failure → Members → Prop}

theorem members_leads : Leads (σ := σ) c A members (fun m m' => m' = m ∧ A m') F :=
  .of_ends fun _ holds => .ok ⟨rfl, holds⟩

theorem note_leads (opening : Bool) :
    Leads (σ := σ) c A (noteEnsured opening) (fun _ => A) F :=
  .of_ends fun _ holds => .ok holds

theorem performPlain_leads {call : Call} (quiet : c.environment.Quiet)
    (throws : ∀ d, Throws c (call.work d : Query σ ε Outcome) Failure.plain)
    (fails : ∀ e m, e.plain → A m → F e m)
    (next : ∀ (m : Members) (outcome : Outcome) (lo hi : Progress σ ε), A m →
      Returns c lo (call.work m.tables) outcome hi → B { m with tables := outcome.tables }) :
    Leads (σ := σ) c A (performPlain call) (fun _ => B) F := by
  refine .of_ends fun w holds => ?_
  have exit := performPlain_exit (c := c) call w
  rcases run : (performPlain call).run c w with ⟨result, v⟩
  rw [run] at exit
  cases exit with
  | failed later =>
    exact .error (fails _ w.members (performPlain_throws quiet throws _ _ _ run) holds)
  | committed work => exact .ok (next w.members _ _ _ holds work)

end

/-- The files and the tables as the last process left them. -/
structure Found (d : Database) (r : Registry) (m : Members) : Prop where
  tables : m.tables = d
  device : m.disk.device = r.database.device
  database : m.disk.database = some ⟨r.database.inode, .live⟩
  registry : m.disk.content = some r
  clean : m.corrupt = false

section
variable {c : Context ε} {d : Database} {r : Registry}

/-- The process ends: it is killed, or it shuts down. -/
inductive Closes (P : Platform) (w : World σ ε) : World σ ε → Prop where
  | killed : Closes P w w
  | shutdown (environment : Environment ε) (quiet : environment.Quiet) :
      Closes P w (Step.shutdown.run P environment w).2

/-- What a shutdown leaves. -/
structure Left (m m' : Members) : Prop where
  disk : m'.disk = m.disk
  tables : m'.tables = m.tables ∨ m'.tables = m.tables.resetRuntime

theorem shutdown_leads (quiet : c.environment.Quiet) (m : Members) :
    Leads (σ := σ) c (fun m' => m' = m) (replyOf shutdown fun _ => ∅) (fun _ => Left m)
      fun _ => Left m := by
  have same : ∀ m', m' = m → Left m m' := by
    rintro _ rfl
    exact ⟨rfl, Or.inl rfl⟩
  refine .tryCatch (C := fun _ => On (Left m)) ?_ fun _ => .pure fun _ holds => holds
  refine .bind (.bind members_leads fun _ => .ite (fun _ => ?_) fun _ =>
    .pure fun _ holds => same _ holds.2) fun _ => .pure fun _ holds => holds
  refine .bind (performPlain_leads (B := Left m) quiet (resetTables_throws quiet)
    (fun _ _ _ holds => same _ holds.2) fun m' outcome lo hi holds work => ?_) fun _ =>
    .pure fun _ holds => holds
  obtain ⟨_, work⟩ := Act.Returns.skip work
  obtain rfl := work.of_pure
  obtain rfl := holds.2
  exact ⟨rfl, Or.inr rfl⟩

theorem Closes.left {P : Platform} {w v : World σ ε} (h : Closes P w v) :
    Left w.members v.members := by
  cases h with
  | killed => exact ⟨rfl, Or.inl rfl⟩
  | shutdown environment quiet =>
    obtain ⟨_, ends⟩ := shutdown_leads (c := ⟨P, environment⟩) quiet w.members
      (Step.shutdown.enter w) trivial rfl
    dsimp only [Step.run, Step.act]
    rcases run : (replyOf Repository.shutdown fun _ => ∅).run ⟨P, environment⟩ (Step.shutdown.enter w)
      with ⟨e | reply, v⟩
    · rw [run] at ends
      cases ends with
      | error left => exact left
    · rw [run] at ends
      cases ends with
      | ok left => exact left

end

end Consent.Repository
