import Consent.Repository.Listing

/-!
The class that the next batch of the compaction begins with. Only a committed batch moves
it on, whatever else a call does and however it ends.
-/
namespace Consent.Repository
open Profile

/-- The class that is due, and the batches so far, latest first. -/
def World.rotation {σ ε : Type} (w : World σ ε) : Nat × List Entry :=
  (w.members.maintenanceClass, w.progress.commits.filter fun e => e.call.compacts)

/-- A committed batch begins with the class that is due, and the next one is due then. -/
inductive BatchTurn : Nat × List Entry → Nat × List Entry → Prop where
  | batch {first : Nat} {entries : List Entry} {e : Entry} (call : e.call = .compact first)
      (after : e.after = (compactTables first e.before).1) :
      BatchTurn (first, entries) ((first + 1) % 4, e :: entries)

variable {σ ε : Type} [Host σ ε]

theorem compact_returns {c : Context ε} {lo hi : Progress σ ε} {first : Nat} {d : Database}
    {outcome : Outcome} (h : Act.Returns c lo ((Call.compact first).work d) outcome hi) :
    outcome.tables = (compactTables first d).1 := by
  obtain ⟨_, made⟩ := Act.Returns.skip h
  generalize compactTables first d = result at made
  obtain ⟨compacted, count⟩ := result
  rw [← Act.Returns.of_pure made]

theorem rotation_commit {w : World σ ε} {q : Progress σ ε} (later : w.progress ≤ q) (entry : Entry) :
    ((w.at q).commit entry).rotation = (w.members.maintenanceClass,
      (entry :: w.progress.commits).filter fun e => e.call.compacts) := by
  rw [← Progress.commits_eq later]
  rfl

/-- Other transactions are no batches. -/
theorem rotation_other {w : World σ ε} {q : Progress σ ε} (later : w.progress ≤ q) {entry : Entry}
    (idle : entry.call.compacts = false) : ((w.at q).commit entry).rotation = w.rotation := by
  rw [rotation_commit later, List.filter_cons_of_neg (by simp [idle])]
  rfl

theorem Move.rotation {c : Context ε} {K : Members → Registry → Prop} {w v : World σ ε}
    (h : Move c K w v) : v.rotation = w.rotation ∨ BatchTurn w.rotation v.rotation := by
  cases h with
  | progress later =>
    refine .inl ?_
    rw [World.rotation, World.at_progress, Progress.commits_eq later]
    rfl
  | steer steers =>
    refine .inl ?_
    rw [World.rotation, steers.maintenanceClass]
    rfl
  | @commit q call outcome due work other blank serves turns =>
    cases turns with
    | batch first =>
      refine .inr ?_
      let entry := entryOf c (.compact w.members.maintenanceClass) w.members.tables outcome w.progress q
      have turned : (((w.at q).commit entry).turned ((w.members.maintenanceClass + 1) % 4)).rotation =
          ((w.members.maintenanceClass + 1) % 4, entry :: w.rotation.2) :=
        congrArg (Prod.mk _) (congrArg Prod.snd (rotation_commit work.le entry))
      rw [turned]
      exact .batch rfl (compact_returns work)
    | other idle => exact .inl (rotation_other work.le idle)
  | create work fenced => exact .inl (rotation_other work.le rfl)
  | incarnate work blank => exact .inl (rotation_other work.le rfl)
  | replay matched synced replays work =>
    subst replays
    exact .inl (rotation_other work.le rfl)
  | write source outcome => cases outcome <;> exact .inl rfl
  | _ => exact .inl rfl

theorem rotation_reaches {c : Context ε} {K : Members → Registry → Prop} {w v : World σ ε}
    (h : (law c K).Reaches w v) : Relation.ReflTransGen BatchTurn w.rotation v.rotation := by
  induction h with
  | refl => exact .refl
  | tail _ last ih =>
    rcases Move.rotation last with same | turn
    · rwa [same]
    · exact ih.tail turn

/-! ### Calls -/

/-- The step is a call of a process that goes on, not the start of a new one. -/
def Step.isCall : Step σ → Bool
  | .restart _ _ _ => false
  | _ => true

/-- Calls of one process, with whatever its environment answers. -/
inductive Operates (P : Platform) (w : World σ ε) : World σ ε → Prop where
  | refl : Operates P w w
  | call {v : World σ ε} (step : Step σ) (environment : Environment ε) (call : step.isCall = true) :
      Operates P w v → Operates P w (step.run P environment v).2

theorem Operates.attained {P : Platform} {w v : World σ ε} (h : Operates P w v)
    (attained : Attained P w) : Attained P v := by
  induction h with
  | refl => exact attained
  | call step environment _ _ ih => exact .step step environment ih

/-- The classes take turns in every run of calls. -/
theorem Operates.rotates {P : Platform} {w v : World σ ε} (h : Operates P w v)
    (attained : Attained P w) : Relation.ReflTransGen BatchTurn w.rotation v.rotation := by
  induction h with
  | refl => exact .refl
  | @call v step environment call before ih =>
    have entered : (step.enter v).rotation = v.rotation := by
      cases step with
      | restart main offline powerLoss => cases call
      | _ => rfl
    have turns := rotation_reaches ((before.attained attained).step_reaches step environment).2
    rw [entered] at turns
    exact ih.trans turns

end Consent.Repository
