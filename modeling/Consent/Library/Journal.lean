import Mathlib

/-!
Runs of a labelled transition system together with the log of their labels, latest
first. A property of a run is an invariant of the pair of log and state: what was
logged explains what the state holds.
-/
namespace Journal

variable {σ κ : Type}

/-- `Runs step init log s`: the labels of `log` lead from `init` to `s`. -/
inductive Runs (step : σ → κ → σ → Prop) (init : σ) : List κ → σ → Prop where
  | nil : Runs step init [] init
  | cons {log : List κ} {s t : σ} {label : κ} :
      Runs step init log s → step s label t → Runs step init (label :: log) t

namespace Runs

variable {step : σ → κ → σ → Prop} {init : σ}

/-- An invariant of log and state holds at the end of every run. -/
theorem invariant {I : List κ → σ → Prop} (base : I [] init)
    (keeps : ∀ {log s label t}, Runs step init log s → I log s → step s label t →
      I (label :: log) t)
    {log : List κ} {s : σ} (run : Runs step init log s) : I log s := by
  induction run with
  | nil => exact base
  | cons earlier move ih => exact keeps earlier ih move

/-- The run up to a logged label, the step it labels, and the run after it. -/
theorem split {later earlier : List κ} {label : κ} {u : σ}
    (run : Runs step init (later ++ label :: earlier) u) :
    ∃ s t, Runs step init earlier s ∧ step s label t ∧ Runs step t later u := by
  induction later generalizing u with
  | nil =>
    cases run with
    | cons before move => exact ⟨_, u, before, move, .nil⟩
  | cons last rest ih =>
    cases run with
    | cons before move =>
      obtain ⟨s, t, first, here, after⟩ := ih before
      exact ⟨s, t, first, here, .cons after move⟩

/-- A row that ages from step to step goes back to the label that inserted it. -/
theorem origin {α : Type} (rows : σ → List α) (Ages : α → α → Prop) (New : κ → α → Prop)
    (refl : ∀ a, Ages a a) (trans : ∀ {a b c}, Ages a b → Ages b c → Ages a c)
    (empty : rows init = [])
    (keeps : ∀ {log s label t}, Runs step init log s → step s label t → ∀ b ∈ rows t,
      (∃ a ∈ rows s, Ages a b) ∨ New label b)
    {log : List κ} {s : σ} (run : Runs step init log s) :
    ∀ b ∈ rows s, ∃ label ∈ log, ∃ a, New label a ∧ Ages a b := by
  induction run with
  | nil => simp [empty]
  | cons earlier move ih =>
    intro b member
    rcases keeps earlier move b member with ⟨a, old, ages⟩ | new
    · obtain ⟨label, logged, first, made, aged⟩ := ih a old
      exact ⟨label, List.mem_cons_of_mem _ logged, first, made, trans aged ages⟩
    · exact ⟨_, List.mem_cons_self, b, new, refl b⟩

/-- What a run keeps, once it holds, holds from then on. -/
theorem stable {I : σ → Prop} (keeps : ∀ {s label t}, I s → step s label t → I t)
    {log : List κ} {s : σ} (start : I init) (run : Runs step init log s) : I s := by
  induction run with
  | nil => exact start
  | cons _ move ih => exact keeps ih move

end Runs

end Journal
