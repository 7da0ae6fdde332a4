import Consent.Server.Publication
import Consent.Refinement.Replies
import Consent.Repository.Epochs
import Consent.Repository.Listing
import Consent.Guarantees.Projection

/-!
No reply mixes database generations.

A database may be deleted, replaced or found corrupt between any two checks of an
operation. A reply that is published with status 0 carries the epoch in which its
evaluation began, and that epoch is still in force in the last snapshot before it. A
recovery leaves no approval behind and begins an epoch that was never served.
-/
namespace Consent.Repository
open Profile

variable {σ ε : Type} [Host σ ε]

/-! ### The epoch of a reply -/

section

variable {c : Context ε} {w v : World σ ε}

end

/-! ### Recoveries -/

omit [Host σ ε] in
theorem serving_own (history : List (Moment σ ε)) :
    serving (history.filter Moment.own) = serving history := by
  induction history with
  | nil => rfl
  | cons moment rest ih =>
    rcases moment with _ | _ | e | event
    · exact ih
    · exact ih
    · rw [List.filter_cons_of_pos rfl, serving, serving, ih]
    · rw [List.filter_cons_of_pos rfl]
      cases event <;> first | rfl | exact ih

omit [Host σ ε] in
theorem recovering_own (history : List (Moment σ ε)) :
    recovering (history.filter Moment.own) = recovering history := by
  induction history with
  | nil => rfl
  | cons moment rest ih =>
    rcases moment with _ | _ | e | event
    · exact ih
    · exact ih
    · rw [List.filter_cons_of_pos rfl, recovering, recovering, ih]
    · rw [List.filter_cons_of_pos rfl]
      cases event <;> first | rfl | exact ih

omit [Host σ ε] in
theorem epochs_own (history : List (Moment σ ε)) :
    epochs (history.filter Moment.own) = epochs history := by
  rw [epochs, epochs, List.filterMap_filter]
  refine List.filterMap_congr fun moment _ => ?_
  cases moment <;> rfl

/-- What holds at a normal return of `Ensure` or `Open`, after what happened `earlier`: an
epoch that was served before is served only while its database is, and after a recovery
no approval is stored and the epoch is new. -/
structure Ensured.Renewed (s : Ensured) (earlier : List (Moment σ ε)) : Prop where
  serves : s.epoch ∈ epochs earlier → serving earlier = true
  blank : recovering earlier = true → Blank s.tables
  fresh : recovering earlier = true → s.epoch ∉ epochs earlier

theorem Runs.renewed {P : Platform} {w : World σ ε} (h : Runs P w) :
    Along Ensured.Renewed w.progress.history := by
  intro later s earlier split
  have found := h.along (G := Ensured.Renewed) fun runs able => ?_
  · have part : w.progress.record = later.filter Moment.own ++
        .storage (.ensured s) :: earlier.filter Moment.own := by
      rw [Progress.record, split, List.filter_append, List.filter_cons_of_pos rfl]
    obtain ⟨serves, blank, fresh⟩ := found _ _ _ part
    rw [epochs_own, serving_own] at serves
    rw [recovering_own] at blank
    rw [recovering_own, epochs_own] at fresh
    exact ⟨serves, blank, fresh⟩
  · refine ⟨runs.dated.serves able, runs.blank, fun recent member => ?_⟩
    have serves := runs.dated.serves able member
    rw [not_serving_of_recovering recent] at serves
    cases serves

namespace Sample

end Sample

end Consent.Repository
