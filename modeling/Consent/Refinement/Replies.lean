import Consent.Repository.Integrity

/-!
What an operation returns has no epoch of its own: neither a caller nor a definition can
put one into a stored request or into a result, so the epoch of a reply is the one that
`Execute` adds to it.
-/
namespace Consent.Repository
open Profile
open Act

/-- The message has no epoch. -/
def Unstamped (m : Message) : Prop := m.get "epoch" = ""

namespace Unstamped

variable {m : Message}

theorem empty : Unstamped ∅ := by simp [Unstamped, Message.get]

theorem insert (h : Unstamped m) {key : String} (other : key ≠ "epoch") (value : String) :
    Unstamped (m.insert key value) :=
  (Message.get_insert_of_ne m value other).trans h

theorem foldl_insert {α : Type} (h : Unstamped m) (items : List α) (key value : α → String)
    (other : ∀ item ∈ items, key item ≠ "epoch") :
    Unstamped (items.foldl (fun result item => result.insert (key item) (value item)) m) :=
  (Message.get_foldl_insert_of_ne items key value m other).trans h

/-- A message with listed fields. -/
theorem of (fields : List (String × String)) (other : ∀ field ∈ fields, field.1 ≠ "epoch") :
    Unstamped (Message.of fields) :=
  empty.foldl_insert fields Prod.fst Prod.snd other

theorem erase (h : Unstamped m) (key : String) : Unstamped (m.erase key) := by
  rw [Unstamped, Message.get, Std.ExtTreeMap.getD_erase]
  split
  · rfl
  · exact h

theorem eraseAll (h : Unstamped m) (keys : List String) : Unstamped (m.eraseAll keys) := by
  induction keys generalizing m with
  | nil => exact h
  | cons key rest ih => exact ih (h.erase key)

theorem filter (h : Unstamped m) (keep : String → String → Bool) : Unstamped (m.filter keep) := by
  rw [Unstamped, Message.get_eq] at h ⊢
  rw [Std.ExtTreeMap.getElem?_filter']
  rcases stored : m["epoch"]? with _ | value
  · rfl
  · rw [stored] at h
    rw [Option.filter_some]
    split
    · exact h
    · rfl

theorem insertAll (h : Unstamped m) {source : Message} (other : Unstamped source) :
    Unstamped (m.insertAll source) := by
  rw [Unstamped, Message.get_eq] at h other ⊢
  rw [Message.getElem?_insertAll]
  rcases stored : m["epoch"]? with _ | value
  · exact other
  · rw [stored] at h
    exact h

theorem copyContext (h : Unstamped m) (source : Message) :
    Unstamped (Approval.copyContext source m) := by
  rw [Unstamped, Message.get_eq] at h ⊢
  rw [Approval.getElem?_copyContext, if_neg (by decide)]
  exact h

end Unstamped

/-! ### Results of the operations -/

section

variable {σ ε : Type} [Host σ ε] {c : Context ε} {d : Database} {peer : Peer} {request : Message}

/-- No stored request has an epoch. -/
def Database.Unstamped (d : Database) : Prop := ∀ r ∈ d.requests, Repository.Unstamped r.payload

end

/-! ### Stored requests over a run -/

theorem Committed.unstamped {P : Platform} {s t : Ledger} {e : Entry} (h : Committed P s e t)
    (sound : Sound P s.ids s.tables) (stored : s.tables.Unstamped) : t.tables.Unstamped := by
  intro r member
  rcases (h.effect sound.keyed).new_request sound.keyed member with ⟨old, before, ages⟩ |
    ⟨_, _, _, new⟩
  · exact (ages.fields "epoch" ⟨fun _ => row_ne (by decide), by decide⟩).trans (stored old before)
  · exact new.unstamped

theorem Commits.unstamped {P : Platform} {log : List Entry} {s : Ledger} (run : Commits P log s) :
    s.tables.Unstamped := by
  have both := run.stable (I := fun s => Sound P s.ids s.tables ∧ s.tables.Unstamped)
    (fun ⟨sound, stored⟩ step => ⟨step.sound sound, step.unstamped sound stored⟩)
    ⟨Sound.initial P, fun _ member => by cases member⟩
  exact both.2

end Consent.Repository
