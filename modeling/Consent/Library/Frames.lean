import Mathlib

/-!
Length-prefixed frames in a stream that arrives in pieces.

A frame is a head of fixed length, which tells the length of the body behind it, and the
body. `Cut stream bodies rest` says that the stream begins with frames of these bodies and
goes on with `rest`. A parser that appends pieces to a buffer and takes frames off its front
keeps such a cut of everything it has seen. Of two cuts of one stream one goes on where the
other ends, so what is found does not depend on the pieces.
-/
namespace Frames

variable {α : Type}

/-- A frame may be at most `limit` long, head not counted, and is never empty. -/
structure Format (α : Type) where
  head : Nat
  limit : Nat
  size : List α → Nat

namespace Format

variable (F : Format α)

/-- The head tells the length of the body, and the length is permitted. -/
structure IsFrame (head body : List α) : Prop where
  length : head.length = F.head
  size : F.size head = body.length
  positive : 0 < body.length
  limit : body.length ≤ F.limit

/-- The head at the front announces a body of no permitted length. -/
def Refused (buffer : List α) : Prop :=
  F.head ≤ buffer.length ∧
    (F.size (buffer.take F.head) = 0 ∨ F.limit < F.size (buffer.take F.head))

instance (buffer : List α) : Decidable (F.Refused buffer) := inferInstanceAs (Decidable (_ ∧ _))

/-- No frame is complete at the front. -/
def Incomplete (buffer : List α) : Prop :=
  ∀ head body rest, F.IsFrame head body → buffer ≠ head ++ body ++ rest

inductive Cut : List α → List (List α) → List α → Prop where
  | nil (rest : List α) : Cut rest [] rest
  | cons {head body stream rest : List α} {bodies : List (List α)} :
      F.IsFrame head body → Cut stream bodies rest →
      Cut (head ++ body ++ stream) (body :: bodies) rest

/-- The stream consists of complete frames. -/
def Whole (stream : List α) : Prop := ∃ bodies, F.Cut stream bodies []

/-- The piece completes no frame: what the stream begins with was there before it. -/
def Within (stream piece : List α) : Prop :=
  ∀ bodies rest, F.Cut (stream ++ piece) bodies rest → ∃ before, F.Cut stream bodies before

/-- What a parser finds at the front of its buffer. -/
inductive Front (α : Type) where
  | wait
  | refuse
  | frame (body rest : List α)

def front (buffer : List α) : Front α :=
  if buffer.length < F.head then .wait
  else
    let size := F.size (buffer.take F.head)
    if size = 0 ∨ F.limit < size then .refuse
    else if buffer.length < size + F.head then .wait
    else .frame ((buffer.drop F.head).take size) (buffer.drop (F.head + size))

variable {F}

theorem front_eq_refuse {buffer : List α} : F.front buffer = .refuse ↔ F.Refused buffer := by
  unfold front Refused
  split
  · simp only [reduceCtorEq, false_iff, not_and]
    omega
  · dsimp only
    split
    · simp only [true_iff]
      exact ⟨by omega, by assumption⟩
    · split <;> simp only [reduceCtorEq, false_iff, not_and] <;> exact fun _ => by assumption

theorem front_eq_frame {buffer body rest : List α} : F.front buffer = .frame body rest ↔
    ∃ head, F.IsFrame head body ∧ buffer = head ++ body ++ rest := by
  constructor
  · intro found
    unfold front at found
    split at found
    · cases found
    dsimp only at found
    split at found
    · cases found
    split at found
    · cases found
    cases found
    have length : (buffer.take F.head).length = F.head := by
      rw [List.length_take]
      omega
    have body : ((buffer.drop F.head).take (F.size (buffer.take F.head))).length =
        F.size (buffer.take F.head) := by
      rw [List.length_take, List.length_drop]
      omega
    refine ⟨buffer.take F.head, ⟨length, body.symm, by omega, by omega⟩, ?_⟩
    rw [List.append_assoc, ← List.drop_drop, List.take_append_drop, List.take_append_drop]
  · rintro ⟨head, frame, rfl⟩
    have taken : (head ++ body ++ rest).take F.head = head := by
      rw [List.append_assoc, ← frame.length, List.take_left]
    have := frame.length
    have := frame.positive
    have := frame.limit
    unfold front
    dsimp only
    rw [taken, frame.size, if_neg (by simp; omega), if_neg (by omega), if_neg (by simp; omega)]
    congr 1
    · rw [List.append_assoc, ← frame.length, List.drop_left, List.take_left]
    · rw [← frame.length, ← List.length_append, List.drop_left]

theorem front_eq_wait {buffer : List α} : F.front buffer = .wait ↔
    ¬ F.Refused buffer ∧ F.Incomplete buffer := by
  constructor
  · intro waits
    refine ⟨fun refused => ?_, fun head body rest frame same => ?_⟩
    · rw [front_eq_refuse.mpr refused] at waits
      cases waits
    · rw [front_eq_frame.mpr ⟨head, frame, same⟩] at waits
      cases waits
  · rintro ⟨permitted, incomplete⟩
    rcases found : F.front buffer with _ | _ | ⟨body, rest⟩
    · rfl
    · exact absurd (front_eq_refuse.mp found) permitted
    · obtain ⟨head, frame, same⟩ := front_eq_frame.mp found
      exact absurd same (incomplete head body rest frame)

theorem Refused.incomplete {buffer : List α} (h : F.Refused buffer) : F.Incomplete buffer := by
  intro head body rest frame same
  have found := front_eq_frame.mpr ⟨head, frame, same⟩
  rw [front_eq_refuse.mpr h] at found
  cases found

/-- A refused head stays refused, whatever arrives behind it. -/
theorem Refused.append {buffer : List α} (h : F.Refused buffer) (more : List α) :
    F.Refused (buffer ++ more) := by
  refine ⟨?_, ?_⟩
  · rw [List.length_append]
    exact le_trans h.1 (Nat.le_add_right _ _)
  · rw [List.take_append_of_le_length h.1]
    exact h.2

/-- A complete frame is found, whatever arrives behind it. -/
theorem front_append {buffer body rest : List α} (found : F.front buffer = .frame body rest)
    (more : List α) : F.front (buffer ++ more) = .frame body (rest ++ more) := by
  obtain ⟨head, frame, rfl⟩ := front_eq_frame.mp found
  exact front_eq_frame.mpr ⟨head, frame, by simp⟩

/-- A frame takes something off the buffer. -/
theorem length_lt_of_frame {buffer body rest : List α} (found : F.front buffer = .frame body rest) :
    rest.length < buffer.length := by
  obtain ⟨head, frame, rfl⟩ := front_eq_frame.mp found
  have := frame.positive
  simp only [List.length_append]
  omega

/-- A buffer without a complete frame is shorter than the longest one. -/
theorem length_lt_of_wait {buffer : List α} (waits : F.front buffer = .wait) :
    buffer.length < F.head + F.limit ∨ buffer.length < F.head := by
  unfold front at waits
  split at waits
  · exact Or.inr (by assumption)
  dsimp only at waits
  split at waits
  · cases waits
  split at waits
  · left
    omega
  · cases waits

/-! ### Cuts -/

theorem Cut.append {stream rest : List α} {bodies : List (List α)} (h : F.Cut stream bodies rest)
    (piece : List α) : F.Cut (stream ++ piece) bodies (rest ++ piece) := by
  induction h with
  | nil rest => exact .nil _
  | cons frame _ ih =>
    rw [List.append_assoc]
    exact .cons frame ih

/-- Taking a frame off the front. -/
theorem Cut.take {stream rest head body after : List α} {bodies : List (List α)}
    (h : F.Cut stream bodies rest) (frame : F.IsFrame head body) (same : rest = head ++ body ++ after) :
    F.Cut stream (bodies ++ [body]) after := by
  induction h with
  | nil rest =>
    rw [same]
    exact .cons frame (.nil after)
  | cons first _ ih => exact .cons first (ih same)

/-- A buffer has one front frame. -/
theorem IsFrame.unique {head body rest head' body' rest' : List α} (h : F.IsFrame head body)
    (h' : F.IsFrame head' body') (same : head ++ body ++ rest = head' ++ body' ++ rest') :
    head = head' ∧ body = body' ∧ rest = rest' := by
  rw [List.append_assoc, List.append_assoc] at same
  obtain ⟨rfl, behind⟩ := List.append_inj same (h.length.trans h'.length.symm)
  obtain ⟨rfl, rfl⟩ := List.append_inj behind (h.size.symm.trans h'.size)
  exact ⟨rfl, rfl, rfl⟩

/-- Of two cuts of a stream one goes on where the other ends. -/
theorem Cut.comparable {stream rest rest' : List α} {bodies bodies' : List (List α)}
    (h : F.Cut stream bodies rest) (h' : F.Cut stream bodies' rest') :
    (∃ more, bodies' = bodies ++ more ∧ F.Cut rest more rest') ∨
      ∃ more, bodies = bodies' ++ more ∧ F.Cut rest' more rest := by
  induction h generalizing bodies' with
  | nil rest => exact Or.inl ⟨bodies', rfl, h'⟩
  | @cons head body stream rest bodies frame tail ih =>
    generalize whole : head ++ body ++ stream = buffer at h'
    cases h' with
    | nil => exact Or.inr ⟨body :: bodies, rfl, whole ▸ .cons frame tail⟩
    | cons other behind =>
      obtain ⟨rfl, rfl, rfl⟩ := frame.unique other whole
      rcases ih behind with ⟨more, rfl, left⟩ | ⟨more, rfl, left⟩
      · exact Or.inl ⟨more, rfl, left⟩
      · exact Or.inr ⟨more, rfl, left⟩

/-- Nothing is lost and nothing is delivered twice. -/
theorem Cut.length {stream rest : List α} {bodies : List (List α)} (h : F.Cut stream bodies rest) :
    stream.length = (bodies.map fun body => F.head + body.length).sum + rest.length := by
  induction h with
  | nil rest => simp
  | cons frame _ ih =>
    simp only [List.length_append, List.map_cons, List.sum_cons, ih, frame.length]
    omega

/-- Behind the last frame of a stream of complete frames there is nothing. -/
theorem Cut.rest_nil {stream rest : List α} {bodies : List (List α)} (h : F.Cut stream bodies rest)
    (incomplete : F.Incomplete rest) (whole : F.Whole stream) : rest = [] := by
  obtain ⟨all, cut⟩ := whole
  rcases h.comparable cut with ⟨more, _, left⟩ | ⟨more, _, left⟩
  · cases left with
    | nil => rfl
    | cons frame _ => exact absurd rfl (incomplete _ _ _ frame)
  · have length := left.length
    rw [List.length_nil] at length
    exact List.length_eq_zero_iff.mp (by omega)

theorem Cut.bodies_length_le {stream rest piece rest' : List α} {bodies bodies' : List (List α)}
    (h : F.Cut stream bodies rest) (incomplete : F.Incomplete rest) (within : F.Within stream piece)
    (h' : F.Cut (stream ++ piece) bodies' rest') : bodies'.length ≤ bodies.length := by
  obtain ⟨before, cut⟩ := within bodies' rest' h'
  rcases h.comparable cut with ⟨more, rfl, left⟩ | ⟨more, rfl, _⟩
  · cases left with
    | nil => simp
    | cons frame _ => exact absurd rfl (incomplete _ _ _ frame)
  · simp

end Format

end Frames
