import Consent.Library.Frames
import Consent.Library.Octets
import Consent.Message

/-!
The frames of the stream protocol: `FrameSize` of `common/message.hh` and what a stream of
them delivers to a receiver that stops at the first frame it does not accept.
-/
namespace Consent

/-- `FrameSize`: the first four octets, in network order. -/
def frameSize (header : List UInt8) : Nat := Octets.value (header.take 4)

/-- A frame of the protocol. -/
def frameFormat : Frames.Format UInt8 where
  head := 4
  limit := kMaxFrameSize
  size := Octets.value

/-- What the receivers look for, in the order in which they do. -/
theorem front_frameFormat (buffer : List UInt8) : frameFormat.front buffer =
    if buffer.length < 4 then .wait
    else if frameSize buffer = 0 ∨ kMaxFrameSize < frameSize buffer then .refuse
    else if buffer.length < frameSize buffer + 4 then .wait
    else .frame ((buffer.drop 4).take (frameSize buffer)) (buffer.drop (4 + frameSize buffer)) := rfl

/-- How the frames of a stream come to an end: the next one is not complete, its length is
not permitted, or the last one was not accepted. -/
inductive Ending where
  | waiting
  | refused
  | rejected
  deriving DecidableEq, Repr

/-- `bodies` are the frames of the stream, up to the first that is not accepted. A frame is
judged together with those before it. -/
structure Delivers (accepts : List (List UInt8) → Bool) (stream : List UInt8)
    (bodies : List (List UInt8)) (ending : Ending) (rest : List UInt8) : Prop where
  cut : frameFormat.Cut stream bodies rest
  earlier : ∀ initial more, bodies = initial ++ more → initial ≠ [] → more ≠ [] →
    accepts initial = true
  last : ending ≠ .rejected → bodies ≠ [] → accepts bodies = true
  rejected : ending = .rejected → bodies ≠ [] ∧ accepts bodies = false
  refused : ending = .refused → frameFormat.Refused rest
  waiting : ending = .waiting → frameFormat.Incomplete rest ∧ ¬ frameFormat.Refused rest

/-- The frames so far are all accepted, and `rest` is behind them. -/
structure Taken (accepts : List (List UInt8) → Bool) (stream : List UInt8)
    (bodies : List (List UInt8)) (rest : List UInt8) : Prop where
  cut : frameFormat.Cut stream bodies rest
  accepted : ∀ initial more, bodies = initial ++ more → initial ≠ [] → accepts initial = true

namespace Taken

variable {accepts : List (List UInt8) → Bool} {stream rest after : List UInt8}
  {bodies : List (List UInt8)} {body : List UInt8}

theorem start (stream : List UInt8) : Taken accepts stream [] stream := by
  refine ⟨.nil stream, fun initial more same nonempty => ?_⟩
  exact absurd (List.append_eq_nil_iff.mp same.symm).1 nonempty

theorem append (h : Taken accepts stream bodies rest) (piece : List UInt8) :
    Taken accepts (stream ++ piece) bodies (rest ++ piece) :=
  ⟨h.cut.append piece, h.accepted⟩

theorem cut_frame (h : Taken accepts stream bodies rest)
    (found : frameFormat.front rest = .frame body after) :
    frameFormat.Cut stream (bodies ++ [body]) after := by
  obtain ⟨head, frame, same⟩ := Frames.Format.front_eq_frame.mp found
  exact h.cut.take frame same

/-- An initial part of the frames with one more is all of them or was there before. -/
theorem initial_cases {initial more : List (List UInt8)}
    (same : bodies ++ [body] = initial ++ more) :
    initial = bodies ++ [body] ∧ more = [] ∨ ∃ less, bodies = initial ++ less := by
  rcases List.eq_nil_or_concat more with rfl | ⟨less, last, rfl⟩
  · left
    rw [same]
    simp
  · right
    rw [List.concat_eq_append, ← List.append_assoc] at same
    exact ⟨less, (List.append_inj' same rfl).1⟩

/-- The next frame is accepted. -/
theorem take (h : Taken accepts stream bodies rest)
    (found : frameFormat.front rest = .frame body after) (accepted : accepts (bodies ++ [body]) = true) :
    Taken accepts stream (bodies ++ [body]) after := by
  refine ⟨h.cut_frame found, fun initial more same nonempty => ?_⟩
  rcases initial_cases same with ⟨rfl, _⟩ | ⟨less, before⟩
  · exact accepted
  · exact h.accepted initial less before nonempty

/-- The next frame is not accepted. -/
theorem reject (h : Taken accepts stream bodies rest)
    (found : frameFormat.front rest = .frame body after)
    (rejected : accepts (bodies ++ [body]) = false) :
    Delivers accepts stream (bodies ++ [body]) .rejected after where
  cut := h.cut_frame found
  earlier initial more same nonempty goes := by
    rcases initial_cases same with ⟨_, ended⟩ | ⟨less, before⟩
    · exact absurd ended goes
    · exact h.accepted initial less before nonempty
  last other := absurd rfl other
  rejected _ := ⟨by simp, rejected⟩
  refused other := by cases other
  waiting other := by cases other

theorem refuse (h : Taken accepts stream bodies rest) (refused : frameFormat.Refused rest) :
    Delivers accepts stream bodies .refused rest where
  cut := h.cut
  earlier initial more same nonempty _ := h.accepted initial more same nonempty
  last _ nonempty := h.accepted bodies [] (by simp) nonempty
  rejected other := by cases other
  refused _ := refused
  waiting other := by cases other

theorem wait (h : Taken accepts stream bodies rest) (waits : frameFormat.front rest = .wait) :
    Delivers accepts stream bodies .waiting rest where
  cut := h.cut
  earlier initial more same nonempty _ := h.accepted initial more same nonempty
  last _ nonempty := h.accepted bodies [] (by simp) nonempty
  rejected other := by cases other
  refused other := by cases other
  waiting _ := (Frames.Format.front_eq_wait.mp waits).symm

end Taken

namespace Delivers

variable {accepts : List (List UInt8) → Bool} {stream rest rest' : List UInt8}
  {bodies bodies' : List (List UInt8)} {ending ending' : Ending}

/-- Unless the last frame was rejected, no other one is left. -/
theorem incomplete (h : Delivers accepts stream bodies ending rest) (goes : ending ≠ .rejected) :
    frameFormat.Incomplete rest := by
  cases ending with
  | waiting => exact (h.waiting rfl).1
  | refused => exact (h.refused rfl).incomplete
  | rejected => exact absurd rfl goes

/-- What has ended stays so, whatever arrives. -/
theorem append (h : Delivers accepts stream bodies ending rest) (ended : ending ≠ .waiting)
    (piece : List UInt8) : Delivers accepts (stream ++ piece) bodies ending (rest ++ piece) where
  cut := h.cut.append piece
  earlier := h.earlier
  last := h.last
  rejected := h.rejected
  refused is := (h.refused is).append piece
  waiting is := absurd is ended

/-- A receiver that goes on only behind accepted frames has found an initial part of what the
stream delivers. -/
theorem begins (h : Delivers accepts stream bodies ending rest)
    (cut : frameFormat.Cut stream bodies' rest')
    (accepted : ∀ initial more, bodies' = initial ++ more → initial ≠ [] → more ≠ [] →
      accepts initial = true) : bodies' <+: bodies := by
  rcases cut.comparable h.cut with ⟨more, rfl, _⟩ | ⟨more, rfl, left⟩
  · exact List.prefix_append _ _
  · cases left with
    | nil => simp
    | @cons _ body _ _ others frame _ =>
      exfalso
      by_cases rejects : ending = .rejected
      · obtain ⟨nonempty, refuses⟩ := h.rejected rejects
        rw [accepted bodies (body :: others) rfl nonempty (by simp)] at refuses
        cases refuses
      · exact h.incomplete rejects _ _ _ frame rfl

/-- A stream determines what it delivers and how it ends. -/
theorem unique (h : Delivers accepts stream bodies ending rest)
    (h' : Delivers accepts stream bodies' ending' rest') :
    bodies = bodies' ∧ ending = ending' ∧ rest = rest' := by
  obtain rfl : bodies = bodies' := List.IsPrefix.eq_of_length (h'.begins h.cut h.earlier)
    (le_antisymm (h'.begins h.cut h.earlier).length_le (h.begins h'.cut h'.earlier).length_le)
  obtain rfl : rest = rest' := by
    rcases h.cut.comparable h'.cut with ⟨more, same, left⟩ | ⟨more, same, left⟩
    · rw [List.self_eq_append_right.mp same] at left
      cases left
      rfl
    · rw [List.self_eq_append_right.mp same] at left
      cases left
      rfl
  refine ⟨rfl, ?_, rfl⟩
  have rejected : ending = .rejected ↔ ending' = .rejected := by
    constructor
    · intro rejects
      by_contra other
      obtain ⟨nonempty, refuses⟩ := h.rejected rejects
      rw [h'.last other nonempty] at refuses
      cases refuses
    · intro rejects
      by_contra other
      obtain ⟨nonempty, refuses⟩ := h'.rejected rejects
      rw [h.last other nonempty] at refuses
      cases refuses
  cases ending with
  | rejected => exact (rejected.mp rfl).symm
  | waiting =>
    cases ending' with
    | waiting => rfl
    | refused => exact absurd (h'.refused rfl) (h.waiting rfl).2
    | rejected => exact rejected.mpr rfl
  | refused =>
    cases ending' with
    | waiting => exact absurd (h.refused rfl) (h'.waiting rfl).2
    | refused => rfl
    | rejected => exact rejected.mpr rfl

end Delivers

end Consent
