import Consent.Server.Output

/-!
What reaches a client (`Server::Queue`, `Server::Write`).

Every octet is labelled with its frame. The labelled octets that were sent are the
beginning of those that were queued, so frames arrive in order and each one is complete
before the next one begins. A frame of an earlier profile generation is a barrier: neither
it nor anything behind it is sent any more.

The accounting of unsent octets holds while the connection is open; `Close` empties the
queue and leaves the counter behind.
-/
namespace Consent.Server
open Profile Repository

/-- The octets of a frame, each with the frame that it belongs to. -/
def OutputFrame.octets (frame : OutputFrame) : List (OutputFrame × UInt8) :=
  frame.bytes.map (fun octet => (frame, octet))

def Sent.octets (sent : Sent) : List (OutputFrame × UInt8) :=
  sent.bytes.map (fun octet => (sent.frame, octet))

def Connection.unsent (connection : Connection) : List (OutputFrame × UInt8) :=
  (connection.output.flatMap OutputFrame.octets).drop connection.offset

@[simp] theorem OutputFrame.length_octets (frame : OutputFrame) :
    frame.octets.length = frame.bytes.length := List.length_map _

/-! ### One connection -/

namespace Connection

/-- The counter agrees with the queue while the connection is open, and never exceeds its
limit. Some octet of the first frame is left to send; a closed connection has no queue. -/
structure Balanced (connection : Connection) : Prop where
  bounded : connection.outputBytes ≤ kMaxOutput
  counted : connection.closed = false → connection.outputBytes = connection.unsent.length
  begun : connection.closed = false →
    ∀ frame rest, connection.output = frame :: rest → connection.offset < frame.bytes.length
  idle : connection.closed = false → connection.output = [] → connection.offset = 0
  filled : ∀ frame ∈ connection.output, frame.bytes ≠ []
  dropped : connection.closed = true → connection.output = []

theorem fresh_balanced : fresh.Balanced where
  bounded := by decide
  counted _ := rfl
  begun _ _ _ h := by cases h
  idle _ _ := rfl
  filled _ h := by cases h
  dropped _ := rfl

@[simp] theorem close_closed (connection : Connection) : connection.close.closed = true := by
  rw [close]
  split <;> simp_all

variable {connection : Connection}

theorem close_balanced (h : connection.Balanced) :
    connection.close.Balanced := by
  have shut : connection.close.closed = false → False := by simp
  have empty : connection.close.output = [] := by
    rw [close]
    split
    · exact h.dropped ‹_›
    · rfl
  refine ⟨?_, fun f => (shut f).elim, fun f => (shut f).elim, fun f => (shut f).elim, ?_, fun _ => empty⟩
  · rw [close]
    split <;> exact h.bounded
  · simp [empty]

theorem Balanced.offset_le (h : connection.Balanced) (opened : connection.closed = false) :
    connection.offset ≤ (connection.output.flatMap OutputFrame.octets).length := by
  rcases queue : connection.output with _ | ⟨frame, rest⟩
  · simp [h.idle opened queue]
  · have := h.begun opened frame rest queue
    simp only [List.flatMap_cons, List.length_append, OutputFrame.length_octets]
    omega

/-- The counter cannot wrap around where it is decreased. -/
theorem subSize_eq {a b : Nat} (le : b ≤ a) (small : a < 2 ^ 64) : subSize a b = a - b := by
  rw [subSize]
  omega

/-- What `Queue` does to an open connection: it closes it, or the frame is the last one of
the queue. -/
theorem accept_cases (opened : connection.closed = false) (frame : OutputFrame) :
    connection.accept frame = connection.close ∨
      (frame.bytes ≠ [] ∧ connection.outputBytes + frame.bytes.length ≤ kMaxOutput ∧
        connection.accept frame = { connection with
          outputBytes := connection.outputBytes + frame.bytes.length
          output := connection.output ++ [frame] }) := by
  simp only [accept, opened, Bool.false_eq_true, ↓reduceIte]
  by_cases empty : frame.bytes = []
  · exact Or.inl (if_pos empty)
  · rw [if_neg empty]
    by_cases large : kMaxOutput < connection.outputBytes + frame.bytes.length
    · exact Or.inl (if_pos large)
    · exact Or.inr ⟨empty, Nat.le_of_not_lt large, if_neg large⟩

theorem accept_of_closed (shut : connection.closed = true) (frame : OutputFrame) :
    connection.accept frame = connection := by
  rw [accept, if_pos shut]

/-- A queued frame is the last thing to be sent. -/
theorem unsent_append (h : connection.Balanced) (opened : connection.closed = false)
    (frame : OutputFrame) :
    ((connection.output ++ [frame]).flatMap OutputFrame.octets).drop connection.offset =
      connection.unsent ++ frame.octets := by
  rw [List.flatMap_append, List.drop_append_of_le_length (h.offset_le opened), unsent]
  simp

theorem accept_balanced (h : connection.Balanced) (frame : OutputFrame) :
    (connection.accept frame).Balanced := by
  rcases opened : connection.closed
  · rcases accept_cases opened frame with closes | ⟨filled, fits, accepts⟩
    · rw [closes]
      exact close_balanced h
    · rw [accepts]
      refine ⟨fits, fun _ => ?_, fun _ first rest queue => ?_, fun _ queue => ?_, ?_,
        fun shut => by simp [opened] at shut⟩
      · rw [unsent, unsent_append h opened, List.length_append, OutputFrame.length_octets,
          h.counted opened]
      · rcases before : connection.output with _ | ⟨head, tail⟩
        · simp only [before, List.nil_append, List.cons.injEq] at queue
          simp only [h.idle opened before, ← queue.1]
          exact List.length_pos_iff.2 filled
        · simp only [before, List.cons_append, List.cons.injEq] at queue
          rw [← queue.1]
          exact h.begun opened head tail before
      · simp at queue
      · intro other member
        rcases List.mem_append.1 member with old | new
        · exact h.filled other old
        · rw [List.mem_singleton.1 new]
          exact filled
  · rw [accept_of_closed opened]
    exact h

/-! ### A send -/

/-- The octets of a send come off the front of a queue of frames, whether it completes the
first one or not. -/
theorem octets_advance (frame : OutputFrame) (rest : List OutputFrame) {offset n : Nat}
    (fits : offset + n ≤ frame.bytes.length) :
    ((frame.bytes.drop offset).take n).map (fun octet => (frame, octet)) ++
      ((if offset + n = frame.bytes.length then rest else frame :: rest).flatMap
        OutputFrame.octets).drop (if offset + n = frame.bytes.length then 0 else offset + n) =
      ((frame :: rest).flatMap OutputFrame.octets).drop offset := by
  have length : frame.octets.length = frame.bytes.length := frame.length_octets
  have part : ((frame.bytes.drop offset).take n).map (fun octet => (frame, octet)) =
      (frame.octets.drop offset).take n := by
    rw [List.map_take, List.map_drop, OutputFrame.octets]
  rw [part, List.flatMap_cons, List.drop_append_of_le_length (by omega)]
  by_cases complete : offset + n = frame.bytes.length
  · rw [if_pos complete, if_pos complete, List.drop_zero,
      List.take_of_length_le (by rw [List.length_drop]; omega)]
  · rw [if_neg complete, if_neg complete, List.flatMap_cons,
      List.drop_append_of_le_length (by omega), ← List.append_assoc, ← List.drop_drop,
      List.take_append_drop]

/-- The queue after `n` octets of its first frame were sent. -/
theorem advance_output (connection : Connection) (frame : OutputFrame) (rest : List OutputFrame)
    (n : Nat) (queue : connection.output = frame :: rest) :
    (connection.advance frame rest n).output =
      if connection.offset + n = frame.bytes.length then rest else frame :: rest := by
  by_cases complete : connection.offset + n = frame.bytes.length
  · simp [advance, complete]
  · simp [advance, complete, queue]

theorem advance_offset (connection : Connection) (frame : OutputFrame) (rest : List OutputFrame)
    (n : Nat) : (connection.advance frame rest n).offset =
      if connection.offset + n = frame.bytes.length then 0 else connection.offset + n := by
  by_cases complete : connection.offset + n = frame.bytes.length <;> simp [advance, complete]

theorem advance_outputBytes (connection : Connection) (frame : OutputFrame)
    (rest : List OutputFrame) (n : Nat) :
    (connection.advance frame rest n).outputBytes = subSize connection.outputBytes n := by
  by_cases complete : connection.offset + n = frame.bytes.length <;> simp [advance, complete]

theorem advance_closed (connection : Connection) (frame : OutputFrame)
    (rest : List OutputFrame) (n : Nat) :
    (connection.advance frame rest n).closed = connection.closed := by
  by_cases complete : connection.offset + n = frame.bytes.length <;> simp [advance, complete]

/-- The octets of a send and those that are left are the unsent ones. -/
theorem unsent_advance {frame : OutputFrame} {rest : List OutputFrame} {n : Nat}
    (queue : connection.output = frame :: rest) (fits : connection.offset + n ≤ frame.bytes.length) :
    ((frame.bytes.drop connection.offset).take n).map (fun octet => (frame, octet)) ++
      (connection.advance frame rest n).unsent = connection.unsent := by
  rw [unsent, unsent, advance_output _ _ _ _ queue, advance_offset, queue]
  exact octets_advance frame rest fits

/-- The first frame never has more to send than the counter says. -/
theorem Balanced.left_le (h : connection.Balanced) (opened : connection.closed = false)
    {frame : OutputFrame} {rest : List OutputFrame} (queue : connection.output = frame :: rest) :
    connection.left frame ≤ connection.outputBytes := by
  rw [h.counted opened, unsent, queue, List.length_drop, List.flatMap_cons, List.length_append,
    OutputFrame.length_octets, left]
  omega

theorem advance_balanced (h : connection.Balanced) (opened : connection.closed = false)
    {frame : OutputFrame} {rest : List OutputFrame} {n : Nat}
    (queue : connection.output = frame :: rest) (fits : n ≤ connection.left frame) :
    (connection.advance frame rest n).Balanced := by
  have begun := h.begun opened frame rest queue
  have whole : connection.offset + n ≤ frame.bytes.length := by
    rw [left] at fits
    omega
  have enough : n ≤ connection.outputBytes := fits.trans (h.left_le opened queue)
  have limit := h.bounded
  have counter : (connection.advance frame rest n).outputBytes = connection.outputBytes - n := by
    rw [advance_outputBytes]
    exact subSize_eq enough (limit.trans_lt (by decide))
  have remains : ∀ other ∈ rest, other.bytes ≠ [] :=
    fun other member => h.filled other (queue ▸ List.mem_cons_of_mem _ member)
  have first : frame.bytes ≠ [] := h.filled frame (queue ▸ List.mem_cons_self)
  have after := advance_output connection frame rest n queue
  have position := advance_offset connection frame rest n
  refine ⟨by omega, fun _ => ?_, fun _ head tail q => ?_, fun _ q => ?_, fun other member => ?_,
    fun shut => by simp [advance_closed, opened] at shut⟩
  · have lengths := congrArg List.length (unsent_advance queue whole)
    simp only [List.length_append, List.length_map, List.length_take, List.length_drop] at lengths
    have := h.counted opened
    omega
  all_goals by_cases complete : connection.offset + n = frame.bytes.length
  all_goals simp only [complete, ↓reduceIte] at after position
  · rw [position]
    exact List.length_pos_iff.2 (remains head (by rw [← after, q]; exact List.mem_cons_self))
  · obtain ⟨rfl, -⟩ : frame = head ∧ rest = tail := by
      rw [after] at q
      simpa using q
    rw [position]
    omega
  · exact position
  · rw [after] at q
    cases q
  · exact remains other (after ▸ member)
  · rw [after] at member
    rcases List.mem_cons.1 member with rfl | old
    · exact first
    · exact remains other old

end Connection

/-! ### Interleavings -/

section Channel

variable {σ ε : Type} [Host σ ε]

namespace Channel

/-- Everything that was sent, in order. -/
def stream (c : Channel σ) : List (OutputFrame × UInt8) := c.sent.flatMap Sent.octets

/-- What a turn does: nothing, it closes it, or it sends some octets
of the first frame, which may be sent in the current generation. -/
theorem turn_cases (c : Channel σ) (result : SendResult) :
    c.turn (ε := ε) result = c ∨ c.turn (ε := ε) result = c.shut ∨
      ∃ frame rest n, c.connection.output = frame :: rest ∧
        frame.current (c.generation (ε := ε)) ∧ n ≤ c.connection.left frame ∧
        c.turn (ε := ε) result =
          { c with
            connection := c.connection.advance frame rest n
            sent := c.sent ++ [c.part (ε := ε) frame n] } := by
  rcases queue : c.connection.output with _ | ⟨frame, rest⟩
  · refine Or.inl ?_
    simp [turn, handed, Connection.writeTurn, queue]
  · by_cases current : frame.current (c.generation (ε := ε))
    · cases result with
      | wouldBlock =>
        refine Or.inl ?_
        simp [turn, handed, Connection.writeTurn, queue, current]
      | failed =>
        refine Or.inr (Or.inl ?_)
        simp [turn, handed, Connection.writeTurn, queue, current, shut]
      | sent n =>
        by_cases none : min n (c.connection.left frame) = 0
        · refine Or.inr (Or.inl ?_)
          simp only [turn, handed, Connection.writeTurn, queue, current, none]
          simp [shut]
        · refine Or.inr (Or.inr ⟨frame, rest, min n (c.connection.left frame), rfl, current,
            Nat.min_le_right _ _, ?_⟩)
          simp only [turn, handed, Connection.writeTurn, queue, current, none, not_true_eq_false,
            ne_eq, not_false_eq_true, and_self, ↓reduceIte]
    · refine Or.inr (Or.inl ?_)
      cases result <;> simp [turn, handed, Connection.writeTurn, queue, current, shut]

end Channel

/-- A frame is tagged with a generation that was current before it was queued. -/
def OutputFrame.Past (frame : OutputFrame) (generation : Nat) : Prop :=
  frame.generation = "" ∨ ∃ g ≤ generation, frame.generation = toString g

theorem OutputFrame.Past.mono {frame : OutputFrame} {m n : Nat} (le : m ≤ n)
    (h : frame.Past m) : frame.Past n := by
  rcases h with untagged | ⟨g, earlier, tag⟩
  · exact Or.inl untagged
  · exact Or.inr ⟨g, earlier.trans le, tag⟩

/-- The comparison before `Queue` leaves the current tag or none. -/
theorem replyFrame_past (encode : Reply → List UInt8) (checked : Nat) (reply : Reply) :
    (replyFrame encode checked reply).Past checked := by
  rw [replyFrame, published]
  split
  · exact Or.inl rfl
  · rename_i agrees
    by_cases untagged : reply.fields.get "profile_generation" = ""
    · exact Or.inl untagged
    · refine Or.inr ⟨checked, le_rfl, ?_⟩
      by_contra differs
      exact agrees ⟨untagged, differs⟩

/-- What holds of a channel at every moment. -/
structure Orderly (c : Channel σ) : Prop where
  balanced : c.connection.Balanced
  current : ∀ sent ∈ c.sent, sent.frame.current sent.generation
  past : ∀ frame ∈ c.connection.output, frame.Past (c.generation (ε := ε))
  ordered : c.stream <+: c.accepted.flatMap OutputFrame.octets
  unsent : c.connection.closed = false →
    c.accepted.flatMap OutputFrame.octets = c.stream ++ c.connection.unsent

namespace Orderly

variable {c : Channel σ} {encode : Reply → List UInt8}

theorem start (main : σ) : Orderly (ε := ε) (Channel.start main) where
  balanced := Connection.fresh_balanced
  current _ h := by cases h
  past _ h := by cases h
  ordered := List.nil_prefix
  unsent _ := rfl

theorem host (h : Orderly (ε := ε) c) (event : ε) : Orderly (ε := ε) (c.host event) where
  balanced := h.balanced
  current := h.current
  past frame member := (h.past frame member).mono (Host.grows event c.main)
  ordered := h.ordered
  unsent := h.unsent

theorem shut (h : Orderly (ε := ε) c) : Orderly (ε := ε) c.shut where
  balanced := Connection.close_balanced h.balanced
  current := h.current
  past frame member := by
    refine h.past frame ?_
    rw [Channel.shut, Connection.close] at member
    split at member
    · exact member
    · cases member
  ordered := h.ordered
  unsent opened := by simp [Channel.shut] at opened

theorem queue (h : Orderly (ε := ε) c) {frame : OutputFrame}
    (past : frame.Past (c.generation (ε := ε))) : Orderly (ε := ε) (c.queue frame) := by
  rcases opened : c.connection.closed
  · rcases Connection.accept_cases opened frame with closes | ⟨_, _, accepts⟩
    · have same : c.queue frame = c.shut := by simp [Channel.queue, Channel.shut, closes]
      rw [same]
      exact h.shut
    · have queued : (c.queue frame).accepted = c.accepted ++ [frame] := by
        simp [Channel.queue, accepts, opened]
      have split : (c.queue frame).accepted.flatMap OutputFrame.octets =
          c.stream ++ (c.queue frame).connection.unsent := by
        have last : (c.queue frame).connection.unsent = c.connection.unsent ++ frame.octets := by
          rw [Channel.queue, accepts]
          exact Connection.unsent_append h.balanced opened frame
        rw [queued, last, List.flatMap_append, h.unsent opened, List.append_assoc]
        simp
      refine ⟨Connection.accept_balanced h.balanced frame, h.current, fun other member => ?_,
        ⟨_, split.symm⟩, fun _ => split⟩
      rw [Channel.queue, accepts] at member
      rcases List.mem_append.1 member with old | new
      · exact h.past other old
      · rw [List.mem_singleton.1 new]
        exact past
  · have same : c.queue frame = c := by
      simp [Channel.queue, Connection.accept_of_closed opened, opened]
    rw [same]
    exact h

theorem turn (h : Orderly (ε := ε) c) (opened : c.connection.closed = false)
    (result : SendResult) : Orderly (ε := ε) (c.turn (ε := ε) result) := by
  rcases Channel.turn_cases c result with same | closes |
      ⟨frame, rest, n, queue, current, fits, sends⟩
  · rw [same]
    exact h
  · rw [closes]
    exact h.shut
  · have begun := h.balanced.begun opened frame rest queue
    have whole : c.connection.offset + n ≤ frame.bytes.length := by
      rw [Connection.left] at fits
      omega
    have split : c.accepted.flatMap OutputFrame.octets =
        (c.turn (ε := ε) result).stream ++ (c.turn (ε := ε) result).connection.unsent := by
      rw [sends, h.unsent opened, ← Connection.unsent_advance queue whole]
      simp [Channel.stream, Channel.part, Sent.octets]
    have kept : (c.turn (ε := ε) result).accepted = c.accepted := rfl
    refine ⟨?_, ?_, ?_, ⟨_, split.symm⟩, fun _ => split⟩
    · rw [sends]
      exact Connection.advance_balanced h.balanced opened queue fits
    · rw [sends]
      intro sent member
      rcases List.mem_append.1 member with old | new
      · exact h.current sent old
      · rw [List.mem_singleton.1 new]
        exact current
    · intro other member
      refine h.past other ?_
      rw [sends] at member
      simp only [Connection.advance_output _ _ _ _ queue] at member
      split at member
      · rw [queue]
        exact List.mem_cons_of_mem _ member
      · rw [queue]
        exact member

theorem step {d : Channel σ} (h : Orderly (ε := ε) c) (s : OutputStep encode c d) :
    Orderly (ε := ε) d := by
  cases s with
  | host event => exact h.host event
  | reply reply checked earlier =>
    exact h.queue ((replyFrame_past encode checked reply).mono earlier)
  | notice bytes => exact h.queue (Or.inl rfl)
  | turn result opened => exact h.turn opened result
  | close => exact h.shut

theorem of_carried (carried : Carried encode c) : Orderly (ε := ε) c := by
  obtain ⟨main, steps⟩ := carried
  induction steps with
  | refl => exact start main
  | tail _ s ih => exact ih.step s

end Orderly

/-! ### A frame of an earlier generation -/

/-- The frame carries the tag of an earlier generation. -/
def OutputFrame.Stale (frame : OutputFrame) (generation : Nat) : Prop :=
  ∃ g < generation, frame.generation = toString g

theorem OutputFrame.Stale.not_current {frame : OutputFrame} {generation : Nat}
    (stale : frame.Stale generation) : ¬ frame.current generation := by
  obtain ⟨g, earlier, tag⟩ := stale
  rintro (untagged | same)
  · have digits := congrArg String.length (tag.symm.trans untagged)
    exact absurd digits (by simp)
  · have : g = generation := Nat.repr_inj.mp (tag.symm.trans same)
    omega

/-- `frame` is stale and stands behind `ahead`, of which the first `offset` octets had been
sent; of what was sent since then, nothing belongs to `frame` or to anything behind it. -/
structure Barred (sent : List Sent) (unsent : List (OutputFrame × UInt8)) (frame : OutputFrame)
    (d : Channel σ) : Prop where
  stale : frame.Stale (d.generation (ε := ε))
  since : ∃ more, d.sent = sent ++ more ∧ more.flatMap Sent.octets <+: unsent ∧
    (d.connection.closed = false → ∃ ahead behind,
      d.connection.output = ahead ++ frame :: behind ∧
      unsent = more.flatMap Sent.octets ++
        (ahead.flatMap OutputFrame.octets).drop d.connection.offset)

namespace Barred

variable {sent : List Sent} {unsent : List (OutputFrame × UInt8)} {frame : OutputFrame}
  {d : Channel σ}

theorem shut (h : Barred (ε := ε) sent unsent frame d) :
    Barred (ε := ε) sent unsent frame d.shut := by
  obtain ⟨stale, more, since, part, -⟩ := h
  exact ⟨stale, more, since, part, fun opened => by simp [Channel.shut] at opened⟩

theorem host (h : Barred (ε := ε) sent unsent frame d) (event : ε) :
    Barred (ε := ε) sent unsent frame (d.host event) := by
  obtain ⟨⟨g, earlier, tag⟩, since⟩ := h
  exact ⟨⟨g, earlier.trans_le (Host.grows event d.main), tag⟩, since⟩

theorem queue (h : Barred (ε := ε) sent unsent frame d) (other : OutputFrame) :
    Barred (ε := ε) sent unsent frame (d.queue other) := by
  rcases opened : d.connection.closed
  · rcases Connection.accept_cases opened other with closes | ⟨_, _, accepts⟩
    · have same : d.queue other = d.shut := by simp [Channel.queue, Channel.shut, closes]
      rw [same]
      exact h.shut
    · obtain ⟨stale, more, since, part, waits⟩ := h
      obtain ⟨ahead, behind, output, rest⟩ := waits opened
      refine ⟨stale, more, since, part, fun _ => ⟨ahead, behind ++ [other], ?_, ?_⟩⟩
      · simp [Channel.queue, accepts, output]
      · simp only [Channel.queue, accepts]
        exact rest
  · have same : d.queue other = d := by
      simp [Channel.queue, Connection.accept_of_closed opened, opened]
    rw [same]
    exact h

/-- If the stale frame is the first one the connection is closed; otherwise the octets that
are sent belong to a frame ahead of it. -/
theorem turn (h : Barred (ε := ε) sent unsent frame d) (balanced : d.connection.Balanced)
    (opened : d.connection.closed = false) (result : SendResult) :
    Barred (ε := ε) sent unsent frame (d.turn (ε := ε) result) := by
  rcases Channel.turn_cases d result with same | closes |
      ⟨first, rest, n, queue, current, fits, sends⟩
  · rw [same]
    exact h
  · rw [closes]
    exact h.shut
  · obtain ⟨stale, more, since, part, waits⟩ := h
    obtain ⟨ahead, behind, output, left⟩ := waits opened
    rcases ahead with _ | ⟨head, ahead⟩
    · have isFirst : first = frame := by
        rw [queue] at output
        exact (List.cons.inj output).1
      exact absurd (isFirst ▸ current) stale.not_current
    · obtain ⟨rfl, rfl⟩ : head = first ∧ rest = ahead ++ frame :: behind := by
        rw [queue] at output
        exact ⟨(List.cons.inj output).1.symm, (List.cons.inj output).2⟩
      have begun := balanced.begun opened head _ queue
      have whole : d.connection.offset + n ≤ head.bytes.length := by
        rw [Connection.left] at fits
        omega
      have step : unsent = (more ++ [d.part (ε := ε) head n]).flatMap Sent.octets ++
          ((if d.connection.offset + n = head.bytes.length then ahead
            else head :: ahead).flatMap OutputFrame.octets).drop
            (if d.connection.offset + n = head.bytes.length then 0
              else d.connection.offset + n) := by
        rw [left, ← Connection.octets_advance head ahead whole]
        simp [Channel.part, Sent.octets]
      refine ⟨stale, more ++ [d.part (ε := ε) head n], ?_, ⟨_, step.symm⟩,
        fun _ => ⟨if d.connection.offset + n = head.bytes.length then ahead else head :: ahead,
          behind, ?_, ?_⟩⟩
      · rw [sends, since, List.append_assoc]
      · rw [sends]
        simp only [Connection.advance_output _ _ _ _ queue]
        split <;> rfl
      · rw [sends]
        simp only [Connection.advance_offset]
        exact step

theorem step {encode : Reply → List UInt8} {d' : Channel σ}
    (h : Barred (ε := ε) sent unsent frame d) (balanced : d.connection.Balanced)
    (s : OutputStep encode d d') : Barred (ε := ε) sent unsent frame d' := by
  cases s with
  | host event => exact h.host event
  | reply reply checked earlier => exact h.queue _
  | notice bytes => exact h.queue _
  | turn result opened => exact h.turn balanced opened result
  | close => exact h.shut

end Barred

/-- A tagged frame that is not of the current generation is stale. -/
theorem Orderly.stale {c : Channel σ} (h : Orderly (ε := ε) c) {frame : OutputFrame}
    (member : frame ∈ c.connection.output) (tagged : frame.generation ≠ "")
    (changed : frame.generation ≠ toString (c.generation (ε := ε))) :
    frame.Stale (c.generation (ε := ε)) := by
  rcases h.past frame member with untagged | ⟨g, earlier, tag⟩
  · exact absurd untagged tagged
  · refine ⟨g, lt_of_le_of_ne earlier ?_, tag⟩
    rintro rfl
    exact changed tag

/-- Nothing of a stale frame or of the frames behind it is ever sent. -/
theorem Orderly.barred {encode : Reply → List UInt8} {c d : Channel σ}
    (h : Orderly (ε := ε) c) {ahead behind : List OutputFrame} {frame : OutputFrame}
    (output : c.connection.output = ahead ++ frame :: behind) (tagged : frame.generation ≠ "")
    (changed : frame.generation ≠ toString (c.generation (ε := ε)))
    (steps : Relation.ReflTransGen (OutputStep encode) c d) :
    Barred (ε := ε) c.sent ((ahead.flatMap OutputFrame.octets).drop c.connection.offset)
      frame d := by
  have stale := h.stale (by simp [output]) tagged changed
  have both : Orderly (ε := ε) d ∧ Barred (ε := ε) c.sent
      ((ahead.flatMap OutputFrame.octets).drop c.connection.offset) frame d := by
    induction steps with
    | refl =>
      exact ⟨h, stale, [], (List.append_nil _).symm, List.nil_prefix,
        fun _ => ⟨ahead, behind, output, rfl⟩⟩
    | tail _ s ih => exact ⟨ih.1.step s, ih.2.step ih.1.balanced s⟩
  exact both.2

/-- An untagged first frame is sent in every generation. -/
theorem Orderly.untagged {c : Channel σ} (h : Orderly (ε := ε) c)
    (opened : c.connection.closed = false) {frame : OutputFrame} {rest : List OutputFrame}
    (queue : c.connection.output = frame :: rest) (untagged : frame.generation = "") {n : Nat}
    (some : 0 < n) :
    (c.turn (ε := ε) (.sent n)).connection.closed = false ∧
      (c.turn (ε := ε) (.sent n)).sent =
        c.sent ++ [c.part (ε := ε) frame (min n (c.connection.left frame))] := by
  have current : frame.current (c.generation (ε := ε)) := Or.inl untagged
  have taken : ¬ min n (c.connection.left frame) = 0 := by
    have := h.balanced.begun opened frame rest queue
    rw [Connection.left]
    omega
  simp only [Channel.turn, Channel.handed, Connection.writeTurn, queue, current, taken,
    not_true_eq_false, ne_eq, not_false_eq_true, and_self, ↓reduceIte, and_true]
  exact (Connection.advance_closed _ _ _ _).trans opened

/-- Nothing happens on a closed connection any more. -/
theorem OutputStep.closed {encode : Reply → List UInt8} {c d : Channel σ} (step : OutputStep encode c d)
    (closed : c.connection.closed = true) : d.connection = c.connection ∧ d.sent = c.sent := by
  cases step with
  | host event => exact ⟨rfl, rfl⟩
  | reply reply checked earlier => exact ⟨Connection.accept_of_closed closed _, rfl⟩
  | notice bytes => exact ⟨Connection.accept_of_closed closed _, rfl⟩
  | turn result opened => simp [closed] at opened
  | close => exact ⟨if_pos closed, rfl⟩

theorem OutputStep.closed_many {encode : Reply → List UInt8} {c d : Channel σ}
    (steps : Relation.ReflTransGen (OutputStep encode) c d) (closed : c.connection.closed = true) :
    d.connection = c.connection ∧ d.sent = c.sent := by
  induction steps with
  | refl => exact ⟨rfl, rfl⟩
  | tail _ step ih =>
    obtain ⟨connection, sent⟩ := step.closed (ih.1 ▸ closed)
    exact ⟨connection.trans ih.1, sent.trans ih.2⟩

/-- In every interleaving: what is sent of a tagged frame is sent in its own generation;
when the generation has changed while the frame is queued, only octets of the frames ahead
of it are sent from then on; frames arrive in the order of the queue, each one complete
before the next begins, and an untagged one is sent whatever the generation is; while the
connection is open the counter is the number of unsent octets, which every send leaves at
zero or above, and it never exceeds its limit. A closed connection has dropped its queue;
nothing is sent on it any more, and its counter stays as it is. -/
theorem stale_reply_never_complete {encode : Reply → List UInt8} {c : Channel σ}
    (carried : Carried encode c) :
    (∀ sent ∈ c.sent, sent.frame.generation ≠ "" →
      sent.frame.generation = toString sent.generation) ∧
    (∀ ahead frame behind d, c.connection.output = ahead ++ frame :: behind →
      frame.generation ≠ "" → frame.generation ≠ toString (c.generation (ε := ε)) →
      Relation.ReflTransGen (OutputStep encode) c d →
      ∃ more, d.sent = c.sent ++ more ∧ more.flatMap Sent.octets <+:
        (ahead.flatMap OutputFrame.octets).drop c.connection.offset) ∧
    c.stream <+: c.accepted.flatMap OutputFrame.octets ∧
    (c.connection.closed = false →
      c.accepted.flatMap OutputFrame.octets = c.stream ++ c.connection.unsent ∧
      c.connection.outputBytes = c.connection.unsent.length ∧
      ∀ frame rest, c.connection.output = frame :: rest →
        c.connection.left frame ≤ c.connection.outputBytes ∧
        (frame.generation = "" → ∀ n, 0 < n →
          (c.turn (ε := ε) (.sent n)).connection.closed = false ∧
          (c.turn (ε := ε) (.sent n)).sent =
            c.sent ++ [c.part (ε := ε) frame (min n (c.connection.left frame))])) ∧
    (c.connection.closed = true → c.connection.output = [] ∧
      ∀ d, Relation.ReflTransGen (OutputStep encode) c d →
        d.connection = c.connection ∧ d.sent = c.sent) ∧
    c.connection.outputBytes ≤ kMaxOutput := by
  have h := Orderly.of_carried carried
  refine ⟨fun sent member tagged => ?_, fun ahead frame behind d output tagged changed steps => ?_,
    h.ordered, fun opened => ⟨h.unsent opened, h.balanced.counted opened,
      fun frame rest queue => ⟨h.balanced.left_le opened queue,
        fun untagged n some => h.untagged opened queue untagged some⟩⟩,
    fun closed => ⟨h.balanced.dropped closed, fun d steps => OutputStep.closed_many steps closed⟩,
    h.balanced.bounded⟩
  · exact (h.current sent member).resolve_left tagged
  · obtain ⟨-, more, since, part, -⟩ := h.barred output tagged changed steps
    exact ⟨more, since, part⟩

end Channel

/-! ### A reply that a fence overtakes -/

namespace Sample

/-- Every message has two octets. -/
def encode (_ : Reply) : List UInt8 := [1, 2]

def tagged : Reply := ⟨none, (∅ : Message).insert "profile_generation" "0"⟩

/-- One octet of a tagged reply was sent, then the profile was fenced; a notice waits
behind the reply. -/
def overtaken : Channel ProfileState :=
  ((((Channel.start ProfileState.initial).queue (replyFrame encode 0 tagged)).turn
    (ε := ProfileStep) (.sent 1)).queue ⟨[3], ""⟩).host ProfileStep.fence

theorem carried_overtaken : Carried encode overtaken :=
  ⟨.initial, .tail (.tail (.tail (.single (.reply _ tagged 0 (Nat.zero_le _)))
    (.turn _ (.sent 1) (by decide))) (.notice _ [3])) (.host _ ProfileStep.fence)⟩

/-- The socket failed while an untagged frame was waiting. -/
def broken : Channel ProfileState :=
  ((Channel.start ProfileState.initial).queue ⟨[3], ""⟩).turn (ε := ProfileStep) .failed

end Sample

/-- Neither the second octet of the reply nor the notice is ever sent. -/
theorem overtaken_reply_never_complete :
    Sample.overtaken.connection.closed = false ∧
    Sample.overtaken.stream = [(⟨[1, 2], "0"⟩, 1)] ∧
    ∀ d, Relation.ReflTransGen (OutputStep Sample.encode) Sample.overtaken d →
      ∃ more, d.sent = Sample.overtaken.sent ++ more ∧ more.flatMap Sent.octets <+: [] :=
  ⟨by decide, by decide, fun d steps =>
    (stale_reply_never_complete Sample.carried_overtaken).2.1 [] ⟨[1, 2], "0"⟩ [⟨[3], ""⟩] d
      (by decide) (by decide) (by decide) steps⟩

/-- `Close` drops the frame and leaves it in the counter; the frame is not delivered. -/
theorem close_leaves_counter :
    Carried Sample.encode Sample.broken ∧
    Sample.broken.connection.output = [] ∧
    Sample.broken.connection.outputBytes ≠ Sample.broken.connection.unsent.length ∧
    Sample.broken.accepted = [⟨[3], ""⟩] ∧ Sample.broken.stream = [] :=
  ⟨⟨.initial, .tail (.single (.notice _ [3])) (.turn _ .failed (by decide))⟩, by decide,
    by decide, by decide, by decide⟩

end Consent.Server
