import Consent.Client.Stream
import Consent.Protocol.Wire
import Consent.Server.Receive

/-!
Both receivers deliver the frames of the stream, however it is cut into reads.

Each keeps a cut of what it has seen: the frames it handed on, and the buffer with the reads
that are still to come behind it. When nothing is left to do, the cut is the one that the
stream determines.
-/
namespace Consent

/-- The stream in pieces that one read can return. -/
structure Pieces (limit : Nat) (stream : List UInt8) (pieces : List (List UInt8)) : Prop where
  whole : pieces.flatten = stream
  nonempty : ∀ piece ∈ pieces, piece ≠ []
  small : ∀ piece ∈ pieces, piece.length ≤ limit

/-! ### The server -/

namespace Server

variable {accepts : List (List UInt8) → Bool} {stream : List UInt8}

/-- How the server closes a connection at the end of its frames. -/
def closing : Ending → Option CloseReason
  | .waiting => none
  | .refused => some .frameSize
  | .rejected => some .invalidFrame

/-- The frame that is being parsed is neither accepted nor rejected yet. -/
def Parsing (accepts : List (List UInt8) → Bool) (stream : List UInt8)
    (bodies : List (List UInt8)) (left : List UInt8) : Prop :=
  ∃ earlier body rest, bodies = earlier ++ [body] ∧ Taken accepts stream earlier rest ∧
    frameFormat.front rest = .frame body left

/-- What holds of a connection and the reads that are still to come. -/
inductive Kept (accepts : List (List UInt8) → Bool) (stream : List UInt8) :
    Inbound × List (List UInt8) → Prop where
  | idle {c : Inbound} {reads : List (List UInt8)} (opened : c.closed = none)
      (idle : c.parsing = false) (taken : Taken accepts stream c.parsed (c.input ++ reads.flatten)) :
      Kept accepts stream (c, reads)
  | busy {c : Inbound} {reads : List (List UInt8)} (opened : c.closed = none)
      (busy : c.parsing = true)
      (parsing : Parsing accepts stream c.parsed (c.input ++ reads.flatten)) :
      Kept accepts stream (c, reads)
  | ended {c : Inbound} {reads : List (List UInt8)} {ending : Ending} {rest : List UInt8}
      (finished : ending ≠ .waiting) (closed : c.closed = closing ending)
      (idle : c.parsing = false) (delivers : Delivers accepts stream c.parsed ending rest) :
      Kept accepts stream (c, reads)

/-- Nothing more is done, or a frame was taken off. -/
def Advanced (c : Inbound) (reads : List (List UInt8)) (s : Inbound × List (List UInt8)) : Prop :=
  Settled s ∨ s.1.parsing = true ∧
    (s.1.input ++ s.2.flatten).length < (c.input ++ reads.flatten).length

/-- The first half of a turn, before any of `reads`. -/
theorem takeFrame_kept {c ended : Inbound} {reads : List (List UInt8)} (opened : c.closed = none)
    (idle : c.parsing = false) (taken : Taken accepts stream c.parsed (c.input ++ reads.flatten))
    (ends : takeFrame c = some ended) :
    Kept accepts stream (ended, reads) ∧ Advanced c reads (ended, reads) := by
  rw [takeFrame_eq] at ends
  rcases found : frameFormat.front c.input with _ | _ | ⟨body, rest⟩
  · rw [found] at ends
    cases ends
  · rw [found] at ends
    cases ends
    have refused := (Frames.Format.front_eq_refuse.mp found).append reads.flatten
    have closes : (c.close .frameSize).closed = closing .refused := rfl
    refine ⟨.ended (by decide) closes idle (taken.refuse refused), Or.inl (Or.inl ?_)⟩
    rw [closes]
    simp [closing]
  · rw [found] at ends
    cases ends
    have behind := Frames.Format.front_append found reads.flatten
    refine ⟨.busy opened rfl ⟨c.parsed, body, _, rfl, taken, behind⟩, Or.inr ⟨rfl, ?_⟩⟩
    exact Frames.Format.length_lt_of_frame behind

variable {c : Inbound} {bodies : List (List UInt8)} {s : Inbound × List (List UInt8)}

theorem receiveLoop_kept {reads later : List (List UInt8)} (opened : c.closed = none)
    (idle : c.parsing = false)
    (taken : Taken accepts stream c.parsed (c.input ++ (reads ++ later).flatten))
    (nonempty : ∀ piece ∈ reads, piece ≠ []) (small : ∀ piece ∈ reads, piece.length ≤ kReadSize) :
    Kept accepts stream ((receiveLoop c reads).1, (receiveLoop c reads).2 ++ later) ∧
      (receiveLoop c reads).2 <:+ reads ∧
      (later = [] → Advanced c reads (receiveLoop c reads)) := by
  induction reads generalizing c with
  | nil =>
    unfold receiveLoop
    rcases ends : takeFrame c with _ | ended
    · refine ⟨.idle opened idle taken, List.suffix_refl _, fun _ => Or.inl (Or.inr ?_)⟩
      exact ⟨rfl, idle, ends⟩
    · obtain ⟨kept, advanced⟩ := takeFrame_kept opened idle taken ends
      refine ⟨kept, List.suffix_refl _, fun last => ?_⟩
      subst last
      exact advanced
  | cons bytes rest ih =>
    unfold receiveLoop
    rcases ends : takeFrame c with _ | ended
    · dsimp only
      rw [if_neg (nonempty bytes (by simp)),
        if_neg (Nat.not_lt.mpr (input_within_limit ends (small bytes (by simp))))]
      have read : Taken accepts stream c.parsed ((c.input ++ bytes) ++ (rest ++ later).flatten) := by
        simpa using taken
      obtain ⟨kept, suffix, advanced⟩ := @ih { c with input := c.input ++ bytes } opened idle read
        (fun piece member => nonempty piece (by simp [member]))
        (fun piece member => small piece (by simp [member]))
      refine ⟨kept, suffix.trans (List.suffix_cons _ _), fun last => ?_⟩
      rcases advanced last with settled | ⟨busy, shorter⟩
      · exact Or.inl settled
      · refine Or.inr ⟨busy, ?_⟩
        simpa using shorter
    · obtain ⟨kept, advanced⟩ := takeFrame_kept opened idle taken ends
      refine ⟨kept, List.suffix_refl _, fun last => ?_⟩
      subst last
      simpa using advanced

/-- The connection is open and idle, so it is read. -/
theorem receive_eq (opened : c.closed = none) (idle : c.parsing = false) (reads : List (List UInt8))
    : receive c reads = receiveLoop c reads := by
  unfold receive
  rw [opened, idle]
  rfl

theorem receive_of_busy (busy : c.closed ≠ none ∨ c.parsing = true) (reads : List (List UInt8)) :
    receive c reads = (c, reads) := by
  unfold receive
  rcases busy with closed | busy
  · rw [Option.isSome_iff_ne_none.mpr closed]
    rfl
  · rw [busy, Bool.or_true]
    rfl

/-- The frame that was parsed has been judged. -/
theorem parsed_eq (opened : c.closed = none) (accepted : Bool) (reads : List (List UInt8)) :
    parsed c accepted reads =
      if accepted then receiveLoop { c with parsing := false } reads
      else ({ c with parsing := false }.close .invalidFrame, reads) := by
  unfold parsed
  dsimp only
  have still : c.closed.isSome = false := by rw [opened]; rfl
  rw [if_neg (by rw [still]; decide)]
  split
  · exact receive_eq (c := { c with parsing := false }) opened rfl reads
  · rfl

theorem Parsing.accept {left : List UInt8} (h : Parsing accepts stream bodies left)
    (accepted : accepts bodies = true) :
    Taken accepts stream bodies left := by
  obtain ⟨earlier, body, rest, rfl, taken, found⟩ := h
  exact taken.take found accepted

theorem Parsing.reject {left : List UInt8} (h : Parsing accepts stream bodies left)
    (rejected : accepts bodies = false) :
    Delivers accepts stream bodies .rejected left := by
  obtain ⟨earlier, body, rest, rfl, taken, found⟩ := h
  exact taken.reject found rejected

/-- The reads that are still to come are pieces of the stream. -/
structure Sound (accepts : List (List UInt8) → Bool) (stream : List UInt8)
    (s : Inbound × List (List UInt8)) : Prop where
  kept : Kept accepts stream s
  nonempty : ∀ piece ∈ s.2, piece ≠ []
  small : ∀ piece ∈ s.2, piece.length ≤ kReadSize

theorem Sound.initial {pieces : List (List UInt8)} (h : Pieces kReadSize stream pieces) :
    Sound accepts stream (Inbound.fresh, pieces) where
  kept := .idle rfl rfl (by
    show Taken accepts stream [] ([] ++ pieces.flatten)
    rw [h.whole]
    exact .start stream)
  nonempty := h.nonempty
  small := h.small

theorem Sound.step {s t : Inbound × List (List UInt8)} (h : Sound accepts stream s)
    (step : ReceiveStep accepts s t) : Sound accepts stream t := by
  have rest : ∀ {available later left : List (List UInt8)} {c : Inbound},
      Sound accepts stream (c, available ++ later) → left <:+ available →
      (∀ piece ∈ left ++ later, piece ≠ []) ∧ ∀ piece ∈ left ++ later, piece.length ≤ kReadSize := by
    intro available later left c sound suffix
    have inside : ∀ piece ∈ left ++ later, piece ∈ available ++ later := by
      intro piece member
      rcases List.mem_append.mp member with member | member
      · exact List.mem_append_left _ (suffix.subset member)
      · exact List.mem_append_right _ member
    exact ⟨fun piece member => sound.nonempty piece (inside piece member),
      fun piece member => sound.small piece (inside piece member)⟩
  cases step with
  | readable c available later =>
    by_cases still : c.closed ≠ none ∨ c.parsing = true
    · rw [receive_of_busy still]
      exact h
    · rw [not_or, not_not, Bool.not_eq_true] at still
      rw [receive_eq still.1 still.2]
      have taken : Taken accepts stream c.parsed (c.input ++ (available ++ later).flatten) := by
        cases h.kept with
        | idle _ _ taken => exact taken
        | busy _ busy _ => rw [still.2] at busy; cases busy
        | @ended _ _ ending _ finished closed _ _ =>
          rw [still.1] at closed
          cases ending <;> first | exact absurd rfl finished | cases closed
      obtain ⟨kept, suffix, _⟩ := receiveLoop_kept still.1 still.2 taken
        (fun piece member => h.nonempty piece (List.mem_append_left _ member))
        (fun piece member => h.small piece (List.mem_append_left _ member))
      exact ⟨kept, (rest h suffix).1, (rest h suffix).2⟩
  | parsed c available later busy =>
    cases h.kept with
    | idle _ idle _ => rw [busy] at idle; cases idle
    | ended _ _ idle _ => rw [busy] at idle; cases idle
    | busy opened _ parsing =>
      rw [parsed_eq opened]
      by_cases accepted : accepts c.parsed = true
      · rw [if_pos accepted]
        obtain ⟨kept, suffix, _⟩ := @receiveLoop_kept accepts stream { c with parsing := false }
          available later opened rfl (parsing.accept accepted)
          (fun piece member => h.nonempty piece (List.mem_append_left _ member))
          (fun piece member => h.small piece (List.mem_append_left _ member))
        exact ⟨kept, (rest h suffix).1, (rest h suffix).2⟩
      · rw [if_neg accepted]
        have rejected : accepts c.parsed = false := by simpa using accepted
        have closes : ({ c with parsing := false }.close .invalidFrame).closed = closing .rejected := rfl
        refine ⟨.ended (by decide) closes rfl (parsing.reject rejected), ?_, ?_⟩
        · exact (rest h (List.suffix_refl _)).1
        · exact (rest h (List.suffix_refl _)).2

theorem Sound.run {s t : Inbound × List (List UInt8)} (h : Sound accepts stream s)
    (run : Relation.ReflTransGen (ReceiveStep accepts) s t) : Sound accepts stream t := by
  induction run with
  | refl => exact h
  | tail _ step ih => exact ih.step step

/-- The input limit is out of reach. -/
theorem Sound.unlimited (h : Sound accepts stream s) :
    s.1.closed ≠ some .inputLimit := by
  cases h.kept with
  | idle opened _ _ =>
    rw [opened]
    simp
  | busy opened _ _ =>
    rw [opened]
    simp
  | @ended _ _ ending _ _ closed _ _ =>
    rw [closed]
    cases ending <;> simp [closing]

/-- What was handed on so far begins what the stream delivers. -/
theorem Sound.begins (h : Sound accepts stream s) {ending : Ending} {rest : List UInt8}
    (delivers : Delivers accepts stream bodies ending rest) : s.1.parsed <+: bodies := by
  cases h.kept with
  | idle _ _ taken =>
    exact delivers.begins taken.cut fun initial more same nonempty _ =>
      taken.accepted initial more same nonempty
  | busy _ _ parsing =>
    obtain ⟨earlier, body, rest, same, taken, found⟩ := parsing
    dsimp only
    rw [same]
    refine delivers.begins (taken.cut_frame found) fun initial more split nonempty goes => ?_
    rcases Taken.initial_cases split with ⟨_, ended⟩ | ⟨less, before⟩
    · exact absurd ended goes
    · exact taken.accepted initial less before nonempty
  | ended _ _ _ delivered =>
    rw [(delivered.unique delivers).1]

/-- When nothing is left to do, everything has been handed on. -/
theorem Sound.settled (h : Sound accepts stream s) (settled : Settled s) {ending : Ending}
    {rest : List UInt8} (delivers : Delivers accepts stream bodies ending rest) :
    s.1.parsed = bodies ∧ s.1.closed = closing ending := by
  cases h.kept with
  | @idle c reads opened idle taken =>
    rcases settled with closed | ⟨none, _, waits⟩
    · exact absurd opened closed
    · dsimp only at none waits
      subst none
      have front : frameFormat.front c.input = .wait := by
        rw [takeFrame_eq] at waits
        split at waits
        · assumption
        · cases waits
        · cases waits
      rw [List.flatten_nil, List.append_nil] at taken
      obtain ⟨same, rfl, _⟩ := (taken.wait front).unique delivers
      exact ⟨same, opened⟩
  | busy opened busy _ =>
    rcases settled with closed | ⟨_, idle, _⟩
    · exact absurd opened closed
    · dsimp only at idle
      rw [busy] at idle
      cases idle
  | ended _ closed _ delivered =>
    obtain ⟨same, rfl, _⟩ := delivered.unique delivers
    exact ⟨same, closed⟩

/-- Whatever has happened, everything is handed on in the end. -/
theorem Sound.settles (h : Sound accepts stream s) :
    ∃ t, Relation.ReflTransGen (ReceiveStep accepts) s t ∧ Settled t := by
  -- Every job that comes back leaves a shorter rest of the stream.
  have busy : ∀ (n : Nat) {s : Inbound × List (List UInt8)}, Sound accepts stream s →
      s.1.parsing = true → (s.1.input ++ s.2.flatten).length < n →
      ∃ t, Relation.ReflTransGen (ReceiveStep accepts) s t ∧ Settled t := by
    intro n
    induction n with
    | zero =>
      intro s _ _ short
      exact absurd short (Nat.not_lt_zero _)
    | succ n ih =>
      rintro ⟨c, reads⟩ sound busy short
      dsimp only at busy short
      have step : ReceiveStep accepts (c, reads) (parsed c (accepts c.parsed) reads) := by
        simpa using ReceiveStep.parsed c reads [] busy
      have next := sound.step step
      have advanced : Advanced c reads (parsed c (accepts c.parsed) reads) := by
        cases sound.kept with
        | idle _ idle _ => rw [busy] at idle; cases idle
        | ended _ _ idle _ => rw [busy] at idle; cases idle
        | busy opened _ parsing =>
          rw [parsed_eq opened]
          split
          · rename_i accepted
            have taken := parsing.accept accepted
            rw [← List.append_nil reads] at taken
            exact (@receiveLoop_kept accepts stream { c with parsing := false } reads [] opened rfl
              taken sound.nonempty sound.small).2.2 rfl
          · exact Or.inl (Or.inl (by simp [Inbound.close]))
      rcases advanced with settled | ⟨again, shorter⟩
      · exact ⟨_, .single step, settled⟩
      · obtain ⟨t, run, settled⟩ := ih next again (by omega)
        exact ⟨t, .head step run, settled⟩
  obtain ⟨c, reads⟩ := s
  cases h.kept with
  | busy _ is _ => exact busy _ h is (Nat.lt_succ_self _)
  | @ended _ _ ending _ finished closed _ _ =>
    refine ⟨_, .refl, Or.inl ?_⟩
    dsimp only
    rw [closed]
    cases ending with
    | waiting => exact absurd rfl finished
    | refused => simp [closing]
    | rejected => simp [closing]
  | idle opened idle taken =>
    have step : ReceiveStep accepts (c, reads) (receive c reads) := by
      simpa using ReceiveStep.readable c reads []
    rw [← List.append_nil reads] at taken
    have advanced := (receiveLoop_kept opened idle taken h.nonempty h.small).2.2 rfl
    rw [← receive_eq opened idle] at advanced
    rcases advanced with settled | ⟨again, _⟩
    · exact ⟨_, .single step, settled⟩
    · obtain ⟨t, run, settled⟩ := busy _ (h.step step) again (Nat.lt_succ_self _)
      exact ⟨t, .head step run, settled⟩

end Server

/-! ### The client -/

namespace Client

variable {accepts : List (List UInt8) → Bool} {stream : List UInt8}

/-- How the client fails at the end of its frames. -/
def failing : Ending → Option ReadError
  | .waiting => none
  | .refused | .rejected => some .protocol

/-- The octets of reads with their times. -/
def octets (reads : List (List UInt8 × Int)) : List UInt8 := (reads.map Prod.fst).flatten

/-- Of the stream, `left` has not been read; the buffer holds no complete frame. -/
structure Healthy (accepts : List (List UInt8) → Bool) (stream : List UInt8) (s : Inbound)
    (left : List UInt8) : Prop where
  sound : s.failed = none
  taken : ∃ seen, stream = seen ++ left ∧ Taken accepts seen s.delivered s.input
  waits : frameFormat.front s.input = .wait

/-- What holds of a connection and the octets that are still to come. -/
inductive Kept (accepts : List (List UInt8) → Bool) (stream : List UInt8) (s : Inbound)
    (left : List UInt8) : Prop where
  | healthy (healthy : Healthy accepts stream s left)
  | failed {ending : Ending} {rest : List UInt8} (finished : ending ≠ .waiting)
      (failed : s.failed = some .protocol) (delivers : Delivers accepts stream s.delivered ending rest)

theorem add_kept {s : Inbound} {bytes left : List UInt8} (now : Int)
    (h : Healthy accepts stream s (bytes ++ left)) : Kept accepts stream (s.add accepts bytes now) left := by
  obtain ⟨seen, rfl, taken⟩ := h.taken
  obtain ⟨_, ends⟩ := @takeFrames_spec accepts (s.input ++ bytes).length
    { s with input := s.input ++ bytes } (seen ++ bytes) (le_refl _) h.sound (taken.append bytes)
  dsimp only [Inbound.add]
  rcases ends with ⟨sound, taken, waits⟩ | ⟨failed, ending, rest, finished, delivers⟩
  · refine .healthy ⟨?_, ⟨seen ++ bytes, by simp, ?_⟩, ?_⟩
    · rw [Inbound.dated_failed, sound]
    · rw [Inbound.dated_delivered, Inbound.dated_input]
      exact taken
    · rw [Inbound.dated_input, waits]
  · have whole := delivers.append finished left
    rw [List.append_assoc] at whole
    rw [← Inbound.dated_delivered _ now] at whole
    exact .failed finished (by rw [Inbound.dated_failed, failed]) whole

/-- A call of `Read` handles some of the reads; unless there are none or the connection
fails, at least one. -/
theorem read_kept {s : Inbound} {reads : List (List UInt8 × Int)} {later : List UInt8}
    (received : Nat) (h : Healthy accepts stream s (octets reads ++ later))
    (nonempty : ∀ item ∈ reads, item.1 ≠ []) :
    Kept accepts stream (read accepts received s reads).1
        (octets (read accepts received s reads).2 ++ later) ∧
      (read accepts received s reads).2 <:+ reads ∧
      (reads ≠ [] → (read accepts received s reads).2.length < reads.length) := by
  induction reads generalizing s received with
  | nil => exact ⟨.healthy h, List.suffix_refl _, fun some => absurd rfl some⟩
  | cons item rest ih =>
    obtain ⟨bytes, now⟩ := item
    have added : Kept accepts stream (s.add accepts bytes now) (octets rest ++ later) := by
      apply add_kept now
      simpa [octets] using h
    have suffix := List.suffix_cons (bytes, now) rest
    unfold read
    rw [if_neg (nonempty (bytes, now) (by simp))]
    dsimp only
    by_cases fails : (s.add accepts bytes now).failed.isSome = true
    · rw [if_pos fails]
      exact ⟨added, suffix, fun _ => Nat.lt_succ_self _⟩
    · rw [if_neg fails]
      by_cases yields : kMaxFrameSize ≤ received + bytes.length
      · rw [if_pos yields]
        exact ⟨added, suffix, fun _ => Nat.lt_succ_self _⟩
      · rw [if_neg yields]
        cases added with
        | failed _ failed _ =>
          rw [failed] at fails
          exact absurd rfl fails
        | healthy healthy =>
          obtain ⟨kept, within, _⟩ := ih (received + bytes.length) healthy
            fun item member => nonempty item (by simp [member])
          refine ⟨kept, within.trans suffix, fun _ => ?_⟩
          exact Nat.lt_succ_of_le within.length_le

/-- Everything was read, or the connection has failed. -/
def Settled (s : Inbound × List (List UInt8 × Int)) : Prop := s.1.failed ≠ none ∨ s.2 = []

structure Sound (accepts : List (List UInt8) → Bool) (stream : List UInt8)
    (s : Inbound × List (List UInt8 × Int)) : Prop where
  kept : Kept accepts stream s.1 (octets s.2)
  nonempty : ∀ item ∈ s.2, item.1 ≠ []

theorem Sound.initial {reads : List (List UInt8 × Int)}
    (h : Pieces kReadSize stream (reads.map Prod.fst)) :
    Sound accepts stream (Inbound.fresh, reads) where
  kept := .healthy ⟨rfl, ⟨[], by simp [octets, h.whole], .start []⟩, rfl⟩
  nonempty item member := h.nonempty item.1 (List.mem_map_of_mem member)

theorem Sound.step {s t : Inbound × List (List UInt8 × Int)} (h : Sound accepts stream s)
    (step : ReadStep accepts s t) :
    Sound accepts stream t := by
  cases step with
  | readable s available later healthy =>
    cases h.kept with
    | failed _ failed _ =>
      rw [healthy] at failed
      cases failed
    | healthy is =>
      have split : octets (available ++ later) = octets available ++ octets later := by simp [octets]
      dsimp only at is
      rw [split] at is
      obtain ⟨kept, suffix, _⟩ := read_kept 0 is
        fun item member => h.nonempty item (List.mem_append_left _ member)
      refine ⟨by simpa [octets] using kept, fun item member => ?_⟩
      rcases List.mem_append.mp member with member | member
      · exact h.nonempty item (List.mem_append_left _ (suffix.subset member))
      · exact h.nonempty item (List.mem_append_right _ member)

theorem Sound.run {s t : Inbound × List (List UInt8 × Int)} (h : Sound accepts stream s)
    (run : Relation.ReflTransGen (ReadStep accepts) s t) : Sound accepts stream t := by
  induction run with
  | refl => exact h
  | tail _ step ih => exact ih.step step

theorem Sound.begins {s : Inbound × List (List UInt8 × Int)} (h : Sound accepts stream s)
    {bodies : List (List UInt8)} {ending : Ending} {rest : List UInt8}
    (delivers : Delivers accepts stream bodies ending rest) : s.1.delivered <+: bodies := by
  cases h.kept with
  | healthy healthy =>
    obtain ⟨seen, rfl, taken⟩ := healthy.taken
    exact delivers.begins (taken.append _).cut fun initial more same nonempty _ =>
      taken.accepted initial more same nonempty
  | failed _ _ delivered =>
    rw [(delivered.unique delivers).1]

theorem Sound.settled {s : Inbound × List (List UInt8 × Int)} (h : Sound accepts stream s)
    (settled : Settled s) {bodies : List (List UInt8)} {ending : Ending} {rest : List UInt8}
    (delivers : Delivers accepts stream bodies ending rest) :
    s.1.delivered = bodies ∧ s.1.failed = failing ending := by
  cases h.kept with
  | healthy healthy =>
    rcases settled with fails | all
    · exact absurd healthy.sound fails
    · obtain ⟨seen, rfl, taken⟩ := healthy.taken
      rw [all] at delivers
      have whole : seen ++ octets [] = seen := by simp [octets]
      rw [whole] at delivers
      obtain ⟨same, rfl, _⟩ := (taken.wait healthy.waits).unique delivers
      exact ⟨same, healthy.sound⟩
  | @failed own _ finished failed delivered =>
    obtain ⟨same, rfl, _⟩ := delivered.unique delivers
    refine ⟨same, failed.trans ?_⟩
    cases own with
    | waiting => exact absurd rfl finished
    | refused => rfl
    | rejected => rfl

theorem Sound.settles {s : Inbound × List (List UInt8 × Int)} (h : Sound accepts stream s) :
    ∃ t, Relation.ReflTransGen (ReadStep accepts) s t ∧ Settled t := by
  -- Every call handles at least one read.
  generalize bound : s.2.length = n
  induction n using Nat.strong_induction_on generalizing s with
  | _ n ih =>
    obtain ⟨s, reads⟩ := s
    dsimp only at bound
    by_cases done : Settled (s, reads)
    · exact ⟨_, .refl, done⟩
    · rw [Settled, not_or, not_not] at done
      have step : ReadStep accepts (s, reads) (read accepts 0 s reads) := by
        have whole := @ReadStep.readable accepts s reads [] done.1
        simpa using whole
      have shorter : (read accepts 0 s reads).2.length < n := by
        cases h.kept with
        | failed _ failed _ =>
          rw [done.1] at failed
          cases failed
        | healthy is =>
          have is : Healthy accepts stream s (octets reads ++ []) := by simpa using is
          rw [← bound]
          exact (read_kept 0 is h.nonempty).2.2 done.2
      obtain ⟨t, run, settled⟩ := ih _ shorter (h.step step) rfl
      exact ⟨t, .head step run, settled⟩

end Client

/-! ### Both -/

/-- Every stream delivers something. -/
theorem exists_delivers (accepts : List (List UInt8) → Bool) (stream : List UInt8) :
    ∃ bodies ending rest, Delivers accepts stream bodies ending rest := by
  obtain ⟨_, ends⟩ := @Client.takeFrames_spec accepts stream.length ⟨stream, 0, none, []⟩ stream
    (le_refl _) rfl (.start stream)
  rcases ends with ⟨_, taken, waits⟩ | ⟨_, ending, rest, _, delivers⟩
  · exact ⟨_, .waiting, _, taken.wait waits⟩
  · exact ⟨_, ending, rest, delivers⟩

/-- A stream determines the frames that are delivered and how they end, whatever the reads
are and whenever the jobs of the parser come back. If every frame is accepted, no frame is
left behind them. At any time a receiver has handed on the first of these frames, and it can
always hand on all of them; then the server has closed the connection if and only if the
length of the next frame is not permitted or the last frame was not accepted, and the client
has failed if and only if the server has closed. The server never closes because of its input
limit. -/
theorem framing_independent_of_reads (accepts : List (List UInt8) → Bool) (stream : List UInt8) :
    ∃ bodies ending rest, Delivers accepts stream bodies ending rest ∧
      ((∀ frames, accepts frames = true) → frameFormat.Incomplete rest) ∧
      (∀ pieces, Pieces Server.kReadSize stream pieces → ∀ s,
        Relation.ReflTransGen (Server.ReceiveStep accepts) (Server.Inbound.fresh, pieces) s →
          s.1.parsed <+: bodies ∧ s.1.closed ≠ some .inputLimit ∧
          (Server.Settled s → s.1.parsed = bodies ∧ s.1.closed = Server.closing ending) ∧
          ∃ t, Relation.ReflTransGen (Server.ReceiveStep accepts) s t ∧ Server.Settled t) ∧
      ∀ reads, Pieces Client.kReadSize stream (reads.map Prod.fst) → ∀ s,
        Relation.ReflTransGen (Client.ReadStep accepts) (Client.Inbound.fresh, reads) s →
          s.1.delivered <+: bodies ∧
          (Client.Settled s → s.1.delivered = bodies ∧ s.1.failed = Client.failing ending) ∧
          ∃ t, Relation.ReflTransGen (Client.ReadStep accepts) s t ∧ Client.Settled t := by
  obtain ⟨bodies, ending, rest, delivers⟩ := exists_delivers accepts stream
  refine ⟨bodies, ending, rest, delivers, fun all => ?_, fun pieces cut s run => ?_,
    fun reads cut s run => ?_⟩
  · apply delivers.incomplete
    intro rejects
    obtain ⟨_, refuses⟩ := delivers.rejected rejects
    rw [all] at refuses
    cases refuses
  · have start : Server.Sound accepts stream (Server.Inbound.fresh, pieces) := .initial cut
    have sound := start.run run
    exact ⟨sound.begins delivers, sound.unlimited, fun settled => sound.settled settled delivers,
      sound.settles⟩
  · have start : Client.Sound accepts stream (Client.Inbound.fresh, reads) := .initial cut
    have sound := start.run run
    exact ⟨sound.begins delivers, fun settled => sound.settled settled delivers, sound.settles⟩

/-! ### The time that a frame may take -/

namespace Client

variable {accepts : List (List UInt8) → Bool} {history : List (List UInt8 × Int)} {s : Inbound}

/-- The reads of a connection so far, each with its time, and what they have led to. -/
inductive Reading (accepts : List (List UInt8) → Bool) : List (List UInt8 × Int) → Inbound → Prop
  | start : Reading accepts [] Inbound.fresh
  | read {history : List (List UInt8 × Int)} {s : Inbound} {bytes : List UInt8} {now : Int} :
      Reading accepts history s → s.failed = none → bytes ≠ [] →
      Reading accepts (history ++ [(bytes, now)]) (s.add accepts bytes now)

/-- A call of `Read` that does not fail is a number of such reads. -/
theorem Reading.of_read {received : Nat} {reads : List (List UInt8 × Int)}
    (h : Reading accepts history s) (healthy : s.failed = none)
    (sound : (Client.read accepts received s reads).1.failed = none) :
    ∃ handled, reads = handled ++ (Client.read accepts received s reads).2 ∧
      Reading accepts (history ++ handled) (Client.read accepts received s reads).1 := by
  induction reads generalizing s received history with
  | nil => exact ⟨[], rfl, by simpa [Client.read] using h⟩
  | cons item rest ih =>
    obtain ⟨bytes, now⟩ := item
    unfold Client.read at sound ⊢
    by_cases ended : bytes = []
    · rw [if_pos ended] at sound
      cases sound
    have next : Reading accepts (history ++ [(bytes, now)]) (s.add accepts bytes now) :=
      .read h healthy ended
    rw [if_neg ended] at sound ⊢
    dsimp only at sound ⊢
    split at sound
    · rename_i fails
      rw [sound] at fails
      cases fails
    · rename_i fine
      rw [if_neg fine]
      split at sound
      · rename_i yields
        rw [if_pos yields]
        exact ⟨[(bytes, now)], rfl, next⟩
      · rename_i more
        rw [if_neg more]
        obtain ⟨handled, split, reading⟩ := ih next (by simpa using fine) sound
        refine ⟨(bytes, now) :: handled, by rw [List.cons_append, ← split], ?_⟩
        simpa using reading

/-- A connection that has not failed has seen such reads, those before what is left. -/
theorem Reading.of_run {reads left : List (List UInt8 × Int)}
    (run : Relation.ReflTransGen (ReadStep accepts) (Inbound.fresh, reads) (s, left))
    (sound : s.failed = none) : ∃ handled, reads = handled ++ left ∧ Reading accepts handled s := by
  generalize reached : (s, left) = t at run
  induction run generalizing s left with
  | refl =>
    cases reached
    exact ⟨[], rfl, .start⟩
  | tail _ step ih =>
    cases step with
    | readable s available later healthy =>
      cases reached
      obtain ⟨handled, rfl, reading⟩ := ih healthy rfl
      obtain ⟨more, split, reading⟩ := reading.of_read healthy sound
      refine ⟨handled ++ more, ?_, reading⟩
      rw [List.append_assoc, ← List.append_assoc more, ← split]

/-- When the octet at a position of the stream was read. -/
def arrivedAt : List (List UInt8 × Int) → Nat → Option Int
  | [], _ => none
  | (bytes, now) :: rest, position =>
    if position < bytes.length then some now else arrivedAt rest (position - bytes.length)

/-- When the first octet of the frame was read that is not complete yet. -/
def began (history : List (List UInt8 × Int)) (s : Inbound) : Option Int :=
  arrivedAt history ((octets history).length - s.input.length)

/-- How the frames of a stream are packed into reads: each read begins with a frame, ends
with one, or completes none. -/
def Packed (reads : List (List UInt8)) : Prop :=
  ∀ earlier bytes later, reads = earlier ++ bytes :: later →
    frameFormat.Whole earlier.flatten ∨ frameFormat.Whole (earlier.flatten ++ bytes) ∨
      frameFormat.Within earlier.flatten bytes

theorem Packed.of_append {reads : List (List UInt8)} {last : List UInt8}
    (h : Packed (reads ++ [last])) : Packed reads := by
  rintro earlier bytes later rfl
  exact h earlier bytes (later ++ [last]) (by simp)

theorem octets_append (left right : List (List UInt8 × Int)) :
    octets (left ++ right) = octets left ++ octets right := by
  simp [octets]

theorem arrivedAt_of_lt {history more : List (List UInt8 × Int)} {position : Nat}
    (inside : position < (octets history).length) :
    arrivedAt (history ++ more) position = arrivedAt history position := by
  induction history generalizing position with
  | nil => simp [octets] at inside
  | cons item rest ih =>
    obtain ⟨bytes, now⟩ := item
    have length : (octets ((bytes, now) :: rest)).length = bytes.length + (octets rest).length := by
      simp [octets]
    rw [length] at inside
    rw [List.cons_append, arrivedAt, arrivedAt]
    split
    · rfl
    · exact ih (by omega)

theorem arrivedAt_last {history : List (List UInt8 × Int)} {bytes : List UInt8} {now : Int}
    {position : Nat} (low : (octets history).length ≤ position)
    (high : position < (octets history).length + bytes.length) :
    arrivedAt (history ++ [(bytes, now)]) position = some now := by
  induction history generalizing position with
  | nil =>
    simp only [octets, List.map_nil, List.flatten_nil, List.length_nil, Nat.zero_add] at high
    rw [List.nil_append, arrivedAt, if_pos high]
  | cons item rest ih =>
    obtain ⟨first, time⟩ := item
    have length : (octets ((first, time) :: rest)).length = first.length + (octets rest).length := by
      simp [octets]
    rw [length] at low high
    rw [List.cons_append, arrivedAt, if_neg (by omega)]
    exact ih (by omega) (by omega)

/-- The frames are taken off what was read. -/
theorem Reading.healthy (h : Reading accepts history s) (sound : s.failed = none) :
    Taken accepts (octets history) s.delivered s.input ∧ frameFormat.front s.input = .wait := by
  induction h with
  | start => exact ⟨.start [], rfl⟩
  | @read history s bytes now _ before some ih =>
    obtain ⟨taken, waits⟩ := ih before
    have kept : Kept accepts (octets history ++ bytes) (s.add accepts bytes now) [] :=
      add_kept now ⟨before, ⟨octets history, by simp, taken⟩, waits⟩
    cases kept with
    | failed _ failed _ =>
      rw [sound] at failed
      cases failed
    | healthy healthy =>
      obtain ⟨seen, same, taken⟩ := healthy.taken
      rw [List.append_nil] at same
      refine ⟨?_, healthy.waits⟩
      rw [octets_append, show octets [(bytes, now)] = bytes by simp [octets], same]
      exact taken

/-- What one read does to the buffer and to the time. -/
structure Added (before after : Inbound) (bytes : List UInt8) (now : Int) : Prop where
  taken : ∃ bodies, after.delivered = before.delivered ++ bodies ∧
    frameFormat.Cut (before.input ++ bytes) bodies after.input
  since : after.partialSince =
    if after.input = [] then 0 else if before.partialSince = 0 then now else before.partialSince

theorem Reading.added {bytes : List UInt8} {now : Int} (h : Reading accepts history s)
    (before : s.failed = none) (some : bytes ≠ [])
    (after : (s.add accepts bytes now).failed = none) : Added s (s.add accepts bytes now) bytes now := by
  obtain ⟨taken, _⟩ := h.healthy before
  have next : Reading accepts (history ++ [(bytes, now)]) (s.add accepts bytes now) := .read h before some
  obtain ⟨taken', waits⟩ := next.healthy after
  rw [octets_append, show octets [(bytes, now)] = bytes by simp [octets]] at taken'
  refine ⟨?_, ?_⟩
  · rcases (taken.append bytes).cut.comparable taken'.cut with ⟨more, same, cut⟩ | ⟨more, same, cut⟩
    · exact ⟨more, same, cut⟩
    · have incomplete := (Frames.Format.front_eq_wait.mp waits).2
      generalize (s.add accepts bytes now).input = left at cut incomplete ⊢
      cases cut with
      | nil => exact ⟨[], by rw [same]; simp, .nil _⟩
      | cons frame _ => exact absurd rfl (incomplete _ _ _ frame)
  · obtain ⟨kept, _⟩ := @takeFrames_spec accepts (s.input ++ bytes).length
      { s with input := s.input ++ bytes } (octets history ++ bytes) (le_refl _) before
      (taken.append bytes)
    dsimp only [Inbound.add] at after ⊢
    rw [Inbound.dated_failed] at after
    simp only [Inbound.dated_since after, Inbound.dated_input, kept]

/-- The time is that of the first octet of the frame, however far the reads have come. -/
theorem Reading.since (h : Reading accepts history s) (sound : s.failed = none)
    (positive : ∀ item ∈ history, 0 < item.2) (packed : Packed (history.map Prod.fst)) :
    (s.input = [] → s.partialSince = 0) ∧
      (s.input ≠ [] → s.partialSince ≠ 0 ∧ began history s = some s.partialSince) := by
  induction h with
  | start => exact ⟨fun _ => rfl, fun some => absurd rfl some⟩
  | @read history s bytes now reading before some ih =>
    rw [List.map_append] at packed
    obtain ⟨unset, set⟩ := ih before (fun item member => positive item (by simp [member]))
      packed.of_append
    obtain ⟨⟨bodies, delivered, cut⟩, since⟩ := reading.added before some sound
    have time : 0 < now := positive (bytes, now) (by simp)
    have total : (octets (history ++ [(bytes, now)])).length =
        (octets history).length + bytes.length := by simp [octets]
    have whole := cut.length
    rw [List.length_append] at whole
    obtain ⟨taken, waits⟩ := reading.healthy before
    obtain ⟨taken', waits'⟩ := (Reading.read reading before some).healthy sound
    have incomplete := (Frames.Format.front_eq_wait.mp waits).2
    have seen := taken.cut.length
    refine ⟨fun empty => by rw [since, if_pos empty], fun rest => ?_⟩
    have long : 0 < (s.add accepts bytes now).input.length := List.length_pos_of_ne_nil rest
    rw [since, if_neg rest, began, total]
    by_cases fresh : s.input = []
    · rw [unset fresh, if_pos rfl]
      have : s.input.length = 0 := by rw [fresh]; rfl
      exact ⟨by omega, arrivedAt_last (by omega) (by omega)⟩
    · -- The read neither begins nor ends with a frame, so it completes none.
      obtain ⟨nonzero, first⟩ := set fresh
      have last : octets (history ++ [(bytes, now)]) = octets history ++ bytes := by simp [octets]
      rw [last] at taken'
      have none : bodies = [] := by
        rcases packed _ bytes [] rfl with begins | ends | within
        · exact absurd (taken.cut.rest_nil incomplete begins) fresh
        · exact absurd (taken'.cut.rest_nil (Frames.Format.front_eq_wait.mp waits').2 ends) rest
        · have few := taken.cut.bodies_length_le incomplete within taken'.cut
          rw [delivered, List.length_append] at few
          exact List.length_eq_zero_iff.mp (by omega)
      rw [none] at whole
      simp only [List.map_nil, List.sum_nil, Nat.zero_add] at whole
      have held : 0 < s.input.length := List.length_pos_of_ne_nil fresh
      rw [if_neg nonzero, ← whole, ← first, began]
      refine ⟨nonzero, ?_⟩
      rw [show (octets history).length + bytes.length - (s.input.length + bytes.length) =
        (octets history).length - s.input.length by omega]
      exact arrivedAt_of_lt (by omega)

/-- In every run of `Read` over a stream whose frames are so packed into the reads that each
read begins with a frame, ends with one or completes none, `Pump` gives up exactly when the
frame that is not complete began five seconds ago or earlier. -/
theorem frame_timeout_measures_one_frame {left : List (List UInt8 × Int)}
    (run : Relation.ReflTransGen (ReadStep accepts) (Inbound.fresh, history ++ left) (s, left))
    (sound : s.failed = none) (positive : ∀ item ∈ history, 0 < item.2)
    (packed : Packed (history.map Prod.fst)) :
    frameFormat.Cut (octets history) s.delivered s.input ∧ frameFormat.Incomplete s.input ∧
    ∀ now, s.expired now = true ↔
      s.input ≠ [] ∧ ∃ first, began history s = some first ∧ first + kFrameTimeout ≤ now := by
  obtain ⟨handled, same, reading⟩ := Reading.of_run run sound
  obtain rfl := List.append_cancel_right same
  obtain ⟨taken, waits⟩ := reading.healthy sound
  obtain ⟨unset, set⟩ := reading.since sound positive packed
  refine ⟨taken.cut, (Frames.Format.front_eq_wait.mp waits).2, fun now => ?_⟩
  rw [Inbound.expired, Bool.and_eq_true, decide_eq_true_iff, decide_eq_true_iff]
  by_cases empty : s.input = []
  · simp [empty, unset empty]
  · obtain ⟨nonzero, first⟩ := set empty
    simp [empty, nonzero, first]

namespace Sample

/-- An event, in a frame of 38 octets. -/
def event : List UInt8 := Wire.encode (Message.of [("v", "1"), ("id", "0"), ("method", "event")])

/-- `Decode`, and `Receive`, which takes every event. -/
def takes (frames : List (List UInt8)) : Bool :=
  frames.all fun body => (Wire.decode (.of body fun _ => 0)).any fun message =>
    message.get "method" == "event"

/-- Five octets of an event, and the rest of it with the head of the next one. -/
def reads : List (List UInt8 × Int) :=
  [(event.take 5, 1000000), (event.drop 5 ++ event.take 4, 4000000)]

/-- The connection after some of the reads. -/
def after (count : Nat) : Inbound :=
  (reads.take count).foldl (fun s item => s.add takes item.1 item.2) .fresh

theorem first_read : ReadStep takes (.fresh, reads) (after 1, reads.drop 1) := by
  have step := @ReadStep.readable takes .fresh (reads.take 1) (reads.drop 1) rfl
  have taken : read takes 0 .fresh (reads.take 1) = (after 1, []) := by decide +kernel
  rw [taken] at step
  exact step

theorem second_read : ReadStep takes (after 1, reads.drop 1) (after 2, []) := by
  have step := @ReadStep.readable takes (after 1) (reads.drop 1) [] (by decide +kernel)
  have taken : read takes 0 (after 1) (reads.drop 1) = (after 2, []) := by decide +kernel
  rw [taken] at step
  exact step

end Sample

/-- After the first read of the sample the frame may take until six seconds. -/
theorem frame_timeout_in_sample :
    (Sample.after 1).expired 5999999 = false ∧
      ((Sample.after 1).expired 6000000 = true ↔ (Sample.after 1).input ≠ [] ∧
        ∃ first, began (Sample.reads.take 1) (Sample.after 1) = some first ∧
          first + kFrameTimeout ≤ 6000000) := by
  refine ⟨by decide +kernel, ?_⟩
  have packed : Packed ((Sample.reads.take 1).map Prod.fst) := by
    rintro (_ | ⟨_, _ | ⟨_, earlier⟩⟩) bytes later same
    · exact .inl ⟨[], .nil []⟩
    · cases same
    · cases same
  exact (frame_timeout_measures_one_frame (.single Sample.first_read)
    (by decide +kernel) (by decide) packed).2.2 6000000

/-- The second read of the sample completes a frame and begins the next one, which is given
up two seconds later. -/
theorem next_frame_given_up_early : ∃ (history : List (List UInt8 × Int)) (s : Inbound) (now : Int),
    Relation.ReflTransGen (ReadStep Sample.takes) (Inbound.fresh, history) (s, []) ∧
      s.failed = none ∧ (∀ item ∈ history, 0 < item.2) ∧ s.delivered = [Sample.event.drop 4] ∧
      s.expired now = true ∧ began history s = some 4000000 ∧ now = 6000000 ∧
      ¬ (4000000 + kFrameTimeout ≤ now) := by
  refine ⟨Sample.reads, Sample.after 2, 6000000, ?_, ?_⟩
  · exact .tail (.single Sample.first_read) Sample.second_read
  · decide +kernel

end Client

end Consent
