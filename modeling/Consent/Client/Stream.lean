import Consent.Protocol.Framing

/-!
How the client library takes frames off its connection (`Client::State::Read`) and when
`Pump` gives up on a frame that does not become complete.

`accepts` tells whether `Decode` and `Receive` took a frame, given the frames before it.
-/
namespace Consent.Client

/-- The size of the buffer of one read. -/
def kReadSize : Nat := 8192

/-- How long a frame may stay incomplete, in microseconds. -/
def kFrameTimeout : Int := 5000000

/-- Why `Read` returned false. -/
inductive ReadError where
  | disconnected
  | protocol
  deriving DecidableEq, Repr

/-- The receiving half of the transport. `delivered` are the bodies that were handed to
`Decode`, the first one first; a time of 0 is none. -/
structure Inbound where
  input : List UInt8
  partialSince : Int
  failed : Option ReadError
  delivered : List (List UInt8)
  deriving DecidableEq, Repr

def Inbound.fresh : Inbound := ⟨[], 0, none, []⟩

variable (accepts : List (List UInt8) → Bool)

/-- The inner loop of `Read`. A turn that takes a frame shortens the input. -/
def takeFrames : Nat → Inbound → Inbound
  | 0, s => s
  | fuel + 1, s =>
    if 4 ≤ s.input.length then
      let size := frameSize s.input
      if size = 0 ∨ kMaxFrameSize < size then { s with failed := some .protocol }
      else if s.input.length < size + 4 then s
      else
        let delivered := s.delivered ++ [(s.input.drop 4).take size]
        if accepts delivered then
          takeFrames fuel { s with delivered, input := s.input.drop (4 + size) }
        else { s with delivered, failed := some .protocol }
    else s

/-- The time since which the buffer holds the beginning of a frame. -/
def Inbound.dated (s : Inbound) (now : Int) : Inbound :=
  if s.failed.isSome then s
  else if s.input = [] then { s with partialSince := 0 }
  else if s.partialSince = 0 then { s with partialSince := now }
  else s

/-- What follows one read of the socket, at the time `now`. -/
def Inbound.add (s : Inbound) (bytes : List UInt8) (now : Int) : Inbound :=
  let input := s.input ++ bytes
  (takeFrames accepts input.length { s with input }).dated now

/-- `Read`. `reads` is what the reads of the socket return, each with its time; when nothing
is left they would block, and an empty result is the end of the stream. The loop yields
after 64 KiB. The second component is what was not read. -/
def read (received : Nat) (s : Inbound) :
    List (List UInt8 × Int) → Inbound × List (List UInt8 × Int)
  | [] => (s, [])
  | (bytes, now) :: rest =>
    if bytes = [] then ({ s with failed := some .disconnected }, rest)
    else
      let s := s.add accepts bytes now
      if s.failed.isSome then (s, rest)
      else if kMaxFrameSize ≤ received + bytes.length then (s, rest)
      else read (received + bytes.length) s rest

/-- `Pump` fails the connection with `PROTOCOL` for a frame that is not complete. -/
def Inbound.expired (s : Inbound) (now : Int) : Bool :=
  decide (s.partialSince ≠ 0) && decide (s.partialSince + kFrameTimeout ≤ now)

/-- A connection and the reads that are still to come; some of them are available when the
socket becomes readable. A connection that failed is not read again. -/
inductive ReadStep :
    Inbound × List (List UInt8 × Int) → Inbound × List (List UInt8 × Int) → Prop where
  | readable (s : Inbound) (available later : List (List UInt8 × Int)) (healthy : s.failed = none) :
      ReadStep (s, available ++ later) ((read accepts 0 s available).1,
        (read accepts 0 s available).2 ++ later)

/-! ### One read -/

variable {accepts}

theorem Inbound.dated_eq (s : Inbound) (now : Int) :
    s.dated now = { s with partialSince := (s.dated now).partialSince } := by
  unfold Inbound.dated
  split
  · rfl
  · split
    · rfl
    · split <;> rfl

@[simp] theorem Inbound.dated_failed (s : Inbound) (now : Int) : (s.dated now).failed = s.failed := by
  rw [s.dated_eq now]

@[simp] theorem Inbound.dated_input (s : Inbound) (now : Int) : (s.dated now).input = s.input := by
  rw [s.dated_eq now]

@[simp] theorem Inbound.dated_delivered (s : Inbound) (now : Int) :
    (s.dated now).delivered = s.delivered := by
  rw [s.dated_eq now]

theorem Inbound.dated_since {s : Inbound} (healthy : s.failed = none) (now : Int) :
    (s.dated now).partialSince =
      if s.input = [] then 0 else if s.partialSince = 0 then now else s.partialSince := by
  unfold Inbound.dated
  rw [healthy]
  split
  · rename_i fails
    cases fails
  · split
    · rfl
    · split <;> rfl

theorem takeFrames_succ (fuel : Nat) (s : Inbound) : takeFrames accepts (fuel + 1) s =
    match frameFormat.front s.input with
    | .wait => s
    | .refuse => { s with failed := some .protocol }
    | .frame body rest =>
      if accepts (s.delivered ++ [body]) then
        takeFrames accepts fuel { s with delivered := s.delivered ++ [body], input := rest }
      else { s with delivered := s.delivered ++ [body], failed := some .protocol } := by
  rw [front_frameFormat]
  dsimp only [takeFrames]
  by_cases short : s.input.length < 4
  · rw [if_neg (Nat.not_le.mpr short), if_pos short]
  · rw [if_pos (Nat.not_lt.mp short), if_neg short]
    by_cases refused : frameSize s.input = 0 ∨ kMaxFrameSize < frameSize s.input
    · rw [if_pos refused, if_pos refused]
    · rw [if_neg refused, if_neg refused]
      by_cases missing : s.input.length < frameSize s.input + 4
      · rw [if_pos missing, if_pos missing]
      · rw [if_neg missing, if_neg missing]

/-- The inner loop takes frames until none is left, one is refused or one is not accepted. -/
theorem takeFrames_spec {fuel : Nat} {s : Inbound} {stream : List UInt8}
    (enough : s.input.length ≤ fuel) (healthy : s.failed = none)
    (taken : Taken accepts stream s.delivered s.input) :
    (takeFrames accepts fuel s).partialSince = s.partialSince ∧
    ((takeFrames accepts fuel s).failed = none ∧
        Taken accepts stream (takeFrames accepts fuel s).delivered (takeFrames accepts fuel s).input ∧
        frameFormat.front (takeFrames accepts fuel s).input = .wait ∨
      (takeFrames accepts fuel s).failed = some .protocol ∧ ∃ ending rest, ending ≠ .waiting ∧
        Delivers accepts stream (takeFrames accepts fuel s).delivered ending rest) := by
  induction fuel generalizing s with
  | zero =>
    have empty : s.input = [] := List.length_eq_zero_iff.mp (Nat.le_zero.mp enough)
    refine ⟨rfl, Or.inl ⟨healthy, taken, ?_⟩⟩
    rw [takeFrames, empty]
    rfl
  | succ fuel ih =>
    rw [takeFrames_succ]
    rcases found : frameFormat.front s.input with _ | _ | ⟨body, rest⟩
    · exact ⟨rfl, Or.inl ⟨healthy, taken, found⟩⟩
    · exact ⟨rfl, Or.inr ⟨rfl, .refused, _, by decide,
        taken.refuse (Frames.Format.front_eq_refuse.mp found)⟩⟩
    · dsimp only
      by_cases accepted : accepts (s.delivered ++ [body]) = true
      · rw [if_pos accepted]
        refine @ih { s with delivered := s.delivered ++ [body], input := rest } ?_ healthy
          (taken.take found accepted)
        have shorter := Frames.Format.length_lt_of_frame found
        dsimp only
        omega
      · rw [if_neg accepted]
        exact ⟨rfl, Or.inr ⟨rfl, .rejected, rest, by decide,
          taken.reject found (by simpa using accepted)⟩⟩

end Consent.Client
