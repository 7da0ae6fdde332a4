import Consent.Protocol.Framing

/-!
How the server takes frames off a connection (`Server::Receive`, `Server::Parse`): at most
one frame is being parsed; until its job is done nothing is read.

`accepts` tells whether a connection is still open after the frames that it has sent so far,
the last one included: the parser accepted it and its execution did not close the
connection. Timeouts, overload and shutdown, which close a connection whatever it sent, are
left out.
-/
namespace Consent.Server

def kMaxFrame : Nat := 65536

/-- The size of the buffer of one read. -/
def kReadSize : Nat := 8192

inductive CloseReason where
  | frameSize
  | readEnd
  | inputLimit
  | invalidFrame
  deriving DecidableEq, Repr

/-- `parsed` are the payloads that were handed to `Parse`, the first one first. -/
structure Inbound where
  input : List UInt8
  parsing : Bool
  closed : Option CloseReason
  parsed : List (List UInt8)
  deriving DecidableEq, Repr

def Inbound.fresh : Inbound := ⟨[], false, none, []⟩

def Inbound.close (c : Inbound) (reason : CloseReason) : Inbound :=
  { c with closed := some reason, input := [] }

/-- The first half of a turn of the loop, if the loop ends with it. -/
def takeFrame (c : Inbound) : Option Inbound :=
  if 4 ≤ c.input.length then
    let size := frameSize c.input
    if size = 0 ∨ kMaxFrame < size then some (c.close .frameSize)
    else if size + 4 ≤ c.input.length then
      some { c with
        input := c.input.drop (4 + size), parsing := true
        parsed := c.parsed ++ [(c.input.drop 4).take size] }
    else none
  else none

/-- The loop of `Receive`. `reads` is what the calls of `g_socket_receive` return; when
nothing is left they would block, and an empty result is the end of the stream or an error.
The second component is what was not read. -/
def receiveLoop (c : Inbound) : List (List UInt8) → Inbound × List (List UInt8)
  | [] => ((takeFrame c).getD c, [])
  | bytes :: rest =>
    match takeFrame c with
    | some ended => (ended, bytes :: rest)
    | none =>
      if bytes = [] then (c.close .readEnd, rest)
      else
        let read := { c with input := c.input ++ bytes }
        if kMaxFrame + kReadSize + 4 < read.input.length then (read.close .inputLimit, rest)
        else receiveLoop read rest

def receive (c : Inbound) (reads : List (List UInt8)) : Inbound × List (List UInt8) :=
  if c.closed.isSome || c.parsing then (c, reads) else receiveLoop c reads

/-- The job of the parser has come back. -/
def parsed (c : Inbound) (accepted : Bool) (reads : List (List UInt8)) :
    Inbound × List (List UInt8) :=
  let c := { c with parsing := false }
  if c.closed.isSome then (c, reads)
  else if accepted then receive c reads
  else (c.close .invalidFrame, reads)

/-- A connection and the reads that are still to come. Some of them are available when the
socket becomes readable or a job is done. -/
inductive ReceiveStep (accepts : List (List UInt8) → Bool) :
    Inbound × List (List UInt8) → Inbound × List (List UInt8) → Prop where
  | readable (c : Inbound) (available later : List (List UInt8)) :
      ReceiveStep accepts (c, available ++ later)
        ((receive c available).1, (receive c available).2 ++ later)
  | parsed (c : Inbound) (available later : List (List UInt8)) (parsing : c.parsing = true) :
      ReceiveStep accepts (c, available ++ later)
        ((Server.parsed c (accepts c.parsed) available).1,
          (Server.parsed c (accepts c.parsed) available).2 ++ later)

/-- Nothing happens any more unless more arrives. -/
def Settled (s : Inbound × List (List UInt8)) : Prop :=
  s.1.closed ≠ none ∨ s.2 = [] ∧ s.1.parsing = false ∧ takeFrame s.1 = none

/-! ### One turn -/

theorem takeFrame_eq (c : Inbound) : takeFrame c = match frameFormat.front c.input with
    | .wait => none
    | .refuse => some (c.close .frameSize)
    | .frame body rest => some { c with
        input := rest, parsing := true, parsed := c.parsed ++ [body] } := by
  rw [front_frameFormat]
  dsimp only [takeFrame]
  by_cases short : c.input.length < 4
  · rw [if_neg (Nat.not_le.mpr short), if_pos short]
  · rw [if_pos (Nat.not_lt.mp short), if_neg short]
    by_cases refused : frameSize c.input = 0 ∨ kMaxFrameSize < frameSize c.input
    · rw [if_pos refused]
      exact if_pos refused
    · rw [if_neg refused]
      refine (if_neg refused).trans ?_
      by_cases missing : c.input.length < frameSize c.input + 4
      · rw [if_neg (Nat.not_le.mpr missing), if_pos missing]
      · rw [if_pos (Nat.not_lt.mp missing), if_neg missing]

/-- The buffer never grows beyond the largest frame and one read. -/
theorem input_within_limit {c : Inbound} (waits : takeFrame c = none) {bytes : List UInt8}
    (read : bytes.length ≤ kReadSize) : (c.input ++ bytes).length ≤ kMaxFrame + kReadSize + 4 := by
  have front : frameFormat.front c.input = .wait := by
    rw [takeFrame_eq] at waits
    split at waits
    · assumption
    · cases waits
    · cases waits
  have small := Frames.Format.length_lt_of_wait front
  simp only [frameFormat, kMaxFrameSize] at small
  simp only [List.length_append, kMaxFrame]
  omega

end Consent.Server
