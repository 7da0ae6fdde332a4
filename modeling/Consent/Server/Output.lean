import Consent.Server.Publication

/-!
The output side of a connection (`Server::Queue`, `Server::Write`, `Server::Close`).

Frames wait in a queue and are sent in pieces. The generation of a tagged frame is
compared with the current one before every send; the comparison and the send that follows
it are one step, and the profile state may be fenced by another thread between any two of
them. What reached the socket is kept beside the connection.
-/
namespace Consent.Server
open Profile Repository

def kMaxOutput : Nat := 262144

/-- Subtraction of `size_t`. Additions cannot wrap around: no vector is as large. -/
def subSize (a b : Nat) : Nat := (a + 2 ^ 64 - b) % 2 ^ 64

structure OutputFrame where
  bytes : List UInt8
  generation : String
  deriving DecidableEq, Repr

structure Connection where
  output : List OutputFrame
  outputBytes : Nat
  offset : Nat
  closed : Bool
  deriving DecidableEq, Repr

def Connection.fresh : Connection := ⟨[], 0, 0, false⟩

def Connection.close (connection : Connection) : Connection :=
  if connection.closed then connection else { connection with closed := true, output := [] }

/-- What the socket does when it is asked to send: it takes as many octets as it can, up to
`n`, or the call fails. -/
inductive SendResult where
  | sent (n : Nat)
  | wouldBlock
  | failed
  deriving DecidableEq, Repr

/-- What is left of the first frame. -/
def Connection.left (connection : Connection) (frame : OutputFrame) : Nat :=
  frame.bytes.length - connection.offset

/-- The frame may be sent in this generation. -/
def OutputFrame.current (frame : OutputFrame) (generation : Nat) : Prop :=
  frame.generation = "" ∨ frame.generation = toString generation

instance (frame : OutputFrame) (generation : Nat) : Decidable (frame.current generation) :=
  inferInstanceAs (Decidable (_ ∨ _))

/-- The connection after `n` octets of its first frame were sent. -/
def Connection.advance (connection : Connection) (frame : OutputFrame) (rest : List OutputFrame)
    (n : Nat) : Connection :=
  let offset := connection.offset + n
  let advanced := { connection with
    offset, outputBytes := subSize connection.outputBytes n }
  if offset = frame.bytes.length then { advanced with output := rest, offset := 0 } else advanced

/-- One turn of the loop of `Write`, and whether the loop goes on. -/
def Connection.writeTurn (connection : Connection) (generation : Nat) (result : SendResult) :
    Connection × Bool :=
  match connection.output with
  | [] => (connection, false)
  | frame :: rest =>
    if ¬ frame.current generation then (connection.close, false)
    else
      match result with
      | .wouldBlock => (connection, false)
      | .failed => (connection.close, false)
      | .sent n =>
        -- `g_socket_send` returns at most the size that it was given.
        if min n (connection.left frame) = 0 then (connection.close, false)
        else (connection.advance frame rest (min n (connection.left frame)), true)

/-- `Queue` up to its call of `Write`; `bytes` is the encoded message. -/
def Connection.accept (connection : Connection) (frame : OutputFrame) : Connection :=
  if connection.closed then connection
  else if frame.bytes = [] then connection.close
  else if kMaxOutput < connection.outputBytes + frame.bytes.length then connection.close
  else { connection with
    outputBytes := connection.outputBytes + frame.bytes.length
    output := connection.output ++ [frame] }

/-! ### Interleavings -/

/-- Octets of a frame that were sent by one call, and the generation at that moment. -/
structure Sent where
  frame : OutputFrame
  bytes : List UInt8
  generation : Nat
  deriving DecidableEq, Repr

/-- A connection, the profile state, the frames that were queued and what was sent. -/
structure Channel (σ : Type) where
  connection : Connection
  main : σ
  accepted : List OutputFrame
  sent : List Sent

variable {σ ε : Type} [Host σ ε]

namespace Channel

def generation (c : Channel σ) : Nat := (Host.profiles (ε := ε) c.main).generation

def start (main : σ) : Channel σ := ⟨.fresh, main, [], []⟩

/-- Another thread moves the profile state. -/
def host (c : Channel σ) (event : ε) : Channel σ := { c with main := Host.step event c.main }

/-- A message is put into the queue, unless the connection is closed or gets closed. -/
def queue (c : Channel σ) (frame : OutputFrame) : Channel σ :=
  { c with
    connection := c.connection.accept frame
    accepted := if (c.connection.accept frame).closed then c.accepted else c.accepted ++ [frame] }

/-- The next `n` octets of the first frame. -/
def part (c : Channel σ) (frame : OutputFrame) (n : Nat) : Sent :=
  ⟨frame, (frame.bytes.drop c.connection.offset).take n, c.generation (ε := ε)⟩

/-- The octets that a turn hands to the socket. -/
def handed (c : Channel σ) (result : SendResult) : List Sent :=
  match c.connection.output, result with
  | frame :: _, .sent n =>
    if frame.current (c.generation (ε := ε)) ∧ min n (c.connection.left frame) ≠ 0 then
      [c.part (ε := ε) frame (min n (c.connection.left frame))]
    else []
  | _, _ => []

/-- The generation is compared and the socket is asked to send. -/
def turn (c : Channel σ) (result : SendResult) : Channel σ :=
  { c with
    connection := (c.connection.writeTurn (c.generation (ε := ε)) result).1
    sent := c.sent ++ c.handed (ε := ε) result }

def shut (c : Channel σ) : Channel σ := { c with connection := c.connection.close }

end Channel

/-- The tagged reply of a request is compared with the generation before it is queued,
which may have moved on since. -/
def replyFrame (encode : Reply → List UInt8) (checked : Nat) (reply : Reply) : OutputFrame :=
  ⟨encode (published checked reply), (published checked reply).fields.get "profile_generation"⟩

/-- The steps of the I/O thread and of the thread that owns the profile state. -/
inductive OutputStep (encode : Reply → List UInt8) : Channel σ → Channel σ → Prop where
  | host (c : Channel σ) (event : ε) : OutputStep encode c (c.host event)
  | reply (c : Channel σ) (reply : Reply) (checked : Nat)
      (earlier : checked ≤ c.generation (ε := ε)) :
      OutputStep encode c (c.queue (replyFrame encode checked reply))
  | notice (c : Channel σ) (bytes : List UInt8) : OutputStep encode c (c.queue ⟨bytes, ""⟩)
  | turn (c : Channel σ) (result : SendResult) (opened : c.connection.closed = false) :
      OutputStep encode c (c.turn (ε := ε) result)
  | close (c : Channel σ) : OutputStep encode c c.shut

/-- The channels of all interleavings. -/
def Carried (encode : Reply → List UInt8) (c : Channel σ) : Prop :=
  ∃ main : σ, Relation.ReflTransGen (OutputStep encode) (.start main) c

end Consent.Server
