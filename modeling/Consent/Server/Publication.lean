import Consent.Repository.Execute

/-!
What the server does with a request (`Server::Execute`): one job of the database
executor evaluates it and takes a snapshot, and the reply is published on the I/O
thread, with the profile generation of that moment.
-/
namespace Consent.Server
open Profile Repository

variable {σ ε : Type} [Host σ ε]

/-- The name under which the repository knows a method of the client library. -/
def repositoryMethod (method : String) : String :=
  if method = "prompt" then "get_prompt"
  else if method = "session_state" then "session_get_state"
  else if method = "data_derived" then "data_register_derived"
  else if method = "cleanup" then "cleanup_get_state"
  else method

def renamed (request : Message) : Message :=
  if repositoryMethod (request.get "method") = request.get "method" then request
  else request.insert "method" (repositoryMethod (request.get "method"))

/-- `Error`: the fields of its envelope are those of every reply. -/
def error (status : Status) : Reply := ⟨some status, ∅⟩

/-- The reply of the repository; `install` is what `GetInstallationIdentity` found for a
registration. -/
def evaluate (peer : Peer) (request : Message) (install : Option String) : Process σ ε Reply :=
  let method := request.get "method"
  let request := renamed request
  if method = "register" ∨ method = "update" then
    match install with
    | none => pure (error .eacces)
    | some identity =>
      if identity ≠ request.get "expected_generation" then pure (error .eacces)
      else execute peer (request.insert "_install_identity" identity)
  else execute peer request

/-- The reply that is queued when the profile generation is `generation`. -/
def published (generation : Nat) (reply : Reply) : Reply :=
  if reply.fields.get "profile_generation" ≠ "" ∧
      reply.fields.get "profile_generation" ≠ toString generation then error .estale
  else reply

/-! ### What a published reply went through -/

end Consent.Server
