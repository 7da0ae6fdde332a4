import Consent.Library.Passage
import Consent.Offline

/-!
The writer of the spool (`RegistrationWriter::Register` of `common/offline_registration.cc`).

A call passes through spools, one for each change of the directory or of a file in it; it can
fail or be cut short in any of them. Opening and protecting the directory and the files, and
synchronizing them, changes nothing that is modelled and is a place where a call can fail.
-/
namespace Consent.Offline

/-- The files of the spool with their octets, in the order of `readdir`. -/
abbrev Spool : Type := List (String × List UInt8)

/-- Why a call returns something else than 0. -/
inductive Rejection where
  | failure (error : Failure)
  | changed
  deriving DecidableEq, Repr

def liftFailure {α : Type} : Except Failure α → Except Rejection α
  | .ok a => .ok a
  | .error e => .error (.failure e)

def fileOf (file : String × List UInt8) : File := ⟨file.1, none, file.2⟩

/-- One turn of `Scan` with `remove_temporary`: what a daemon would find, the records with their
octets, and the removal of what an interrupted call left. -/
def retireEntry (codec : Codec) (s : Scan × Spool) (file : String × List UInt8) :
    Passage Spool Rejection (Scan × Spool) := do
  let scan ← liftFailure (scanEntry codec s.1 (fileOf file))
  if pendingRegistrationName file.1 then
    Passage.enter fun files => files.filter fun other => other.1 ≠ file.1
    pure (scan, s.2)
  else if registrationName file.1 then pure (scan, s.2 ++ [file])
  else pure (scan, s.2)

/-- The records, once the temporary files are gone. -/
def retire (codec : Codec) : Passage Spool Rejection Spool := do
  let files ← Passage.state
  let s ← files.foldlM (retireEntry codec) (⟨0, 0, []⟩, [])
  pure s.2

/-- Octets are appended one by one, as a write may stop behind each of them. -/
def writeFile (name : String) : List UInt8 → Passage Spool Rejection Unit
  | [] => pure ()
  | octet :: rest => do
    Passage.enter fun files => files.map fun file =>
      if file.1 = name then (file.1, file.2 ++ [octet]) else file
    writeFile name rest

/-- The new name replaces a file that has it. -/
def renameFile (old new : String) (files : Spool) : Spool :=
  match files.find? fun file => file.1 = old with
  | some file => (files.filter fun other => other.1 ≠ old ∧ other.1 ≠ new) ++ [(new, file.2)]
  | none => files

def temporaryName (uuid : String) : String := ".pending-" ++ uuid

def register (codec : Codec) (registration : Message) (uuid : String) :
    Passage Spool Rejection Unit := do
  let value ← liftFailure (publicRegistration registration)
  let name := recordName codec value
  let payload ← liftFailure (recordPayload codec value)
  let records ← retire codec
  match records.find? fun record => record.1 = name with
  | some record => Passage.require (record.2 = payload) .changed
  | none =>
    Passage.require (records.length < kMaxRegistrations ∧
        (records.map fun record => record.2.length).sum + payload.length ≤ kMaxRegistrationBytes)
      (.failure ⟨.enospc, "offline registration spool is full"⟩)
    Passage.enter fun files => files ++ [(temporaryName uuid, [])]
    writeFile (temporaryName uuid) payload
    Passage.enter (renameFile (temporaryName uuid) name)

/-- What a call can do: it runs to its end, it is cut short, or something fails on the way and
the temporary file is removed. `registered` is whether it returns 0. -/
inductive Call (codec : Codec) (registration : Message) (uuid : String) (files : Spool) :
    Spool → (registered : Bool) → Prop
  | finished (result : (register codec registration uuid files).2 = .ok ()) :
      Call codec registration uuid files ((register codec registration uuid).final files) true
  | cut {left : Spool} (member : left ∈ (register codec registration uuid).cuts files) :
      Call codec registration uuid files left false
  | failed {left : Spool} (member : left ∈ (register codec registration uuid).cuts files) :
      Call codec registration uuid files
        (left.filter fun file => file.1 ≠ temporaryName uuid) false

/-- Calls in a row on a spool that was empty, with what was registered. Between two calls the
directory may come to list its files in another order. -/
inductive Calls (codec : Codec) : List Message → Spool → Prop
  | start : Calls codec [] []
  | call {done : List Message} {files listed files' : Spool} {registered : Bool}
      (earlier : Calls codec done files) (order : listed.Perm files) (registration : Message)
      (uuid : String) (random : pendingRegistrationName (temporaryName uuid) = true)
      (called : Call codec registration uuid listed files' registered) :
      Calls codec (if registered then registration :: done else done) files'

end Consent.Offline
