import Consent.Message

/-!
The cleanup sweep of a data holder, `common/cleanup_sweep.cc`.

What the callbacks answer may depend on everything that happened before. A trace records
their calls in order; an invocation extends it.
-/
namespace Consent.Sweep

/-- A call of one of the callbacks, with the status that it returned. -/
inductive Event where
  | fetched (input : Message) (status : Int)
  | cleaned (artifact : String) (status : Int)

structure Backend where
  fetch : List Event → Message → Int × Message
  cleanup : List Event → String → Int

structure Progress where
  scope : Message := ∅
  cursor : String := ""
  failure : Int := 0
  finished : Bool := true

def einval : Int := -22
def eproto : Int := -71
def einprogress : Int := -115

/-- The number of entries of a page, whether there are more and the next cursor, if these
fields fit together. -/
def pageHeader (result : Message) : Option (Nat × Bool × String) := do
  let count ← parseNumber (result.get "count")
  guard (¬ (count < 0 ∨ 48 < count))
  let more := result.get "more"
  let cursor := result.get "next_cursor"
  guard (¬ ((more ≠ "0" ∧ more ≠ "1") ∨ (more = "1" ∧ (count = 0 ∨ cursor = "")) ∨
    (more = "0" ∧ cursor ≠ "")))
  pure (count.toNat, more == "1", cursor)

def entryKey (index : Nat) : String := "a" ++ toString index ++ ".artifact"

variable (b : Backend)

/-- The entries of a page: whether all of them were there, the first failure and the trace. -/
def cleanEntries (result : Message) : List Nat → Int → List Event → Bool × Int × List Event
  | [], failure, trace => (true, failure, trace)
  | index :: rest, failure, trace =>
    let artifact := result.get (entryKey index)
    if artifact = "" then (false, failure, trace)
    else
      let status := b.cleanup trace artifact
      cleanEntries result rest (if status ≠ 0 ∧ failure = 0 then status else failure)
        (trace ++ [.cleaned artifact status])

/-- The loop over the pages, with the cursors that were seen in this invocation. -/
def sweepPages : Nat → Message → List String → Progress → List Event → Int × Progress × List Event
  | 0, _, _, progress, trace => (einprogress, progress, trace)
  | pages + 1, input, positions, progress, trace =>
    let answer := b.fetch trace input
    let trace := trace ++ [.fetched input answer.1]
    if answer.1 ≠ 0 then (answer.1, progress, trace)
    else
      match pageHeader answer.2 with
      | none => (eproto, progress, trace)
      | some (count, more, cursor) =>
        let (complete, failure, trace) :=
          cleanEntries b answer.2 (List.range count) progress.failure trace
        let progress := { progress with failure }
        if complete = false then (eproto, progress, trace)
        else if more = false then (failure, { progress with cursor := "", finished := true }, trace)
        else if cursor ∈ positions then (eproto, progress, trace)
        else sweepPages pages (input.insert "cursor" cursor) (cursor :: positions)
          { progress with cursor } trace

/-- A finished progress begins a new sweep of the scope, another one goes on. -/
def begun (scope : Message) (progress : Progress) : Progress :=
  if progress.finished then ⟨scope, "", 0, false⟩ else progress

def cleanupSweep (input : Message) (progress : Progress) (trace : List Event) :
    Int × Progress × List Event :=
  let scope := input.erase "cursor"
  let progress := begun scope progress
  if progress.scope ≠ scope then (einval, progress, trace)
  else sweepPages b 128 (scope.insert "cursor" progress.cursor) [progress.cursor] progress trace

end Consent.Sweep
