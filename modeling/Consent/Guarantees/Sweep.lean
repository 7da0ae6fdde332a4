import Consent.Client.Sweep

/-!
A cleanup sweep over whole sequences of invocations.

The state between two invocations is described by the number of pages that are done: the
trace has exactly the artifacts of these pages, the cursor is that of the next one and the
failure is the first one in the trace.
-/
namespace Consent.Sweep

def Event.cleanup? : Event → Option (String × Int)
  | .fetched _ _ => none
  | .cleaned artifact status => some (artifact, status)

/-- The calls of the cleanup callback with their results, in order. -/
def cleanups (trace : List Event) : List (String × Int) := trace.filterMap Event.cleanup?

/-- The first result that is not zero, or zero. -/
def firstFailure : List (String × Int) → Int
  | [] => 0
  | (_, status) :: rest => if status = 0 then firstFailure rest else status

@[simp]
theorem cleanups_fetched (trace : List Event) (input : Message) (status : Int) :
    cleanups (trace ++ [.fetched input status]) = cleanups trace := by
  simp [cleanups, Event.cleanup?]

@[simp]
theorem cleanups_cleaned (trace : List Event) (artifact : String) (status : Int) :
    cleanups (trace ++ [.cleaned artifact status]) = cleanups trace ++ [(artifact, status)] := by
  simp [cleanups, Event.cleanup?]

theorem firstFailure_snoc (calls : List (String × Int)) (artifact : String) (status : Int) :
    firstFailure (calls ++ [(artifact, status)]) =
      if status ≠ 0 ∧ firstFailure calls = 0 then status else firstFailure calls := by
  induction calls with
  | nil =>
    by_cases zero : status = 0
    · simp [firstFailure, zero]
    · simp [firstFailure, zero]
  | cons call rest ih =>
    obtain ⟨first, result⟩ := call
    by_cases zero : result = 0
    · simpa [firstFailure, zero] using ih
    · simp [firstFailure, zero]

/-- A page of the listing and the cursor under which it is asked for. -/
structure Page where
  cursor : String
  artifacts : List String

/-- The reply is that page, and names the cursor of the next one if there is one. -/
structure Answers (reply : Message) (page : Page) (next : Option Page) : Prop where
  header : pageHeader reply =
    some (page.artifacts.length, next.isSome, (next.map Page.cursor).getD "")
  entry : ∀ index artifact, page.artifacts[index]? = some artifact →
    reply.get (entryKey index) = artifact ∧ artifact ≠ ""

/-- The pages of a listing: the first one is asked for without a cursor and no cursor occurs
twice. -/
structure Listing where
  pages : List Page
  first : ∃ artifacts rest, pages = ⟨"", artifacts⟩ :: rest
  distinct : (pages.map Page.cursor).Nodup

/-- A fetch fails, or returns the page that it asks for, whatever happened before. -/
def Serves (b : Backend) (scope : Message) (listing : Listing) : Prop :=
  ∀ trace index page, listing.pages[index]? = some page →
    (b.fetch trace (scope.insert "cursor" page.cursor)).1 = 0 →
      Answers (b.fetch trace (scope.insert "cursor" page.cursor)).2 page listing.pages[index + 1]?

def artifacts (pages : List Page) : List String := pages.flatMap Page.artifacts

variable {b : Backend} {scope : Message} {listing : Listing}

/-- The entries of one page: each is attempted, whatever came of those before it. -/
theorem cleanEntries_all (result : Message) (failure : Int) (trace : List Event)
    (indices : List Nat) (names : List String)
    (entries : List.Forall₂ (fun index name => result.get (entryKey index) = name ∧ name ≠ "")
      indices names)
    (kept : failure = firstFailure (cleanups trace)) :
    ∃ after, cleanEntries b result indices failure trace =
        (true, firstFailure (cleanups after), after) ∧
      (cleanups after).map Prod.fst = (cleanups trace).map Prod.fst ++ names := by
  induction entries generalizing failure trace with
  | nil => exact ⟨trace, by simp [cleanEntries, kept], by simp⟩
  | @cons index name indices names entry _ ih =>
    obtain ⟨named, nonempty⟩ := entry
    have step := ih (if b.cleanup trace name ≠ 0 ∧ failure = 0 then b.cleanup trace name
      else failure) (trace ++ [.cleaned name (b.cleanup trace name)])
      (by rw [cleanups_cleaned, firstFailure_snoc, kept])
    obtain ⟨after, run, listed⟩ := step
    refine ⟨after, ?_, ?_⟩
    · simpa only [cleanEntries, named, nonempty, if_false] using run
    · rw [listed, cleanups_cleaned]
      simp

theorem Answers.entries {reply : Message} {page : Page} {next : Option Page}
    (answers : Answers reply page next) :
    List.Forall₂ (fun index name => reply.get (entryKey index) = name ∧ name ≠ "")
      (List.range page.artifacts.length) page.artifacts := by
  rw [List.forall₂_iff_get]
  refine ⟨by simp, ?_⟩
  intro index _ bound
  simpa using answers.entry index _ (List.getElem?_eq_getElem bound)

/-- The state between two invocations when some pages are done and there are more. -/
structure Stands (listing : Listing) (scope : Message) (done : Nat) (progress : Progress)
    (trace : List Event) : Prop where
  scope_eq : progress.scope = scope
  unfinished : progress.finished = false
  next : ∃ page, listing.pages[done]? = some page ∧ progress.cursor = page.cursor
  failure : progress.failure = firstFailure (cleanups trace)
  cleaned : (cleanups trace).map Prod.fst = artifacts (listing.pages.take done)

/-- What a loop of at most `bound` pages from the page `start` may come to: it stopped at a page
that is not done, after `bound` pages or because of the error of the last fetch, or everything
is done. -/
def Outcome (b : Backend) (listing : Listing) (scope : Message) (start bound : Nat) (status : Int)
    (progress : Progress) (trace : List Event) : Prop :=
  (∃ done, Stands listing scope done progress trace ∧
    ((status = einprogress ∧ done = start + bound) ∨
      ∃ before, trace = before ++ [.fetched (scope.insert "cursor" progress.cursor) status] ∧
        status ≠ 0 ∧ (b.fetch before (scope.insert "cursor" progress.cursor)).1 = status)) ∨
  (progress.finished = true ∧ (cleanups trace).map Prod.fst = artifacts listing.pages ∧
    status = firstFailure (cleanups trace))

theorem Listing.cursor_inj (listing : Listing) {i j : Nat} {left right : Page}
    (here : listing.pages[i]? = some left) (there : listing.pages[j]? = some right)
    (same : left.cursor = right.cursor) : i = j := by
  have first : (listing.pages.map Page.cursor)[i]? = some left.cursor := by simp [here]
  have second : (listing.pages.map Page.cursor)[j]? = some left.cursor := by simp [there, same]
  obtain ⟨bound, _⟩ := List.getElem?_eq_some_iff.mp first
  exact (List.getElem?_inj bound listing.distinct).mp (first.trans second.symm)

theorem artifacts_take_succ {pages : List Page} {done : Nat} {page : Page}
    (here : pages[done]? = some page) :
    artifacts (pages.take (done + 1)) = artifacts (pages.take done) ++ page.artifacts := by
  simp [artifacts, List.take_add_one, here]

theorem insert_cursor (message : Message) (first second : String) :
    (message.insert "cursor" first).insert "cursor" second = message.insert "cursor" second := by
  apply Std.ExtTreeMap.ext_getElem?
  intro key
  by_cases same : "cursor" = key
  · subst same
    simp
  · simp [Std.ExtTreeMap.getElem?_insert, same]

/-- The loop over the pages. Every cursor that was seen belongs to a page that is not after the
next one, so that the cursor of the page after it is new. -/
theorem sweepPages_outcome (serves : Serves b scope listing) (pages : Nat) :
    ∀ (done : Nat) (positions : List String) (progress : Progress) (trace : List Event),
      Stands listing scope done progress trace →
      (∀ cursor ∈ positions, ∃ i ≤ done, ∃ page, listing.pages[i]? = some page ∧
        page.cursor = cursor) →
      ∀ status progress' trace',
        sweepPages b pages (scope.insert "cursor" progress.cursor) positions progress trace =
          (status, progress', trace') →
        Outcome b listing scope done pages status progress' trace' := by
  induction pages with
  | zero =>
    intro done positions progress trace stands _ status progress' trace' run
    simp only [sweepPages, Prod.mk.injEq] at run
    obtain ⟨rfl, rfl, rfl⟩ := run
    exact .inl ⟨done, stands, .inl ⟨rfl, rfl⟩⟩
  | succ pages ih =>
    intro done positions progress trace stands seen status progress' trace' run
    obtain ⟨page, here, cursor⟩ := stands.next
    rw [sweepPages] at run
    by_cases ok : (b.fetch trace (scope.insert "cursor" progress.cursor)).1 = 0
    · have answers : Answers (b.fetch trace (scope.insert "cursor" progress.cursor)).2 page
          listing.pages[done + 1]? := by
        rw [cursor] at ok ⊢
        exact serves trace done page here ok
      obtain ⟨after, cleaned, listed⟩ := cleanEntries_all (b := b) _ progress.failure
        (trace ++ [.fetched (scope.insert "cursor" progress.cursor) 0]) _ _ answers.entries
        (by rw [cleanups_fetched]; exact stands.failure)
      rw [cleanups_fetched, stands.cleaned, ← artifacts_take_succ here] at listed
      simp only [ok, ne_eq, not_true_eq_false, if_false, answers.header, cleaned,
        Bool.true_eq_false] at run
      cases following : listing.pages[done + 1]? with
      | none =>
        simp only [following, Option.isSome_none, if_true, Prod.mk.injEq] at run
        obtain ⟨rfl, rfl, rfl⟩ := run
        have whole : listing.pages.take (done + 1) = listing.pages :=
          List.take_of_length_le (List.getElem?_eq_none_iff.mp following)
        exact .inr ⟨rfl, by rw [listed, whole], rfl⟩
      | some next =>
        have fresh : next.cursor ∉ positions := by
          intro old
          obtain ⟨i, bound, other, there, same⟩ := seen _ old
          have := listing.cursor_inj there following same
          omega
        simp only [following, Option.isSome_some, Bool.true_eq_false, if_false, Option.map_some,
          Option.getD_some, fresh, insert_cursor] at run
        have shift : done + (pages + 1) = done + 1 + pages := by omega
        rw [Outcome, shift]
        refine ih (done + 1) (next.cursor :: positions)
          ⟨progress.scope, next.cursor, firstFailure (cleanups after), progress.finished⟩
          after ?_ ?_ _ _ _ run
        · exact ⟨stands.scope_eq, stands.unfinished, ⟨next, following, rfl⟩, rfl, listed⟩
        · intro cursor member
          rcases List.mem_cons.mp member with rfl | old
          · exact ⟨done + 1, le_refl _, next, following, rfl⟩
          · obtain ⟨i, bound, other⟩ := seen cursor old
            exact ⟨i, by omega, other⟩
    · simp only [ne_eq, ok, not_false_eq_true, if_true, Prod.mk.injEq] at run
      obtain ⟨rfl, rfl, rfl⟩ := run
      refine .inl ⟨done, ?_, .inr ⟨trace, rfl, ok, rfl⟩⟩
      exact ⟨stands.scope_eq, stands.unfinished, stands.next,
        by rw [cleanups_fetched]; exact stands.failure,
        by rw [cleanups_fetched]; exact stands.cleaned⟩

/-- The invocations of one sweep and what they returned, the last one first. All have the same
scope; the first one finds a finished progress and another one follows only an unfinished one. -/
inductive Invoked (b : Backend) (scope : Message) : List Int → Progress → List Event → Prop where
  | idle (progress : Progress) (finished : progress.finished = true) :
    Invoked b scope [] progress []
  | call (input : Message) {returned : List Int} {progress : Progress} {before : List Event}
      (invoked : Invoked b scope returned progress before)
      (going : returned = [] ∨ progress.finished = false)
      (same : input.erase "cursor" = scope) {status : Int} {after : Progress} {trace : List Event}
      (run : cleanupSweep b input progress before = (status, after, trace)) :
    Invoked b scope (status :: returned) after trace

/-- The pages that are done when an invocation begins. -/
def Begins (listing : Listing) (scope : Message) (start : Nat) (progress : Progress)
    (trace : List Event) : Prop :=
  (start = 0 ∧ progress.finished = true ∧ trace = []) ∨ Stands listing scope start progress trace

theorem Begins.stands {start : Nat} {progress : Progress} {trace : List Event}
    (begins : Begins listing scope start progress trace) :
    Stands listing scope start (begun scope progress) trace := by
  rcases begins with ⟨rfl, finished, rfl⟩ | stands
  · obtain ⟨names, rest, pages⟩ := listing.first
    refine ⟨?_, ?_, ⟨⟨"", names⟩, ?_, ?_⟩, ?_, ?_⟩
    · simp [begun, finished]
    · simp [begun, finished]
    · simp [pages]
    · simp [begun, finished]
    · simp [begun, finished, cleanups, firstFailure]
    · simp [cleanups, artifacts]
  · have same : begun scope progress = progress := by simp [begun, stands.unfinished]
    rwa [same]

theorem cleanupSweep_eq {start : Nat} {progress : Progress} {trace : List Event}
    (begins : Begins listing scope start progress trace) (input : Message)
    (same : input.erase "cursor" = scope) :
    cleanupSweep b input progress trace =
      sweepPages b 128 (scope.insert "cursor" (begun scope progress).cursor)
        [(begun scope progress).cursor] (begun scope progress) trace := by
  simp only [cleanupSweep, same, begins.stands.scope_eq, ne_eq, not_true_eq_false, if_false]

theorem cleanupSweep_outcome (serves : Serves b scope listing) {start : Nat}
    {progress : Progress} {trace : List Event}
    (begins : Begins listing scope start progress trace) {input : Message}
    (same : input.erase "cursor" = scope) {status : Int} {after : Progress} {trace' : List Event}
    (run : cleanupSweep b input progress trace = (status, after, trace')) :
    Outcome b listing scope start 128 status after trace' := by
  rw [cleanupSweep_eq begins input same] at run
  refine sweepPages_outcome serves 128 start _ _ trace begins.stands ?_ _ _ _ run
  intro cursor member
  obtain ⟨page, here, named⟩ := begins.stands.next
  rw [List.mem_singleton] at member
  exact ⟨start, le_refl _, page, here, by rw [member, named]⟩

theorem Invoked.begins (serves : Serves b scope listing) {returned : List Int}
    {progress : Progress} {trace : List Event} (invoked : Invoked b scope returned progress trace)
    (going : returned = [] ∨ progress.finished = false) :
    ∃ start, Begins listing scope start progress trace := by
  induction invoked with
  | idle progress finished => exact ⟨0, .inl ⟨rfl, finished, rfl⟩⟩
  | call input _ earlier same run ih =>
    obtain ⟨start, begins⟩ := ih earlier
    rcases cleanupSweep_outcome serves begins same run with ⟨done, stands, _⟩ | ⟨finished, _⟩
    · exact ⟨done, .inr stands⟩
    · simp [finished] at going

/-- A fetch and the cleanups of its page. -/
structure Block where
  input : Message
  status : Int
  calls : List (String × Int)

def Block.events (block : Block) : List Event :=
  .fetched block.input block.status :: block.calls.map fun call => .cleaned call.1 call.2

theorem cleanEntries_calls (result : Message) (indices : List Nat) (failure : Int)
    (trace : List Event) :
    ∃ calls : List (String × Int), calls.length ≤ indices.length ∧
      (cleanEntries b result indices failure trace).2.2 =
        trace ++ calls.map fun call => Event.cleaned call.1 call.2 := by
  induction indices generalizing failure trace with
  | nil => exact ⟨[], by simp, by simp [cleanEntries]⟩
  | cons index rest ih =>
    rw [cleanEntries]
    by_cases empty : result.get (entryKey index) = ""
    · exact ⟨[], by simp, by simp [empty]⟩
    · simp only [empty, if_false]
      obtain ⟨calls, bound, run⟩ := ih _ _
      refine ⟨(result.get (entryKey index), b.cleanup trace (result.get (entryKey index))) :: calls,
        by simpa using bound, ?_⟩
      rw [run]
      simp

theorem pageHeader_count {result : Message} {count : Nat} {more : Bool} {cursor : String}
    (header : pageHeader result = some (count, more, cursor)) : count ≤ 48 := by
  simp only [pageHeader, Option.bind_eq_bind, Option.bind_eq_some_iff, Option.guard_eq_some',
    Option.pure_def, Option.some.injEq, Prod.mk.injEq] at header
  obtain ⟨number, _, _, small, _, _, rfl, _⟩ := header
  omega

/-- Whatever the callbacks answer, the calls of a loop are one block for each fetch. -/
theorem sweepPages_blocks (pages : Nat) (input : Message) (positions : List String)
    (progress : Progress) (trace : List Event) :
    ∃ blocks : List Block, blocks.length ≤ pages ∧ (∀ block ∈ blocks, block.calls.length ≤ 48) ∧
      (0 < pages → blocks.head?.map Block.input = some input) ∧
      (sweepPages b pages input positions progress trace).2.2 =
        trace ++ blocks.flatMap Block.events := by
  induction pages generalizing input positions progress trace with
  | zero => exact ⟨[], by simp [sweepPages]⟩
  | succ pages ih =>
    have alone : ∀ calls : List (String × Int), calls.length ≤ 48 →
        ∃ blocks : List Block, blocks.length ≤ pages + 1 ∧
          (∀ block ∈ blocks, block.calls.length ≤ 48) ∧
          (0 < pages + 1 → blocks.head?.map Block.input = some input) ∧
          trace ++ [.fetched input (b.fetch trace input).1] ++
              (calls.map fun call => Event.cleaned call.1 call.2) =
            trace ++ blocks.flatMap Block.events := by
      intro calls small
      exact ⟨[⟨input, (b.fetch trace input).1, calls⟩], by simp [Block.events, small]⟩
    rw [sweepPages]
    by_cases ok : (b.fetch trace input).1 = 0
    · simp only [ne_eq, ok, not_true_eq_false, if_false]
      rcases header : pageHeader (b.fetch trace input).2 with _ | ⟨count, more, cursor⟩
      · simpa [ok] using alone [] (by simp)
      · obtain ⟨calls, bound, run⟩ := cleanEntries_calls (b := b) (b.fetch trace input).2
          (List.range count) progress.failure (trace ++ [.fetched input 0])
        rw [List.length_range] at bound
        have small : calls.length ≤ 48 := bound.trans (pageHeader_count header)
        have single := alone calls small
        rw [ok, ← run] at single
        dsimp only
        split
        · exact single
        · split
          · exact single
          · split
            · exact single
            · obtain ⟨blocks, few, each, _, rest⟩ := ih (input.insert "cursor" cursor)
                (cursor :: positions) _ (cleanEntries b (b.fetch trace input).2 (List.range count)
                  progress.failure (trace ++ [.fetched input 0])).2.2
              refine ⟨⟨input, 0, calls⟩ :: blocks, by simpa using few, ?_, by simp, ?_⟩
              · intro block member
                rcases List.mem_cons.mp member with rfl | later
                · exact small
                · exact each block later
              · rw [rest, run]
                simp [Block.events]
    · simp only [ne_eq, ok, not_false_eq_true, if_true]
      simpa using alone [] (by simp)

/-- A sweep attempts everything once. When an invocation of the sweep begins, some first pages
are done; it asks for the next one, and either stops at a page that is not done, with the error
of its last fetch or after 128 pages, or it finishes and returns the first failure of the whole
sweep. The artifacts of the pages that are done have been cleaned in their order, each once.
Whatever the callbacks answer, there are at most 128 fetches and 48 cleanups after each. -/
theorem sweep_attempts_once (b : Backend) :
    (∀ (scope : Message) (listing : Listing), Serves b scope listing →
      ∀ (returned : List Int) (progress : Progress) (trace : List Event),
        Invoked b scope returned progress trace →
        (returned = [] ∨ progress.finished = false) →
        ∀ input : Message, input.erase "cursor" = scope →
        ∀ (status : Int) (after : Progress) (trace' : List Event),
          cleanupSweep b input progress trace = (status, after, trace') →
          ∃ start page, listing.pages[start]? = some page ∧
            Begins listing scope start progress trace ∧
            (∃ answer later, trace' =
              trace ++ .fetched (scope.insert "cursor" page.cursor) answer :: later) ∧
            Outcome b listing scope start 128 status after trace') ∧
    ∀ (input : Message) (progress : Progress) (trace : List Event),
      ∃ blocks : List Block, blocks.length ≤ 128 ∧ (∀ block ∈ blocks, block.calls.length ≤ 48) ∧
        (cleanupSweep b input progress trace).2.2 = trace ++ blocks.flatMap Block.events := by
  refine ⟨?_, ?_⟩
  · intro scope listing serves returned progress trace invoked going input same status after trace'
      run
    obtain ⟨start, begins⟩ := invoked.begins serves going
    obtain ⟨page, here, named⟩ := begins.stands.next
    refine ⟨start, page, here, begins, ?_, cleanupSweep_outcome serves begins same run⟩
    obtain ⟨blocks, _, _, first, events⟩ := sweepPages_blocks (b := b) 128
      (scope.insert "cursor" (begun scope progress).cursor) [(begun scope progress).cursor]
      (begun scope progress) trace
    rw [← cleanupSweep_eq begins input same, run] at events
    rcases blocks with _ | ⟨block, rest⟩
    · simp at first
    · have asked : block.input = scope.insert "cursor" page.cursor := by
        rw [← named]
        simpa using first
      refine ⟨block.status, (block.calls.map fun call => Event.cleaned call.1 call.2) ++
        rest.flatMap Block.events, ?_⟩
      rw [← asked]
      simpa [Block.events] using events
  · intro input progress trace
    simp only [cleanupSweep]
    by_cases other : (begun (input.erase "cursor") progress).scope ≠ input.erase "cursor"
    · simp only [if_pos other]
      exact ⟨[], by simp⟩
    · simp only [if_neg other]
      obtain ⟨blocks, few, each, _, events⟩ := sweepPages_blocks (b := b) 128 _ _ _ trace
      exact ⟨blocks, few, each, events⟩

/-- Two pages; the first fetch and the third one fail, and so does the first cleanup. -/
def sampleBackend : Backend where
  fetch trace input :=
    if trace.length = 0 ∨ trace.length = 3 then (-5, ∅)
    else if input.get "cursor" = "k" then
      (0, .ofList [("count", "1"), ("more", "0"), ("a0.artifact", "y")] compare)
    else (0, .ofList [("count", "1"), ("more", "1"), ("next_cursor", "k"),
      ("a0.artifact", "x")] compare)
  cleanup _ artifact := if artifact = "x" then -7 else 0

def sampleListing : Listing where
  pages := [⟨"", ["x"]⟩, ⟨"k", ["y"]⟩]
  first := ⟨_, _, rfl⟩
  distinct := by decide

theorem sampleBackend_serves : Serves sampleBackend ∅ sampleListing := by
  intro trace index page here ok
  by_cases fault : trace.length = 0 ∨ trace.length = 3
  · simp only [sampleBackend, if_pos fault] at ok
    contradiction
  · simp only [sampleBackend, if_neg fault]
    rcases index with _ | _ | index
    · obtain rfl : ⟨"", ["x"]⟩ = page := by simpa [sampleListing] using here
      refine ⟨by decide, ?_⟩
      intro entry artifact listed
      obtain ⟨rfl, rfl⟩ : entry = 0 ∧ "x" = artifact := by
        simpa [List.getElem?_singleton] using listed
      decide
    · obtain rfl : ⟨"k", ["y"]⟩ = page := by simpa [sampleListing] using here
      refine ⟨by decide, ?_⟩
      intro entry artifact listed
      obtain ⟨rfl, rfl⟩ : entry = 0 ∧ "y" = artifact := by
        simpa [List.getElem?_singleton] using listed
      decide
    · simp [sampleListing] at here

/-- The third invocation of this sweep finishes it with the failure of the second one. -/
theorem sample_attempts_once :
    let first := cleanupSweep sampleBackend ∅ {} []
    let second := cleanupSweep sampleBackend ∅ first.2.1 first.2.2
    let third := cleanupSweep sampleBackend ∅ second.2.1 second.2.2
    first.1 = -5 ∧ second.1 = -5 ∧ third.1 = -7 ∧
      Outcome sampleBackend sampleListing ∅ 1 128 third.1 third.2.1 third.2.2 := by
  intro first second third
  have begun : Invoked sampleBackend ∅ [first.1] first.2.1 first.2.2 :=
    .call ∅ (.idle {} rfl) (.inl rfl) rfl rfl
  have going : first.2.1.finished = false := by decide
  have went : Invoked sampleBackend ∅ [second.1, first.1] second.2.1 second.2.2 :=
    .call ∅ begun (.inr going) rfl rfl
  have unfinished : second.2.1.finished = false := by decide
  refine ⟨by decide, by decide, by decide, ?_⟩
  obtain ⟨start, _, _, begins, _, outcome⟩ := (sweep_attempts_once sampleBackend).1 ∅
    sampleListing sampleBackend_serves _ _ _ went (.inr unfinished) ∅ rfl _ _ _ rfl
  have cursor : second.2.1.cursor = "k" := by decide
  rcases begins with ⟨_, finished, _⟩ | stands
  · exact absurd (finished.symm.trans unfinished) (by simp)
  · obtain ⟨next, there, named⟩ := stands.next
    have same : start = 1 :=
      sampleListing.cursor_inj there (show sampleListing.pages[1]? = some ⟨"k", ["y"]⟩ from rfl)
        (named.symm.trans cursor)
    rwa [same] at outcome

end Consent.Sweep
