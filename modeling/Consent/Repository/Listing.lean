import Consent.Repository.Consistency

/-!
What the registry lists over a run: definitions and recorded operations.

The text of the registry file changes only by an amendment that the running call may make
(`Move.listing`), and what is durable becomes the text of the file or stays as it is. So
recorded operations stay recorded, definitions only advance, and a call amends the registry
at most once: its own key is not new any more.
-/
namespace Consent.Repository
open Profile
open Act (Returns)

/-! ### Listings -/

/-- The definitions and operations of a registry. -/
structure Listing where
  definitions : Definitions
  operations : Message

def Registry.listing (r : Registry) : Listing := ⟨r.definitions, r.operations⟩

/-- A missing file lists nothing. -/
def listing (file : Option RegistryFile) : Listing :=
  ((file.bind (·.content)).map Registry.listing).getD ⟨∅, ∅⟩

/-- Definitions only advance, and recorded operations stay. -/
structure Listing.Grows (l l' : Listing) : Prop where
  definitions : AllAdvance l.definitions l'.definitions
  operations : ∀ (key value : String), l.operations[key]? = some value → l'.operations[key]? = some value

theorem Listing.Grows.refl (l : Listing) : l.Grows l := ⟨.refl _, fun _ _ stored => stored⟩

theorem Listing.Grows.trans {a b c : Listing} (h : a.Grows b) (k : b.Grows c) : a.Grows c :=
  ⟨h.definitions.trans k.definitions,
    fun key value stored => k.operations key value (h.operations key value stored)⟩

/-- What the members hold of the registry. -/
def Members.listing (m : Members) : Listing := ⟨m.definitions, m.operations⟩

theorem Amends.grows {P : Platform} {kind : Revision} {key : String} {request : Message}
    {m : Members} {content : Registry} (h : Amends P kind key request m content) :
    m.listing.Grows content.listing := by
  refine ⟨h.changes.allAdvance, fun other value listed => ?_⟩
  have stored : m.operations[other]? = some value := listed
  have differs : key ≠ other := by
    rintro rfl
    rw [h.new] at stored
    cases stored
  show content.operations[other]? = some value
  rw [h.operations, Std.ExtTreeMap.getElem?_insert]
  simp only [Std.LawfulEqCmp.compare_eq_iff_eq, differs, ↓reduceIte]
  exact stored

theorem Stamped.listing_eq {m : Members} (h : Stamped m) (matched : Matched m) :
    Repository.listing m.disk.registry = m.listing := by
  obtain ⟨r, stored, definitions, operations, _⟩ := h.mirrored matched
  rw [Disk.content] at stored
  rw [Repository.listing, stored, Members.listing, ← definitions, ← operations]
  rfl

/-! ### Moves -/

variable {σ ε : Type} [Host σ ε]

/-- How a move changes what the two registry files list. -/
inductive Relists (P : Platform) (K : Members → Registry → Prop) (m m' : Members) : Prop where
  | kept (registry : listing m'.disk.registry = listing m.disk.registry)
      (durable : listing m'.disk.durable = listing m.disk.durable ∨
        listing m'.disk.durable = listing m'.disk.registry)
  | amended (content : Registry) (allowed : K m content)
      (amends : ∃ kind key request, Amends P kind key request m content)
      (before : listing m.disk.registry = m.listing)
      (registry : listing m'.disk.registry = content.listing)
      (durable : listing m'.disk.durable = listing m.disk.durable ∨
        listing m'.disk.durable = listing m'.disk.registry)

theorem Relists.of_eq {P : Platform} {K : Members → Registry → Prop} {m m' : Members}
    (registry : m'.disk.registry = m.disk.registry) (durable : m'.disk.durable = m.disk.durable) :
    Relists P K m m' :=
  .kept (by rw [registry]) (Or.inl (by rw [durable]))

/-- A write that succeeds puts its content into place, and may make it durable. -/
theorem written_listing (m : Members) (content : Registry) (outcome : WriteOutcome) :
    (m.written content outcome).disk.registry = m.disk.registry ∧
        (m.written content outcome).disk.durable = m.disk.durable ∨
      listing (m.written content outcome).disk.registry = content.listing ∧
        (listing (m.written content outcome).disk.durable = listing m.disk.durable ∨
          listing (m.written content outcome).disk.durable =
            listing (m.written content outcome).disk.registry) := by
  cases outcome with
  | failed => exact Or.inl ⟨rfl, rfl⟩
  | renamed => exact Or.inr ⟨rfl, Or.inl rfl⟩
  | durable => exact Or.inr ⟨rfl, Or.inr rfl⟩

theorem Move.listing {P : Platform} {c : Context ε} {K : Members → Registry → Prop}
    {w v : World σ ε} (platform : c.platform = P) (runs : Runs P w) (h : Move c K w v)
    (clean : Untampered v.progress.record) : Relists P K w.members v.members := by
  subst platform
  have stamped : Stamped w.members := runs.consistent.stamped
  cases h with
  | steer steers => exact .of_eq (by rw [steers.disk]) (by rw [steers.disk])
  | touch spoken past =>
    obtain ⟨registry, durable⟩ := touch_registry w.members.disk (clean _ List.mem_cons_self)
    exact .of_eq registry durable
  | sync => exact .kept rfl (Or.inr rfl)
  | @write content source outcome =>
    rcases written_listing { w.members with expected := content.database } content outcome with
      ⟨registry, durable⟩ | ⟨registry, durable⟩
    · exact .of_eq registry durable
    · cases source with
      | found missing empty database operations =>
        refine .kept ?_ durable
        have none : Repository.listing w.members.disk.registry = ⟨∅, ∅⟩ := by rw [missing]; rfl
        rw [none]
        refine registry.trans ?_
        rw [Registry.listing, empty, operations]
      | follow matched follows database amends allowed =>
        exact .amended content allowed amends (stamped.listing_eq matched) registry durable
      | bind matched definitions database named adopted older operations revision =>
        refine .kept ?_ durable
        rw [stamped.listing_eq matched]
        refine registry.trans ?_
        rw [Registry.listing, definitions, operations]
        rfl
  | _ => exact .of_eq rfl rfl

/-! ### Runs -/

/-- The durable file is not ahead of the one in place. -/
def Ordered (m : Members) : Prop := (listing m.disk.durable).Grows (listing m.disk.registry)

theorem Relists.grows {P : Platform} {K : Members → Registry → Prop} {m m' : Members}
    (h : Relists P K m m') (ordered : Ordered m) :
    (listing m.disk.registry).Grows (listing m'.disk.registry) ∧ Ordered m' ∧
      (listing m.disk.durable).Grows (listing m'.disk.durable) := by
  have finish : (listing m.disk.registry).Grows (listing m'.disk.registry) →
      (listing m'.disk.durable = listing m.disk.durable ∨
        listing m'.disk.durable = listing m'.disk.registry) →
      Ordered m' ∧ (listing m.disk.durable).Grows (listing m'.disk.durable) := by
    intro forward durable
    rcases durable with same | synced
    · rw [Ordered, same]
      exact ⟨ordered.trans forward, .refl _⟩
    · rw [Ordered, synced]
      exact ⟨.refl _, ordered.trans forward⟩
  cases h with
  | kept registry durable =>
    have forward : (listing m.disk.registry).Grows (listing m'.disk.registry) := by
      rw [registry]
      exact .refl _
    exact ⟨forward, finish forward durable⟩
  | amended content allowed amends before registry durable =>
    obtain ⟨kind, key, request, amends⟩ := amends
    have forward : (listing m.disk.registry).Grows (listing m'.disk.registry) := by
      rw [registry, before]
      exact amends.grows
    exact ⟨forward, finish forward durable⟩

theorem Runs.ordered {P : Platform} {w : World σ ε} (h : Runs P w)
    (clean : Untampered w.progress.record) : Ordered w.members := by
  induction h with
  | start device registry main => exact .refl _
  | @enter w step _ ih =>
    have before := ih (clean.suffix (step.enter_record w))
    cases step with
    | restart main offline powerLoss =>
      cases powerLoss with
      | true => exact .refl _
      | false => exact before
    | _ => exact before
  | move platform runs move ih =>
    exact ((move.listing platform runs clean).grows (ih (clean.suffix move.record))).2.1

/-- What is listed grows along the moves of a call. -/
theorem Runs.grows {P : Platform} {c : Context ε} {K : Members → Registry → Prop}
    {w v : World σ ε} (platform : c.platform = P) (h : Runs P w)
    (reaches : (law c K).Reaches w v) (clean : Untampered v.progress.record) :
    (listing w.members.disk.registry).Grows (listing v.members.disk.registry) ∧
      (listing w.members.disk.durable).Grows (listing v.members.disk.durable) := by
  induction reaches with
  | refl => exact ⟨.refl _, .refl _⟩
  | tail before move ih =>
    have runs := h.reaches platform before
    have within := clean.suffix (Move.record move)
    obtain ⟨registry, durable⟩ := ih within
    obtain ⟨forward, _, kept⟩ := (Move.listing platform runs move clean).grows (runs.ordered within)
    exact ⟨registry.trans forward, durable.trans kept⟩

theorem Runs.record {c : Context ε} {K : Members → Registry → Prop} {w v : World σ ε}
    (reaches : (law c K).Reaches w v) : w.progress.record <:+ v.progress.record := by
  induction reaches with
  | refl => exact List.suffix_refl _
  | tail _ move ih => exact ih.trans (Move.record move)

omit [Host σ ε] in
theorem Untampered.record {s : Progress σ ε} (h : Untampered s.history) : Untampered s.record :=
  fun moment member => h moment (List.mem_filter.mp member).1

/-- A world that a run comes to from another one, if every step meets a condition where it
begins. -/
inductive Continues (P : Platform) (C : World σ ε → Step σ → Prop) (w : World σ ε) :
    World σ ε → Prop where
  | refl : Continues P C w w
  | step {v : World σ ε} (step : Step σ) (environment : Environment ε) (meets : C v step) :
      Continues P C w v → Continues P C w (step.run P environment v).2
  | killed {v u : World σ ε} (step : Step σ) (environment : Environment ε) (main : σ)
      (offline powerLoss : Bool) (next : Environment ε) (meets : C v step)
      (again : C u (.restart main offline powerLoss)) :
      Continues P C w v →
      (law ⟨P, environment⟩ (step.Allows ⟨P, environment⟩)).Reaches (step.enter v) u →
      (law ⟨P, environment⟩ (step.Allows ⟨P, environment⟩)).Reaches u
        (step.run P environment v).2 →
      Continues P C w ((Step.restart main offline powerLoss).run P next u).2

theorem Attained.continues {P : Platform} {C : World σ ε → Step σ → Prop} {w v : World σ ε}
    (h : Attained P w) (continues : Continues P C w v) : Attained P v := by
  induction continues with
  | refl => exact h
  | step step environment _ _ ih => exact .step step environment ih
  | killed step environment main offline powerLoss next _ _ _ before after ih =>
    exact .killed step environment main offline powerLoss next ih before after

/-- What a call leads through. -/
theorem Attained.step_reaches {P : Platform} {w : World σ ε} (h : Attained P w) (step : Step σ)
    (environment : Environment ε) : Runs P (step.enter w) ∧
      (law ⟨P, environment⟩ (step.Allows ⟨P, environment⟩)).Reaches (step.enter w)
        (step.run P environment w).2 := by
  obtain ⟨runs, recorded, rest⟩ := h.runs
  exact ⟨runs.enter step, (step.run_reaches environment recorded (step.enter_entered rest)).1⟩

/-! ### One call -/

/-- The amendments that `K` allows are recorded under one key. -/
def Keyed (K : Members → Registry → Prop) (key : String) : Prop :=
  ∀ m content, K m content → m.operations[key]? = none ∧ ∃ value, content.operations[key]? = some value

/-- The listing `l` is unchanged, or has been amended once. -/
def AmendedOnce (K : Members → Registry → Prop) (l l' : Listing) : Prop :=
  l' = l ∨ ∃ m content, K m content ∧ l = m.listing ∧ l' = content.listing

/-- After an amendment the key is not new any more. -/
theorem AmendedOnce.unchanged {K : Members → Registry → Prop} {key : String} {l l' : Listing}
    (h : AmendedOnce K l l') (keyed : Keyed K key) {m : Members} {content : Registry}
    (allowed : K m content) (here : l' = m.listing) : l' = l := by
  rcases h with same | ⟨m', first, made, _, rfl⟩
  · exact same
  · obtain ⟨value, recorded⟩ := (keyed m' first made).2
    have again : m.operations[key]? = some value :=
      (congrArg (fun l : Listing => l.operations[key]?) here.symm).trans recorded
    rw [(keyed m content allowed).1] at again
    cases again

/-- A call that records its amendments under one key makes at most one. -/
theorem Runs.amended {P : Platform} {c : Context ε} {K : Members → Registry → Prop} {key : String}
    {w v : World σ ε} (platform : c.platform = P) (keyed : Keyed K key) (h : Runs P w)
    (reaches : (law c K).Reaches w v) (clean : Untampered v.progress.record) :
    AmendedOnce K (listing w.members.disk.registry) (listing v.members.disk.registry) := by
  induction reaches with
  | refl => exact Or.inl rfl
  | @tail u v before move ih =>
    have within := clean.suffix (Move.record move)
    cases Move.listing platform (h.reaches platform before) move clean with
    | kept registry durable =>
      rw [registry]
      exact ih within
    | amended content allowed amends old registry durable =>
      have same := (ih within).unchanged keyed allowed old
      exact Or.inr ⟨u.members, content, allowed, by rw [← same, old], registry⟩

/-- What a call keeps of the registry in place, and of the durable one where it counts. -/
theorem Runs.retains {P : Platform} {c : Context ε} {K : Members → Registry → Prop} {key : String}
    {w v : World σ ε} {I : Listing → Prop} {L : Prop} (platform : c.platform = P)
    (keyed : Keyed K key) (h : Runs P w) (reaches : (law c K).Reaches w v)
    (clean : Untampered v.progress.record)
    (each : ∀ m content, K m content → listing w.members.disk.registry = m.listing →
      I m.listing → I content.listing)
    (registry : I (listing w.members.disk.registry)) (durable : L → I (listing w.members.disk.durable)) :
    I (listing v.members.disk.registry) ∧ (L → I (listing v.members.disk.durable)) := by
  induction reaches with
  | refl => exact ⟨registry, durable⟩
  | @tail u v before move ih =>
    have within := clean.suffix (Move.record move)
    have runs := h.reaches platform before
    obtain ⟨placed, kept⟩ := ih within
    have finish : I (listing v.members.disk.registry) →
        (listing v.members.disk.durable = listing u.members.disk.durable ∨
          listing v.members.disk.durable = listing v.members.disk.registry) →
        I (listing v.members.disk.registry) ∧ (L → I (listing v.members.disk.durable)) := by
      intro now synced
      refine ⟨now, fun counts => ?_⟩
      rcases synced with same | synced
      · rw [same]
        exact kept counts
      · rw [synced]
        exact now
    cases Move.listing platform runs move clean with
    | kept same synced => exact finish (by rw [same]; exact placed) synced
    | amended content allowed amends old made synced =>
      have same := (Runs.amended platform keyed h before within).unchanged keyed allowed old
      refine finish ?_ synced
      rw [made]
      exact each u.members content allowed (by rw [← same, old]) (by rw [← old]; exact placed)

/-! ### Accepted operations -/

section
variable {c : Context ε} {w v : World σ ε}

/-- What `Execute` returns with status 0. -/
theorem execute_replies {peer : Peer} {request : Message} {reply : Reply}
    (run : (execute peer request).run c w = (.ok reply, v)) (succeeds : reply.status = none) :
    (executeChecked peer request).run c w = (.ok reply.fields, v) := by
  rw [execute, Act.run_tryCatch] at run
  split at run
  · rename_i inner
    obtain ⟨fields, u, checked, rest⟩ := Act.of_run_bind inner
    cases rest
    cases run
    exact checked
  · rename_i failure t inner
    obtain ⟨_, u, _, rest⟩ := Act.of_run_bind run
    rw [failureReply, run_members_bind] at rest
    cases rest
    cases succeeds

/-- A storage that is in order holds a durable registry. -/
theorem Runs.settled {P : Platform} (h : Runs P v) (clear : Clear v.view) :
    listing v.members.disk.durable = listing v.members.disk.registry := by
  obtain ⟨⟨matched, serves⟩, unfenced, _⟩ := clear
  have settled := (h.consistent.serves (opened_of_serving serves) unfenced).1
  exact congrArg listing (settled matched)

/-- An operation that is recorded in memory is listed, and stays so. -/
theorem Runs.recalls {P : Platform} {K : Members → Registry → Prop} {key value : String}
    (platform : c.platform = P) (h : Runs P w) (matched : Matched w.members)
    (recorded : w.members.operations[key]? = some value) (reaches : (law c K).Reaches w v)
    (clean : Untampered v.progress.record) :
    (listing v.members.disk.registry).operations[key]? = some value := by
  refine (h.grows platform reaches clean).1.operations key value ?_
  have same : listing w.members.disk.registry = w.members.listing :=
    Stamped.listing_eq h.consistent.stamped matched
  rw [same]
  exact recorded

/-- What a computation that returned has led through. -/
theorem Runs.conducts {P : Platform} {K : Members → Registry → Prop} {α : Type}
    {A : View σ ε → Prop} {x : Process σ ε α} {B : α → View σ ε → Prop}
    {F : Failure → View σ ε → Prop} {a : α} (platform : c.platform = P) (h : Runs P w)
    (spec : Conducts c K A x B F) (holds : A w.view) (run : x.run c w = (.ok a, v)) :
    Runs P v ∧ (law c K).Reaches w v ∧ B a v.view := by
  subst platform
  obtain ⟨reaches, ends⟩ := spec w h.recorded holds
  rw [run] at reaches ends
  cases ends with
  | ok post => exact ⟨h.reaches rfl reaches, reaches, post⟩

/-- An installer's operation that succeeds is recorded durably. -/
theorem executeChecked_recorded {P : Platform} {peer : Peer} {request fields : Message}
    (platform : c.platform = P) (runs : Runs P w) (rest : Rest w.view)
    (run : (executeChecked peer request).run c w = (.ok fields, v))
    (clean : Untampered v.progress.record) (named : isRegistration request) :
    listing v.members.disk.durable = listing v.members.disk.registry ∧
      (listing v.members.disk.registry).operations[operationKey P peer request]? =
        some (fingerprint P request) := by
  subst platform
  obtain ⟨⟨epoch, generation⟩, u, prepared, run⟩ := Act.of_run_bind run
  obtain ⟨result, t, dispatched, run⟩ := Act.of_run_bind run
  obtain ⟨runs, _, ready⟩ := runs.conducts (K := fun _ _ => False) rfl (prepare_spec peer) rest prepared
  obtain ⟨runs, _, ready, noted⟩ := runs.conducts rfl (dispatch_noted peer request) ready dispatched
  obtain ⟨final, after, clear⟩ := runs.conducts (K := fun _ _ => False) rfl
    (publish_spec peer request result epoch generation) ready run
  exact ⟨final.settled clear, runs.recalls rfl ready.1 (noted named) after clean⟩

/-- An offline record whose import returns normally is recorded durably, and under its own
fingerprint if it was registered. -/
theorem importChecked_recorded {P : Platform} {seed : Message} {reply : Reply}
    (platform : c.platform = P) (runs : Runs P w) (rest : Rest w.view)
    (run : (importChecked seed).run c w = (.ok reply, v)) (clean : Untampered v.progress.record) :
    listing v.members.disk.durable = listing v.members.disk.registry ∧
      ∃ value, (listing v.members.disk.registry).operations[offlineKey P seed]? = some value ∧
        (reply.status = none → value = fingerprint P (recordRequest seed)) := by
  subst platform
  obtain ⟨_, _, ensured, run⟩ := Act.of_run_bind run
  obtain ⟨runs, _, ready⟩ := runs.conducts (K := fun _ _ => False) rfl ensure_spec rest ensured
  rw [run_members_bind] at run
  obtain ⟨request, _, checked, run⟩ := Act.of_run_bind run
  obtain ⟨rfl, plain⟩ := checkRecord_returns (of_run_query checked).1
  obtain ⟨runs, _, ready⟩ := runs.conducts (K := fun _ _ => False) rfl (query_idle _) ready checked
  obtain ⟨_, _, installed, run⟩ := Act.of_run_bind run
  have current := requireInstallation_returns (of_run_query installed).1
  obtain ⟨runs, _, ready⟩ := runs.conducts (K := fun _ _ => False) rfl (query_idle _) ready installed
  obtain ⟨digest, _, named, run⟩ := Act.of_run_bind run
  obtain rfl := hash_returns (of_run_query named).1
  obtain ⟨runs, _, ready⟩ := runs.conducts (K := fun _ _ => False) rfl (query_idle _) ready named
  obtain ⟨print, _, hashed, run⟩ := Act.of_run_bind run
  have same : print = fingerprint c.platform (recordRequest seed) := by
    rw [fingerprint, plain]
    exact hash_returns (of_run_query hashed).1
  obtain ⟨runs, _, ready⟩ := runs.conducts (K := fun _ _ => False) rfl (query_idle _) ready hashed
  obtain ⟨obsolete, _, judged, run⟩ := Act.of_run_bind run
  obtain ⟨runs, _, ready, verdict⟩ := runs.conducts rfl
    (judgeSeed_spec (K := fun _ _ => True) same fun _ _ _ => trivial) ready judged
  obtain ⟨result, u, registered, run⟩ := Act.of_run_bind run
  have recorded : Runs c.platform u ∧ Ready u.view ∧
      ∃ value, u.members.operations[offlineKey c.platform seed]? = some value ∧
        (obsolete = false → value = fingerprint c.platform (recordRequest seed)) := by
    cases obsolete with
    | true =>
      cases registered
      obtain ⟨value, stored⟩ := verdict.recorded rfl
      exact ⟨runs, ready, value, stored, by simp⟩
    | false =>
      obtain ⟨runs, _, ready, stored⟩ := runs.conducts rfl (commonRegister_seed current)
        ⟨ready, verdict⟩ registered
      exact ⟨runs, ready, _, stored, fun _ => rfl⟩
  obtain ⟨runs, ready, value, stored, own⟩ := recorded
  obtain ⟨final, after, clear⟩ := runs.conducts (K := fun _ _ => False) rfl
    (publishSeed_spec _ result obsolete _) ready run
  refine ⟨final.settled clear, value, runs.recalls rfl ready.1 stored after clean, fun ok => own ?_⟩
  -- An obsolete seed is reported as such.
  by_contra obsoleteSeed
  rw [Bool.not_eq_false] at obsoleteSeed
  subst obsoleteSeed
  obtain ⟨_, _, _, run⟩ := Act.of_run_bind run
  rw [run_members_bind] at run
  obtain ⟨_, _, _, run⟩ := Act.of_run_bind run
  obtain ⟨_, _, _, run⟩ := Act.of_run_bind run
  obtain ⟨_, _, _, run⟩ := Act.of_run_bind run
  obtain ⟨_, _, _, run⟩ := Act.of_run_bind run
  cases run
  cases ok

end

end Consent.Repository
