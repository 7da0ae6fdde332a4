import Consent.Repository.Rotation

/-!
The compaction of unusable metadata. A batch is a list of records that are reclaimed one
after the other. What a record may still need is counted by `outstanding`: reclaiming a
record takes exactly that record off the list of its class and leaves the other lists, so
no record comes back and repeated batches come to an end.
-/
namespace Consent.Repository
open Profile (Host)

/-- A record of one of the four classes. -/
abbrev Record := RecordClass × String

def recordClasses : List RecordClass := [.receipts, .requests, .sessions, .grants]

theorem mem_recordClasses (type : RecordClass) : type ∈ recordClasses := by
  cases type <;> decide

/-- The records that are reclaimable, now or once other records are reclaimed: a revoked grant
becomes reclaimable when the receipts that used it are cleared. -/
def outstanding (d : Database) : RecordClass → List String
  | .grants => (d.grants.filter (·.revoked)).map (·.id)
  | type => reclaimable d type

variable {d : Database} {records : List Record}

theorem reclaimable_outstanding {id : String} {type : RecordClass} (h : id ∈ reclaimable d type) :
    id ∈ outstanding d type := by
  cases type with
  | grants =>
    obtain ⟨g, member, rfl⟩ := List.mem_map.mp h
    simp only [List.mem_filter, Bool.and_eq_true] at member
    exact List.mem_map_of_mem (List.mem_filter.mpr ⟨member.1, member.2.1.1⟩)
  | _ => exact h

/-- The keys that a query finds after an update that removes one of them from it. -/
theorem keys_updated {α : Type} {rows : List α} (key : α → String) {id : String}
    {update : α → α} {found found' : α → Bool} (same : ∀ r, key (update r) = key r)
    (gone : ∀ r, key r = id → found' (update r) = false)
    (kept : ∀ r, key r ≠ id → found' (update r) = found r) :
    ((rows.map update).filter found').map key = ((rows.filter found).map key).filter (· ≠ id) := by
  induction rows with
  | nil => rfl
  | cons r rest ih =>
    by_cases hit : key r = id
    · cases old : found r
      · simpa [gone r hit, old] using ih
      · simpa [gone r hit, old, hit] using ih
    · cases old : found r
      · simpa [kept r hit, old] using ih
      · simpa [kept r hit, old, hit, same] using ih

theorem outstanding_reclaim (d : Database) (id : String) (type other : RecordClass) :
    outstanding (reclaim d id type) other =
      if other = type then (outstanding d other).filter (· ≠ id) else outstanding d other := by
  by_cases same : other = type
  · subst same
    rw [if_pos rfl]
    cases other with
    | receipts =>
      refine keys_updated Authorization.id ?_ ?_ ?_
      · intro a
        split <;> rfl
      · intro a hit
        cases valid : a.valid
        · simp [hit, valid, reclaim]
        · simp [hit, valid]
      · intro a other
        have edges : (d.authorizationGrants.filter fun e => decide (e.receipt ≠ id)).any
            (fun e => decide (e.receipt = a.id)) =
            d.authorizationGrants.any fun e => decide (e.receipt = a.id) := by
          rw [List.any_filter]
          congr 1
          funext e
          by_cases hit : e.receipt = a.id
          · simp [hit, other]
          · simp [hit]
        simp only [reclaim, other, decide_false, Bool.false_and, Bool.false_eq_true, if_false, edges]
    | requests =>
      refine keys_updated RequestRow.id ?_ ?_ ?_
      · intro a
        split <;> rfl
      · intro a hit
        simp [hit]
      · intro a other
        simp [other]
    | sessions =>
      refine keys_updated SessionRow.id ?_ ?_ ?_
      · intro a
        split <;> rfl
      · intro a hit
        simp [hit]
      · intro a other
        simp [other]
    | grants =>
      simp only [outstanding, reclaim, List.filter_map, List.filter_filter]
      congr 2
      funext g
      exact Bool.and_comm _ _
  · rw [if_neg same]
    cases other <;> cases type <;> first | rfl | exact absurd rfl same

/-- Reclaiming a list of records takes exactly these off the lists. -/
theorem outstanding_foldl (records : List Record) (d : Database) (type : RecordClass) :
    outstanding (records.foldl (fun d r => reclaim d r.2 r.1) d) type =
      (outstanding d type).filter fun id => (type, id) ∉ records := by
  induction records generalizing d with
  | nil => simp
  | cons r rest ih =>
    obtain ⟨other, name⟩ := r
    rw [List.foldl_cons, ih, outstanding_reclaim]
    by_cases same : type = other
    · subst same
      rw [if_pos rfl, List.filter_filter]
      congr 1
      funext id
      by_cases hit : id = name
      · simp [hit]
      · simp [hit]
    · rw [if_neg same]
      congr 1
      funext id
      simp [same]

/-! ### The records of a batch -/

/-- `compactClass` with the records themselves in place of their number. -/
def clearClass (first : Nat) (state : Database × List Record) (offset : Nat) :
    Database × List Record :=
  if state.2.length < kMaintenanceLimit then
    let type := recordClass (first + offset)
    let records := (reclaimable state.1 type).take (kMaintenanceLimit - state.2.length)
    (records.foldl (fun d id => reclaim d id type) state.1,
      state.2 ++ records.map fun id => (type, id))
  else state

def clearTables (first : Nat) (d : Database) : Database × List Record :=
  (List.range 4).foldl (clearClass first) (d, [])

theorem compactTables_eq (first : Nat) (d : Database) :
    compactTables first d = ((clearTables first d).1, (clearTables first d).2.length) := by
  have loop : ∀ (offsets : List Nat) (state : Database × List Record),
      offsets.foldl (compactClass first) (state.1, state.2.length) =
        ((offsets.foldl (clearClass first) state).1,
          (offsets.foldl (clearClass first) state).2.length) := by
    intro offsets
    induction offsets with
    | nil => exact fun _ => rfl
    | cons offset rest ih =>
      intro state
      rw [List.foldl_cons, List.foldl_cons, ← ih]
      congr 1
      unfold compactClass clearClass
      by_cases room : state.2.length < kMaintenanceLimit
      · simp [room]
      · simp [room]
  exact loop (List.range 4) (d, [])

/-- The records were reclaimed one after the other, each once, and each was outstanding. -/
structure Cleared (d d' : Database) (records : List Record) : Prop where
  steps : d' = records.foldl (fun d r => reclaim d r.2 r.1) d
  once : records.Nodup
  due : ∀ r ∈ records, r.2 ∈ outstanding d r.1

theorem Cleared.refl (d : Database) : Cleared d d [] := ⟨rfl, .nil, by simp⟩

theorem not_reclaimable {r : Record} (member : r ∈ records) :
    r.2 ∉ reclaimable (records.foldl (fun d r => reclaim d r.2 r.1) d) r.1 := by
  intro listed
  have left := reclaimable_outstanding listed
  rw [outstanding_foldl] at left
  simp [member] at left

theorem reclaimable_nodup (keyed : d.Keyed) (type : RecordClass) :
    (reclaimable d type).Nodup := by
  cases type with
  | receipts => exact keyed.authorizations.sublist (List.filter_sublist.map _)
  | requests => exact keyed.requests.sublist (List.filter_sublist.map _)
  | sessions => exact keyed.sessions.sublist (List.filter_sublist.map _)
  | grants => exact keyed.grants.sublist (List.filter_sublist.map _)

theorem Cleared.keyed {d d' : Database} (h : Cleared d d' records) (keyed : d.Keyed) :
    d'.Keyed := by
  rw [h.steps]
  clear h
  induction records generalizing d with
  | nil => exact keyed
  | cons r rest ih => exact ih (reclaim_keyed keyed r.2 r.1)

theorem Cleared.trans {d mid d' : Database} {earlier later : List Record}
    (h : Cleared d mid earlier) (k : Cleared mid d' later) : Cleared d d' (earlier ++ later) := by
  have left : ∀ r ∈ later, r.2 ∈ outstanding d r.1 ∧ r ∉ earlier := by
    intro r member
    have now := k.due r member
    rw [h.steps, outstanding_foldl] at now
    simpa using now
  refine ⟨?_, ?_, ?_⟩
  · rw [List.foldl_append, ← h.steps]
    exact k.steps
  · exact h.once.append k.once fun r old new => (left r new).2 old
  · intro r member
    rcases List.mem_append.mp member with old | new
    · exact h.due r old
    · exact (left r new).1

/-- Some first reclaimable records of a class. -/
theorem Cleared.some (keyed : d.Keyed) (type : RecordClass) (count : Nat) :
    Cleared d (((reclaimable d type).take count).foldl (fun d id => reclaim d id type) d)
      (((reclaimable d type).take count).map fun id => (type, id)) := by
  refine ⟨by rw [List.foldl_map], ?_, ?_⟩
  · have distinct := (reclaimable_nodup keyed type).sublist (List.take_sublist count _)
    exact distinct.map fun _ _ same => (Prod.mk.inj same).2
  · intro r member
    obtain ⟨id, listed, rfl⟩ := List.mem_map.mp member
    exact reclaimable_outstanding (List.mem_of_mem_take listed)

theorem Cleared.clearClass {state : Database × List Record} (h : Cleared d state.1 state.2)
    (keyed : d.Keyed) (first offset : Nat) :
    Cleared d (clearClass first state offset).1 (Repository.clearClass first state offset).2 := by
  unfold Repository.clearClass
  split
  · exact h.trans (.some (h.keyed keyed) _ _)
  · exact h

theorem clearTables_cleared (keyed : d.Keyed) (first : Nat) :
    Cleared d (clearTables first d).1 (clearTables first d).2 := by
  have loop : ∀ (offsets : List Nat) (state : Database × List Record),
      Cleared d state.1 state.2 → Cleared d (offsets.foldl (clearClass first) state).1
        (offsets.foldl (clearClass first) state).2 := by
    intro offsets
    induction offsets with
    | nil => exact fun _ cleared => cleared
    | cons offset rest ih => exact fun state cleared => ih _ (cleared.clearClass keyed first offset)
  exact loop (List.range 4) (d, []) (.refl d)

/-! ### One batch -/

theorem recordClass_mod {left right : Nat} (same : left % 4 = right % 4) :
    recordClass left = recordClass right := by
  unfold recordClass
  rw [same]

/-- Of four classes in a row each comes once. -/
theorem recordClass_turn (first : Nat) (type : RecordClass) :
    ∃! i : Fin 4, recordClass (first + i) = type := by
  have small : ∀ r : Fin 4, ∃! i : Fin 4, recordClass (r + i) = type := by
    unfold ExistsUnique
    cases type <;> decide
  have shift : ∀ i : Fin 4, recordClass (first + i) = recordClass (first % 4 + i) := fun i =>
    recordClass_mod (by omega)
  simp only [shift]
  exact small ⟨first % 4, Nat.mod_lt _ (by omega)⟩

/-- A batch is the reclamation of its records. -/
theorem clearTables_steps (first : Nat) (d : Database) :
    (clearTables first d).1 = (clearTables first d).2.foldl (fun d r => reclaim d r.2 r.1) d := by
  have loop : ∀ (offsets : List Nat) (state : Database × List Record),
      state.1 = state.2.foldl (fun d r => reclaim d r.2 r.1) d →
        (offsets.foldl (clearClass first) state).1 =
          (offsets.foldl (clearClass first) state).2.foldl (fun d r => reclaim d r.2 r.1) d := by
    intro offsets
    induction offsets with
    | nil => exact fun _ steps => steps
    | cons offset rest ih =>
      refine fun state steps => ih _ ?_
      unfold clearClass
      split
      · rw [List.foldl_append, ← steps, List.foldl_map]
      · exact steps
  exact loop (List.range 4) (d, []) rfl

theorem clearClass_length (first : Nat) {state : Database × List Record}
    (within : state.2.length ≤ kMaintenanceLimit) (offset : Nat) :
    (clearClass first state offset).2.length ≤ kMaintenanceLimit := by
  unfold clearClass
  split
  · simp only [List.length_append, List.length_map, List.length_take]
    omega
  · exact within

theorem clearTables_length (first : Nat) (d : Database) :
    (clearTables first d).2.length ≤ kMaintenanceLimit := by
  have loop : ∀ (offsets : List Nat) (state : Database × List Record),
      state.2.length ≤ kMaintenanceLimit →
        (offsets.foldl (clearClass first) state).2.length ≤ kMaintenanceLimit := by
    intro offsets
    induction offsets with
    | nil => exact fun _ within => within
    | cons offset rest ih => exact fun state within => ih _ (clearClass_length first within offset)
  exact loop (List.range 4) (d, []) (Nat.zero_le _)

/-- A batch only adds to the records of the classes before. -/
theorem clearClass_extends (first : Nat) (state : Database × List Record) (offset : Nat) :
    state.2 <+: (clearClass first state offset).2 := by
  unfold clearClass
  split
  · exact List.prefix_append _ _
  · exact List.prefix_rfl

theorem clearClasses_extend (first : Nat) (offsets : List Nat) (state : Database × List Record) :
    state.2 <+: (offsets.foldl (clearClass first) state).2 := by
  induction offsets generalizing state with
  | nil => exact List.prefix_rfl
  | cons offset rest ih => exact (clearClass_extends first state offset).trans (ih _)

/-- The class in front is served before the others. -/
theorem clearTables_first (first : Nat) (d : Database) :
    (((reclaimable d (recordClass first)).take kMaintenanceLimit).map fun id =>
      (recordClass first, id)) <+: (clearTables first d).2 := by
  have start := clearClasses_extend first [1, 2, 3] (clearClass first (d, []) 0)
  have served : (clearClass first (d, []) 0).2 =
      ((reclaimable d (recordClass first)).take kMaintenanceLimit).map fun id =>
        (recordClass first, id) := by
    simp [clearClass, kMaintenanceLimit]
  rw [served] at start
  exact start

/-- A batch without a record finds no class with one. -/
theorem compactTables_idle {first : Nat} (none : (compactTables first d).2 = 0) (type : RecordClass)
    : (compactTables first d).1 = d ∧ reclaimable d type = [] := by
  have counted : (compactTables first d).2 = (clearTables first d).2.length := by
    rw [compactTables_eq]
  have idle : (clearTables first d).2 = [] := List.length_eq_zero_iff.mp (counted.symm.trans none)
  have loop : ∀ (offsets : List Nat), (offsets.foldl (clearClass first) (d, [])).2 = [] →
      (offsets.foldl (clearClass first) (d, [])).1 = d ∧
        ∀ offset ∈ offsets, reclaimable d (recordClass (first + offset)) = [] := by
    intro offsets
    induction offsets with
    | nil => exact fun _ => ⟨rfl, by simp⟩
    | cons offset rest ih =>
      intro empty
      rw [List.foldl_cons] at empty ⊢
      have none := clearClasses_extend first rest (clearClass first (d, []) offset)
      rw [empty, List.prefix_nil] at none
      have found : reclaimable d (recordClass (first + offset)) = [] := by
        simpa [clearClass, kMaintenanceLimit] using none
      have same : clearClass first (d, []) offset = (d, []) := by
        simp [clearClass, found]
      rw [same] at empty ⊢
      obtain ⟨unchanged, others⟩ := ih empty
      exact ⟨unchanged, by simpa [found] using others⟩
  obtain ⟨unchanged, classes⟩ := loop (List.range 4) idle
  obtain ⟨offset, rfl, _⟩ := recordClass_turn first type
  refine ⟨?_, classes offset (List.mem_range.mpr offset.isLt)⟩
  rw [compactTables_eq]
  exact unchanged

/-- The record and what belongs to it is the same in both databases. -/
def Untouched (d d' : Database) : Record → Prop
  | (.receipts, id) =>
    d'.authorizations.filter (fun a => decide (a.id = id)) =
        d.authorizations.filter (fun a => decide (a.id = id)) ∧
      d'.authorizationGrants.filter (fun e => decide (e.receipt = id)) =
        d.authorizationGrants.filter (fun e => decide (e.receipt = id))
  | (.requests, id) => d'.requests.filter (fun r => decide (r.id = id)) =
      d.requests.filter (fun r => decide (r.id = id))
  | (.sessions, id) => d'.sessions.filter (fun s => decide (s.id = id)) =
      d.sessions.filter (fun s => decide (s.id = id))
  | (.grants, id) => d'.grants.filter (fun g => decide (g.id = id)) =
      d.grants.filter (fun g => decide (g.id = id))

/-- The other tables are the same. -/
def Aside (d d' : Database) : Prop :=
  { d' with
    authorizations := d.authorizations, authorizationGrants := d.authorizationGrants
    requests := d.requests, sessions := d.sessions, grants := d.grants } = d

theorem filter_updateWhere {α : Type} {rows : List α} (key : α → String) {id other : String}
    {condition : α → Bool} {f : α → α} (only : ∀ r, condition r = true → key r = id)
    (same : ∀ r, key (f r) = key r) (apart : other ≠ id) :
    (Table.updateWhere rows condition f).filter (fun r => decide (key r = other)) =
      rows.filter fun r => decide (key r = other) := by
  induction rows with
  | nil => rfl
  | cons r rest ih =>
    simp only [Table.updateWhere, List.map_cons] at ih ⊢
    cases hit : condition r
    · by_cases here : key r = other
      · simp [here, ih]
      · simp [here, ih]
    · have here : key r ≠ other := by
        rw [only r hit]
        exact apart.symm
      simp [same, here, ih]

theorem filter_ne_filter {α : Type} {rows : List α} (key : α → String) {id other : String}
    (apart : other ≠ id) :
    (rows.filter fun r => decide (key r ≠ id)).filter (fun r => decide (key r = other)) =
      rows.filter fun r => decide (key r = other) := by
  rw [List.filter_filter]
  congr 1
  funext r
  by_cases here : key r = other
  · simp [here, apart]
  · simp [here]

theorem reclaim_untouched (d : Database) {r other : Record} (apart : other ≠ r) :
    Untouched d (reclaim d r.2 r.1) other := by
  obtain ⟨type, id⟩ := r
  obtain ⟨type', id'⟩ := other
  by_cases same : type' = type
  · subst same
    have ids : id' ≠ id := fun equal => apart (by rw [equal])
    cases type' with
    | receipts =>
      refine ⟨filter_updateWhere Authorization.id ?_ (fun _ => rfl) ids,
        filter_ne_filter ReceiptSource.receipt ids⟩
      intro a hit
      simp only [Bool.and_eq_true, decide_eq_true_eq] at hit
      exact hit.1
    | requests =>
      exact filter_updateWhere RequestRow.id (fun _ hit => of_decide_eq_true hit)
        (fun _ => rfl) ids
    | sessions =>
      exact filter_updateWhere SessionRow.id (fun _ hit => of_decide_eq_true hit)
        (fun _ => rfl) ids
    | grants => exact filter_ne_filter Grant.id ids
  · cases type <;> cases type' <;> first | exact absurd rfl same | exact ⟨rfl, rfl⟩ | rfl

theorem Untouched.trans {d mid d' : Database} {r : Record} (h : Untouched d mid r)
    (k : Untouched mid d' r) : Untouched d d' r := by
  obtain ⟨type, id⟩ := r
  cases type with
  | receipts => exact ⟨k.1.trans h.1, k.2.trans h.2⟩
  | requests => exact Eq.trans k h
  | sessions => exact Eq.trans k h
  | grants => exact Eq.trans k h

theorem reclaim_aside {d mid : Database} (h : Aside d mid) (r : Record) :
    Aside d (reclaim mid r.2 r.1) := by
  obtain ⟨type, id⟩ := r
  cases type <;> exact h

/-- Only the records of the list are touched. -/
theorem Cleared.frame {d d' : Database} (h : Cleared d d' records) :
    (∀ r, r ∉ records → Untouched d d' r) ∧ Aside d d' := by
  rw [h.steps]
  clear h
  have loop : ∀ (rest : List Record) (mid : Database), (∀ r, r ∉ rest → Untouched mid
      (rest.foldl (fun d r => reclaim d r.2 r.1) mid) r) ∧ (Aside d mid →
        Aside d (rest.foldl (fun d r => reclaim d r.2 r.1) mid)) := by
    intro rest
    induction rest with
    | nil =>
      refine fun mid => ⟨?_, fun aside => aside⟩
      rintro ⟨type, id⟩ _
      cases type <;> first | exact ⟨rfl, rfl⟩ | rfl
    | cons r rest ih =>
      intro mid
      obtain ⟨others, aside⟩ := ih (reclaim mid r.2 r.1)
      refine ⟨fun other absent => ?_, fun before => aside (reclaim_aside before r)⟩
      rw [List.mem_cons, not_or] at absent
      exact (reclaim_untouched mid absent.1).trans (others other absent.2)
  exact ⟨(loop records d).1, (loop records d).2 rfl⟩

/-! ### Repeated batches -/

/-- The database and the class in front after one more batch. -/
def nextBatch (state : Database × Nat) : Database × Nat :=
  ((compactTables state.2 state.1).1, (state.2 + 1) % 4)

/-- What the batch from this state counts. -/
def batchCount (state : Database × Nat) : Nat := (compactTables state.2 state.1).2

/-- Everything that may ever be reclaimed without other operations. -/
def outstandingRecords (d : Database) : List Record :=
  recordClasses.flatMap fun type => (outstanding d type).map fun id => (type, id)

theorem Cleared.length_le {d d' : Database} (h : Cleared d d' records) :
    records.length ≤ (outstandingRecords d).length := by
  have within : records ⊆ outstandingRecords d := by
    intro r member
    exact List.mem_flatMap.mpr ⟨r.1, mem_recordClasses r.1, List.mem_map.mpr ⟨r.2, h.due r member, rfl⟩⟩
  exact (h.once.subperm within).length_le

/-- All batches together clear a list of different records. -/
theorem batches_cleared (keyed : d.Keyed) (first count : Nat) :
    ∃ records, Cleared d (nextBatch^[count] (d, first)).1 records ∧
      records.length = ((List.range count).map fun i => batchCount (nextBatch^[i] (d, first))).sum := by
  induction count with
  | zero => exact ⟨[], .refl d, rfl⟩
  | succ count ih =>
    obtain ⟨records, cleared, total⟩ := ih
    have batch := clearTables_cleared (cleared.keyed keyed) (nextBatch^[count] (d, first)).2
    refine ⟨records ++ (clearTables (nextBatch^[count] (d, first)).2
      (nextBatch^[count] (d, first)).1).2, ?_, ?_⟩
    · rw [Function.iterate_succ_apply', nextBatch, compactTables_eq]
      exact cleared.trans batch
    · rw [List.length_append, total, List.range_succ, List.map_append, List.sum_append]
      simp [batchCount, compactTables_eq]

/-- Some batch finds nothing to do, after at most as many batches as there are records. -/
theorem batches_end (keyed : d.Keyed) (first : Nat) :
    ∃ count ≤ (outstandingRecords d).length, batchCount (nextBatch^[count] (d, first)) = 0 := by
  -- Otherwise one batch more than there are records would count at least one record each.
  by_contra endless
  push Not at endless
  obtain ⟨records, cleared, total⟩ := batches_cleared keyed first ((outstandingRecords d).length + 1)
  have few := cleared.length_le
  have many : (outstandingRecords d).length + 1 ≤ ((List.range ((outstandingRecords d).length + 1)).map
      fun i => batchCount (nextBatch^[i] (d, first))).sum := by
    have each : ∀ n ∈ (List.range ((outstandingRecords d).length + 1)).map
        (fun i => batchCount (nextBatch^[i] (d, first))), 1 ≤ n := by
      intro n member
      obtain ⟨i, inside, rfl⟩ := List.mem_map.mp member
      exact Nat.pos_of_ne_zero (endless i (Nat.le_of_lt_succ (List.mem_range.mp inside)))
    have sum := List.card_nsmul_le_sum _ 1 each
    simpa using sum
  omega

/-! ### Batches between other operations -/

/-- The batch begins with this class: its first candidates, as many as the limit allows, are
no candidates any more. -/
structure Entry.Favours (e : Entry) (type : RecordClass) : Prop where
  call : ∃ first, e.call = .compact first ∧ recordClass first = type
  cleared : ∃ ids, ids <+: reclaimable e.before type ∧
    ids.length = min kMaintenanceLimit (reclaimable e.before type).length ∧
    ∀ id ∈ ids, id ∉ reclaimable e.after type

theorem favours_first {e : Entry} {first : Nat} (call : e.call = .compact first)
    (after : e.after = (compactTables first e.before).1) : e.Favours (recordClass first) := by
  refine ⟨⟨first, call, rfl⟩, (reclaimable e.before (recordClass first)).take kMaintenanceLimit,
    List.take_prefix _ _, List.length_take, ?_⟩
  intro id member
  have cleared : (recordClass first, id) ∈ (clearTables first e.before).2 :=
    (clearTables_first first e.before).subset (List.mem_map_of_mem member)
  rw [after, compactTables_eq, clearTables_steps]
  exact not_reclaimable cleared

/-- The batches of a run of turns, in their order: the classes follow each other. -/
theorem turns_batches {s t : Nat × List Entry} (h : Relation.ReflTransGen BatchTurn s t) :
    ∃ batches : List Entry, t.2 = batches.reverse ++ s.2 ∧
      t.1 % 4 = (s.1 + batches.length) % 4 ∧
      ∀ i e, batches[i]? = some e → ∃ first, e.call = .compact first ∧
        e.after = (compactTables first e.before).1 ∧ first % 4 = (s.1 + i) % 4 := by
  induction h with
  | refl => exact ⟨[], rfl, rfl, by simp⟩
  | tail _ turn ih =>
    obtain ⟨batches, entries, due, each⟩ := ih
    obtain @⟨first, old, e, call, after⟩ := turn
    refine ⟨batches ++ [e], ?_, ?_, ?_⟩
    · dsimp only at entries ⊢
      simp [entries]
    · dsimp only at due ⊢
      rw [List.length_append, List.length_singleton]
      omega
    · intro i e' found
      rw [List.getElem?_append] at found
      split at found
      · exact each i e' found
      · rename_i outside
        obtain ⟨last, rfl⟩ : i - batches.length = 0 ∧ e = e' := by
          simpa [List.getElem?_singleton] using found
        have here : i = batches.length := by omega
        subst here
        exact ⟨first, call, after, due⟩

/-- Of four batches in a row each class is favoured by exactly one. -/
theorem turns_favour {s t : Nat × List Entry} (h : Relation.ReflTransGen BatchTurn s t) :
    ∃ batches : List Entry, t.2 = batches.reverse ++ s.2 ∧
      ∀ n, n + 4 ≤ batches.length → ∀ type, ∃! i : Fin 4, ∃ e, batches[n + i]? = some e ∧
        e.Favours type := by
  obtain ⟨batches, entries, _, each⟩ := turns_batches h
  refine ⟨batches, entries, ?_⟩
  intro n inside type
  obtain ⟨i, here, only⟩ := recordClass_turn (s.1 + n) type
  refine ⟨i, ?_, ?_⟩
  · have bound : n + i < batches.length := by omega
    obtain ⟨first, call, after, turn⟩ := each (n + i) _ (List.getElem?_eq_getElem bound)
    refine ⟨_, List.getElem?_eq_getElem bound, ?_⟩
    have same : recordClass first = type := by
      rw [← here]
      exact recordClass_mod (by omega)
    rw [← same]
    exact favours_first call after
  · rintro j ⟨e, found, favours⟩
    obtain ⟨first, call, _, turn⟩ := each (n + j) e found
    obtain ⟨first', call', class'⟩ := favours.call
    obtain rfl : first = first' := Call.compact.inj (call.symm.trans call')
    refine only j ?_
    rw [← class']
    exact recordClass_mod (by omega)

section
variable {σ ε : Type} [Host σ ε]

/-- The compaction makes bounded and fair progress. A batch touches the records that it counts,
at most 128 of those outstanding, and nothing else; if it counts none, no candidate is left.
Repeated batches count each record at most once, and only records that were outstanding when
they began, and so one of them counts none. Of any four batches in a row that a
process commits between other operations, each class is served first by exactly one. -/
theorem compaction_progress (d : Database) (keyed : d.Keyed) (first : Nat) :
    (∃ records : List Record, records.length = (compactTables first d).2 ∧ records.length ≤ 128 ∧
      records.Nodup ∧ (∀ r ∈ records, r.2 ∈ outstanding d r.1) ∧
      (∀ r, r ∉ records → Untouched d (compactTables first d).1 r) ∧
      Aside d (compactTables first d).1) ∧
    ((compactTables first d).2 = 0 → ∀ type, reclaimable (compactTables first d).1 type = []) ∧
    (∀ count, ∃ records : List Record, records.Nodup ∧
      (∀ r ∈ records, r.2 ∈ outstanding d r.1) ∧
      (∀ r, r ∉ records → Untouched d (nextBatch^[count] (d, first)).1 r) ∧
      records.length = ((List.range count).map fun i => batchCount (nextBatch^[i] (d, first))).sum) ∧
    (∃ count ≤ (outstandingRecords d).length, batchCount (nextBatch^[count] (d, first)) = 0 ∧
      ∀ type, reclaimable (nextBatch^[count] (d, first)).1 type = []) ∧
    ∀ (P : Platform) (w v : World σ ε), Attained P w → Operates P w v →
      ∃ batches : List Entry, v.rotation.2 = batches.reverse ++ w.rotation.2 ∧
        ∀ n, n + 4 ≤ batches.length → ∀ type, ∃! i : Fin 4, ∃ e, batches[n + i]? = some e ∧
          e.Favours type := by
  refine ⟨?_, ?_, ?_, ?_, ?_⟩
  · have cleared := clearTables_cleared keyed first
    refine ⟨(clearTables first d).2, ?_, clearTables_length first d, cleared.once, cleared.due, ?_⟩
    · rw [compactTables_eq]
    · rw [compactTables_eq]
      exact cleared.frame
  · intro none type
    obtain ⟨same, found⟩ := compactTables_idle none type
    rw [same]
    exact found
  · intro count
    obtain ⟨records, cleared, total⟩ := batches_cleared keyed first count
    exact ⟨records, cleared.once, cleared.due, cleared.frame.1, total⟩
  · obtain ⟨count, few, none⟩ := batches_end keyed first
    exact ⟨count, few, none, fun type => (compactTables_idle none type).2⟩
  · intro P w v attained operates
    exact turns_favour (operates.rotates attained)

end

/-- A used receipt that is no longer valid, with the revoked grant that it used. -/
def sampleUnusable : Database :=
  { Database.fresh with
    grants := [⟨"g", ∅, "d", "1", "s", "p", "", "ONCE", 0, 0, true⟩]
    authorizations := [⟨"a", "e", "o", "1", "f", Message.of [("count", "1")], 0, false⟩]
    authorizationGrants := [⟨"a", "g"⟩] }

/-- The grant is not a candidate before its receipt is cleared; both go within one batch, and
some batch finds nothing to do. -/
theorem sampleUnusable_progress :
    reclaimable sampleUnusable .grants = [] ∧ (compactTables 0 sampleUnusable).2 = 2 ∧
      ∃ count ≤ 2, batchCount (nextBatch^[count] (sampleUnusable, 0)) = 0 := by
  have keyed : sampleUnusable.Keyed := by
    constructor <;> simp [sampleUnusable, Database.fresh]
  have counts : (outstandingRecords sampleUnusable).length = 2 := by decide
  obtain ⟨count, few, none, _⟩ :=
    (compaction_progress (σ := Profile.ProfileState) (ε := Profile.ProfileStep)
      sampleUnusable keyed 0).2.2.2.1
  exact ⟨by decide, by decide, count, counts ▸ few, none⟩

end Consent.Repository
