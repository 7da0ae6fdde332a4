import Consent.Guarantees.Import
import Consent.Offline.Writer

/-!
The spool never locks itself out.

A call first retires what an interrupted call left, so that there is at most one temporary file,
and it writes a new one only if the payload fits beside the records: the reader, which counts the
temporary file, finds the same limits kept that the writer checked without it.
-/
namespace Consent.Offline

/-! ### Sound spools -/

def records (files : Spool) : Spool := files.filter fun file => !pendingRegistrationName file.1

def temporaries (files : Spool) : Spool := files.filter fun file => pendingRegistrationName file.1

def spoolSize (files : Spool) : Nat := (files.map fun file => file.2.length).sum

/-- A file that the reader accepts. -/
structure IsRecord (codec : Codec) (file : String × List UInt8) : Prop where
  named : registrationName file.1 = true
  decodes : ∃ value, decodeRecord codec file.2 file.1 = .ok value

structure Sound (codec : Codec) (files : Spool) : Prop where
  distinct : (files.map Prod.fst).Nodup
  short : ∀ file ∈ files, file.2.length ≤ kMaxRegistrationFileBytes
  known : ∀ file ∈ files, pendingRegistrationName file.1 = true ∨ IsRecord codec file
  few : (records files).length ≤ kMaxRegistrations
  one : (temporaries files).length ≤ 1
  room : spoolSize files ≤ kMaxRegistrationBytes

variable {codec : Codec}

theorem length_pendingName {name : String} (h : pendingRegistrationName name = true) :
    name.toList.length = 45 := by
  simp only [pendingRegistrationName, Bool.and_eq_true, beq_iff_eq] at h
  exact h.1.1

theorem length_registrationName {name : String} (h : registrationName name = true) :
    name.toList.length = 71 := by
  simp only [registrationName, Bool.and_eq_true, beq_iff_eq] at h
  exact h.1.1

theorem not_pending {name : String} (h : registrationName name = true) :
    pendingRegistrationName name = false := by
  rw [← Bool.not_eq_true]
  intro pending
  have := length_pendingName pending
  have := length_registrationName h
  omega

/-- A file of the spool is not one of the two links of a directory. -/
theorem not_dots {name : String} (h : pendingRegistrationName name = true ∨ registrationName name = true) :
    ¬ (name = "." ∨ name = "..") := by
  have long : 45 ≤ name.toList.length := by
    rcases h with pending | named
    · exact (length_pendingName pending).ge
    · have := length_registrationName named
      omega
  rintro (rfl | rfl)
  · exact absurd long (by decide)
  · exact absurd long (by decide)

theorem Sound.sublist {files files' : Spool} (h : Sound codec files) (sub : files'.Sublist files) :
    Sound codec files' where
  distinct := h.distinct.sublist (sub.map _)
  short file member := h.short file (sub.subset member)
  known file member := h.known file (sub.subset member)
  few := (sub.filter _).length_le.trans h.few
  one := (sub.filter _).length_le.trans h.one
  room := ((sub.map _).sum_le_sum fun _ _ => Nat.zero_le _).trans h.room

theorem Sound.perm {files files' : Spool} (h : Sound codec files) (order : files'.Perm files) :
    Sound codec files' where
  distinct := (order.map _).nodup_iff.mpr h.distinct
  short file member := h.short file (order.mem_iff.mp member)
  known file member := h.known file (order.mem_iff.mp member)
  few := (order.filter _).length_eq.trans_le h.few
  one := (order.filter _).length_eq.trans_le h.one
  room := ((order.map _).sum_eq).trans_le h.room

theorem length_split (files : Spool) :
    files.length = (records files).length + (temporaries files).length := by
  induction files with
  | nil => rfl
  | cons file rest ih =>
    unfold records temporaries at ih ⊢
    rcases pending : pendingRegistrationName file.1
    · simp only [List.filter_cons, pending, Bool.not_false, if_true, Bool.false_eq_true, if_false,
        List.length_cons, ih]
      omega
    · simp only [List.filter_cons, pending, Bool.not_true, if_true, Bool.false_eq_true, if_false,
        List.length_cons, ih]
      omega

theorem Sound.entries {files : Spool} (h : Sound codec files) :
    files.length ≤ kMaxRegistrationEntries := by
  have := h.few
  have := h.one
  rw [length_split]
  unfold kMaxRegistrations at *
  unfold kMaxRegistrationEntries
  omega

/-! ### Scans -/

/-- What a scan has counted of the files so far. -/
structure Counted (s : Scan) (before : Spool) : Prop where
  entries : s.entryCount = before.length
  bytes : s.bytes = spoolSize before
  records : s.records.length = (records before).length

theorem Sound.scanEntry {files before after : Spool} {file : String × List UInt8}
    (h : Sound codec files) (whole : before ++ file :: after = files) {s : Scan}
    (counted : Counted s before) :
    ∃ s', scanEntry codec s (fileOf file) = .ok s' ∧ Counted s' (before ++ [file]) := by
  subst whole
  have here : file ∈ before ++ file :: after := by simp
  have upto : (before ++ [file]).Sublist (before ++ file :: after) := by simp
  have sound := h.sublist upto
  have entries : s.entryCount + 1 ≤ kMaxRegistrationEntries := by
    have := sound.entries
    rw [List.length_append, List.length_singleton] at this
    rw [counted.entries]
    exact this
  have size : spoolSize (before ++ [file]) = spoolSize before + file.2.length := by
    simp [spoolSize]
  have bytes : s.bytes + file.2.length ≤ kMaxRegistrationBytes := by
    rw [counted.bytes, ← size]
    exact sound.room
  have read : readFile (fileOf file) = .ok file.2 := by
    unfold readFile fileOf
    simp [require, h.short file here, bind, Except.bind, pure, Except.pure]
  rcases h.known file here with pending | ⟨named, value, decoded⟩
  · have turn : Turn codec s (fileOf file) ⟨s.entryCount + 1, s.bytes + file.2.length, s.records⟩ :=
      .pending (not_dots (.inl pending)) pending read entries bytes
    refine ⟨_, turn.scanEntry, ?_⟩
    refine ⟨by simp [counted.entries], by rw [size, counted.bytes], ?_⟩
    rw [counted.records]
    simp [Offline.records, pending]
  · have permanent := not_pending named
    have more : Offline.records (before ++ [file]) = Offline.records before ++ [file] := by
      simp [Offline.records, permanent]
    have fewer : s.records.length < kMaxRegistrations := by
      have := sound.few
      rw [more, List.length_append, List.length_singleton] at this
      rw [counted.records]
      exact this
    have turn : Turn codec s (fileOf file)
        ⟨s.entryCount + 1, s.bytes + file.2.length, s.records ++ [⟨file.1, value⟩]⟩ :=
      .record (not_dots (.inr named)) permanent named read decoded entries bytes fewer
    refine ⟨_, turn.scanEntry, ?_⟩
    refine ⟨by simp [counted.entries], by rw [size, counted.bytes], ?_⟩
    rw [more, List.length_append, List.length_append, counted.records]
    rfl

/-- The daemon can read a sound spool. -/
theorem Sound.scan {files : Spool} (h : Sound codec files) {directory : Directory}
    (complete : directory.complete = true) (listed : directory.files = files.map fileOf) :
    ∃ found, scan codec directory = .ok found := by
  have loop : ∀ after before s, before ++ after = files → Counted s before →
      ∃ s', (after.map fileOf).foldlM (Offline.scanEntry codec) s = .ok s' := by
    intro after
    induction after with
    | nil => exact fun _ s _ _ => ⟨s, rfl⟩
    | cons file after ih =>
      intro before s whole counted
      obtain ⟨mid, turn, next⟩ := h.scanEntry whole counted
      obtain ⟨s', rest⟩ := ih (before ++ [file]) mid (by simpa using whole) next
      refine ⟨s', ?_⟩
      rw [List.map_cons, List.foldlM_cons, turn]
      exact rest
  obtain ⟨s, run⟩ := loop files [] ⟨0, 0, []⟩ rfl ⟨rfl, rfl, rfl⟩
  refine ⟨s.records, ?_⟩
  unfold Offline.scan
  rw [listed, run]
  simp [complete, require, bind, Except.bind, pure, Except.pure]

theorem records_append (a b : Spool) : records (a ++ b) = records a ++ records b := List.filter_append ..

theorem records_records (files : Spool) : records (records files) = records files := by
  simp [records, List.filter_filter]

/-- One turn of the writer's scan. -/
theorem Sound.retireEntry {files before after : Spool} {file : String × List UInt8}
    (h : Sound codec files) (whole : before ++ file :: after = files) (a : Scan × Spool) :
    Passage.Spec
      (fun s => (Counted a.1 before ∧ a.2 = records before) ∧ s = records before ++ file :: after)
      (retireEntry codec a file) (fun t => Sound codec t ∧ records t = records files)
      (fun b s => (Counted b.1 (before ++ [file]) ∧ b.2 = records (before ++ [file])) ∧
        s = records (before ++ [file]) ++ after)
      fun _ _ => False := by
  refine .assume (fun s holds => holds.1) fun ⟨counted, stored⟩ => ?_
  obtain ⟨next, turn, counts⟩ := h.scanEntry whole counted
  unfold Offline.retireEntry
  refine .bind (M := fun scan s => scan = next ∧ s = records before ++ file :: after)
    (.lift ?_ ?_) fun scan => ?_
  · intro s made holds found
    rw [turn] at found
    exact ⟨(Except.ok.inj found).symm, holds.2⟩
  · intro s e holds found
    rw [turn] at found
    cases found
  · refine .assume (fun s holds => holds.1) fun same => ?_
    subst same
    have here : file ∈ files := by
      rw [← whole]
      simp
    refine .ite (fun pending => ?_) fun permanent => ?_
    · -- the names are distinct, so only this file goes
      have gone : (records before ++ file :: after).filter (fun other => decide (other.1 ≠ file.1)) =
          records before ++ after := by
        have distinct := h.distinct
        rw [← whole, List.map_append, List.map_cons, List.nodup_append] at distinct
        obtain ⟨_, right, apart⟩ := distinct
        rw [List.nodup_cons] at right
        rw [List.filter_append, List.filter_cons_of_neg (by simp), List.filter_eq_self.mpr,
          List.filter_eq_self.mpr]
        · intro other member
          rw [decide_eq_true_eq]
          intro same
          exact right.1 (same ▸ List.mem_map_of_mem member)
        · intro other member
          rw [decide_eq_true_eq]
          intro same
          exact apart other.1 (List.mem_map_of_mem (List.mem_filter.mp member).1) file.1
            List.mem_cons_self same
      have kept : records (before ++ [file]) = records before := by
        simp [records, pending]
      refine .bind (M := fun _ s => s = records before ++ after) (.enter ?_ ?_) fun _ => .pure ?_
      · rintro s ⟨_, rfl⟩
        rw [gone]
        constructor
        · refine h.sublist ?_
          rw [← whole]
          exact (List.filter_sublist).append (List.sublist_cons_self _ _)
        · rw [← whole, records_append, records_append, records_records]
          simp [records, pending]
      · rintro s ⟨_, rfl⟩
        exact gone
      · rintro s rfl
        exact ⟨⟨counts, stored.trans kept.symm⟩, by rw [kept]⟩
    · rcases h.known file here with pending | ⟨named, _⟩
      · exact absurd pending permanent
      · rw [if_pos named]
        have more : records (before ++ [file]) = records before ++ [file] := by
          simp [records, permanent]
        refine .pure ?_
        rintro s ⟨_, rfl⟩
        refine ⟨⟨counts, ?_⟩, ?_⟩
        · rw [stored, more]
        · rw [more, List.append_assoc]
          rfl

/-- The writer's scan leaves the records and returns them. -/
theorem Sound.retire {files : Spool} (h : Sound codec files) :
    Passage.Spec (fun s => s = files) (retire codec)
      (fun t => Sound codec t ∧ records t = records files)
      (fun stored s => stored = records files ∧ s = records files) fun _ _ => False := by
  unfold Offline.retire
  refine .bind (M := fun listed s => listed = files ∧ s = files) (.state ?_) fun listed => ?_
  · rintro s rfl
    exact ⟨rfl, rfl⟩
  · refine .assume (fun s holds => holds.1) fun same => ?_
    subst same
    have loop : Passage.Spec _ (listed.foldlM (Offline.retireEntry codec) (⟨0, 0, []⟩, []))
        (fun t => Sound codec t ∧ records t = records listed) _ fun _ _ => False :=
      .foldlM (fun before after a s => (Counted a.1 before ∧ a.2 = records before) ∧
        s = records before ++ after) fun before file after a whole => h.retireEntry whole a
    refine .bind (loop.weaken ?_ (fun _ holds => holds) (fun _ _ holds => holds) fun _ _ holds => holds)
      fun s => .pure ?_
    · rintro s ⟨_, rfl⟩
      exact ⟨⟨⟨rfl, rfl, rfl⟩, rfl⟩, rfl⟩
    · rintro t ⟨⟨_, stored⟩, rfl⟩
      exact ⟨stored, List.append_nil _⟩

/-! ### Calls -/

theorem mem_records {files : Spool} {file : String × List UInt8} :
    file ∈ records files ↔ file ∈ files ∧ pendingRegistrationName file.1 = false := by
  simp [records]

theorem writeFile_spec {base : Spool} {name : String} (fresh : ∀ file ∈ base, file.1 ≠ name)
    {C : Spool → Prop} (rest : List UInt8) : ∀ start : List UInt8,
    (∀ more, more <+: rest → C (base ++ [(name, start ++ more)])) →
    Passage.Spec (fun s => s = base ++ [(name, start)]) (writeFile name rest) C
      (fun _ s => s = base ++ [(name, start ++ rest)]) fun _ _ => False := by
  induction rest with
  | nil =>
    intro start _
    refine .pure ?_
    rintro s rfl
    rw [List.append_nil]
  | cons octet rest ih =>
    intro start way
    have grown : (base ++ [(name, start)]).map (fun file =>
        if file.1 = name then (file.1, file.2 ++ [octet]) else file) =
        base ++ [(name, start ++ [octet])] := by
      rw [List.map_append]
      congr 1
      · exact (List.map_congr_left fun file member => if_neg (fresh file member)).trans (List.map_id _)
      · simp
    refine .bind (M := fun _ s => s = base ++ [(name, start ++ [octet])]) (.enter ?_ ?_) fun _ => ?_
    · rintro s rfl
      rw [grown]
      exact way [octet] (by simp)
    · rintro s rfl
      exact grown
    · refine (ih (start ++ [octet]) fun more part => ?_).weaken (fun _ holds => holds)
        (fun _ holds => holds) (fun _ s holds => ?_) fun _ _ holds => holds
      · rw [List.append_assoc]
        exact way _ (by simpa using part)
      · rw [holds, List.append_assoc]
        rfl

theorem rename_last {base : Spool} {old new : String} {bytes : List UInt8}
    (fresh : ∀ file ∈ base, file.1 ≠ old) (absent : ∀ file ∈ base, file.1 ≠ new) :
    renameFile old new (base ++ [(old, bytes)]) = base ++ [(new, bytes)] := by
  have found : (base ++ [(old, bytes)]).find? (fun file => decide (file.1 = old)) =
      some (old, bytes) := by
    rw [List.find?_append, List.find?_eq_none.mpr]
    · simp
    · intro file member
      simpa using fresh file member
  have rest : (base ++ [(old, bytes)]).filter (fun other => decide (other.1 ≠ old ∧ other.1 ≠ new)) =
      base := by
    rw [List.filter_append, List.filter_eq_self.mpr]
    · simp
    · intro file member
      simpa using ⟨fresh file member, absent file member⟩
  unfold renameFile
  rw [found]
  dsimp only
  rw [rest]

/-- A registration that the writer accepts. -/
structure Payload (codec : Codec) (registration : Message) (file : String × List UInt8) : Prop where
  accepted : ∃ value, publicRegistration registration = .ok value ∧ recordName codec value = file.1 ∧
    recordPayload codec value = .ok file.2

section
variable {registration : Message} {uuid : String} {files : Spool} {file : String × List UInt8}

/-- A call with an accepted registration begins with the scan. -/
theorem Payload.register (given : Payload codec registration file) :
    register codec registration uuid = (do
      let records ← retire codec
      match records.find? fun record => record.1 = file.1 with
      | some record => Passage.require (record.2 = file.2) .changed
      | none =>
        Passage.require (records.length < kMaxRegistrations ∧
            (records.map fun record => record.2.length).sum + file.2.length ≤ kMaxRegistrationBytes)
          (.failure ⟨.enospc, "offline registration spool is full"⟩)
        Passage.enter fun files => files ++ [(temporaryName uuid, [])]
        writeFile (temporaryName uuid) file.2
        Passage.enter (renameFile (temporaryName uuid) file.1)) := by
  obtain ⟨value, accepted, named, written⟩ := given.accepted
  unfold Offline.register
  rw [accepted]
  change (do
    let payload ← (liftFailure (recordPayload codec value) : Passage Spool Rejection _)
    _) = _
  rw [written, ← named]
  rfl

/-- A call for an operation that the spool has a record of. -/
theorem Sound.register_found (h : Sound codec files) (uuid : String) (given : Payload codec registration file)
    {bytes : List UInt8} (held : (file.1, bytes) ∈ records files) :
    Passage.Spec (fun s => s = files) (register codec registration uuid)
      (fun t => Sound codec t ∧ records t = records files)
      (fun _ t => bytes = file.2 ∧ t = records files) fun e _ => bytes ≠ file.2 ∧ e = .changed := by
  rw [given.register]
  refine .bind (h.retire.weaken (fun _ holds => holds) (fun _ holds => holds)
    (fun _ _ holds => holds) fun _ _ holds => holds.elim) fun stored => ?_
  refine .assume (fun s holds => holds.1) fun same => ?_
  subst same
  have found : (records files).find? (fun record => decide (record.1 = file.1)) =
      some (file.1, bytes) := by
    rcases found : (records files).find? fun record => decide (record.1 = file.1) with _ | record
    · have missing := List.find?_eq_none.mp found _ held
      simp at missing
    · have name : record.1 = file.1 := by simpa using List.find?_some found
      have distinct : ((records files).map Prod.fst).Nodup := h.distinct.sublist (List.filter_sublist.map _)
      rw [found, List.inj_on_of_nodup_map distinct (List.mem_of_find?_eq_some found) held name]
  rw [found]
  dsimp only
  refine .require ?_ ?_
  · rintro s ⟨_, rfl⟩ same
    exact ⟨same, rfl⟩
  · intro s _ other
    exact ⟨other, rfl⟩

/-- A call for another operation. -/
theorem Sound.register_absent (h : Sound codec files) (given : Payload codec registration file)
    (valid : IsRecord codec file) (short : file.2.length ≤ kMaxRegistrationFileBytes)
    (random : pendingRegistrationName (temporaryName uuid) = true)
    (absent : ∀ record ∈ records files, record.1 ≠ file.1) :
    Passage.Spec (fun s => s = files) (register codec registration uuid)
      (fun t => Sound codec t ∧ ∀ record ∈ records files, record ∈ t)
      (fun _ t => t = records files ++ [file])
      fun _ _ => ¬ ((records files).length < kMaxRegistrations ∧
        spoolSize (records files) + file.2.length ≤ kMaxRegistrationBytes) := by
  have sound : Sound codec (records files) := h.sublist List.filter_sublist
  have fresh : ∀ record ∈ records files, record.1 ≠ temporaryName uuid := by
    rintro record member same
    have permanent := (mem_records.mp member).2
    rw [same, random] at permanent
    cases permanent
  have extended : ∀ (name : String) (bytes : List UInt8),
      (∀ record ∈ records files, record.1 ≠ name) →
      (pendingRegistrationName name = true ∨ IsRecord codec (name, bytes)) →
      bytes.length ≤ file.2.length → (records files).length < kMaxRegistrations →
      spoolSize (records files) + file.2.length ≤ kMaxRegistrationBytes →
      Sound codec (records files ++ [(name, bytes)]) := by
    intro name bytes apart known less few room
    have none : temporaries (records files) = [] := by
      simp [temporaries, records, List.filter_filter]
    refine ⟨?_, ?_, ?_, ?_, ?_, ?_⟩
    · rw [List.map_append, List.map_singleton, List.nodup_append]
      refine ⟨sound.distinct, List.nodup_singleton _, ?_⟩
      intro other member last same
      obtain ⟨record, inside, rfl⟩ := List.mem_map.mp member
      intro equal
      rw [List.mem_singleton.mp same] at equal
      exact apart record inside equal
    · intro record member
      rcases List.mem_append.mp member with old | new
      · exact sound.short record old
      · rw [List.mem_singleton.mp new]
        exact le_trans less short
    · intro record member
      rcases List.mem_append.mp member with old | new
      · exact sound.known record old
      · rw [List.mem_singleton.mp new]
        exact known
    · rw [records_append, List.length_append, records_records]
      have : (records [(name, bytes)]).length ≤ 1 := List.length_filter_le _ _
      omega
    · rw [temporaries, List.filter_append]
      change (temporaries (records files) ++ temporaries [(name, bytes)]).length ≤ 1
      rw [none, List.nil_append]
      exact List.length_filter_le _ _
    · have size : spoolSize (records files ++ [(name, bytes)]) =
          spoolSize (records files) + bytes.length := by simp [spoolSize]
      rw [size]
      omega
  rw [given.register]
  refine .bind (h.retire.weaken (fun _ holds => holds) ?_ (fun _ _ holds => holds)
    fun _ _ holds => holds.elim) fun stored => ?_
  · rintro t ⟨good, same⟩
    refine ⟨good, fun record member => ?_⟩
    rw [← same] at member
    exact (mem_records.mp member).1
  refine .assume (fun s holds => holds.1) fun same => ?_
  subst same
  have missing : (records files).find? (fun record => decide (record.1 = file.1)) = none := by
    rw [List.find?_eq_none]
    intro record member
    simpa using absent record member
  rw [missing]
  dsimp only
  refine .bind (M := fun _ s => ((records files).length < kMaxRegistrations ∧
    spoolSize (records files) + file.2.length ≤ kMaxRegistrationBytes) ∧ s = records files)
    (.require (fun s holds room => ⟨room, holds.2⟩) fun _ _ full => full) fun _ => ?_
  refine .assume (fun s holds => holds.1) fun ⟨few, room⟩ => ?_
  have keeps : ∀ last record, record ∈ records files → record ∈ records files ++ [last] :=
    fun _ _ member => List.mem_append_left _ member
  refine .bind (M := fun _ s => s = records files ++ [(temporaryName uuid, [])])
    (.enter ?_ ?_) fun _ => ?_
  · rintro s ⟨_, rfl⟩
    exact ⟨extended _ [] fresh (.inl random) (Nat.zero_le _) few room, keeps _⟩
  · rintro s ⟨_, rfl⟩
    rfl
  refine .bind ((writeFile_spec fresh file.2 [] ?_).weaken (fun _ holds => holds)
    (fun _ holds => holds) (fun _ _ holds => holds) fun _ _ holds => holds.elim) fun _ => ?_
  · intro more part
    exact ⟨extended _ more fresh (.inl random) part.length_le few room, keeps _⟩
  refine .enter ?_ ?_
  · rintro s rfl
    rw [rename_last fresh absent]
    exact ⟨extended file.1 file.2 absent (.inr valid) le_rfl few room, keeps _⟩
  · rintro s rfl
    rw [rename_last fresh absent]
    rfl

/-- A call with a registration that is not accepted changes nothing. -/
theorem register_invalid (uuid : String) (invalid : ¬ ∃ file, Payload codec registration file) :
    Passage.Spec (fun _ => True) (register codec registration uuid) (fun _ => False)
      (fun _ _ => False) fun _ _ => True := by
  unfold register
  refine .bind (M := fun value _ => publicRegistration registration = .ok value)
    (.lift ?_ fun _ _ _ _ => trivial) fun value => ?_
  · intro s value _ found
    rcases made : publicRegistration registration with e | p
    · rw [made] at found
      cases found
    · rw [made] at found
      cases found
      rfl
  · refine .assume (fun s holds => holds) fun accepted => ?_
    refine .bind (M := fun _ _ => False) (.lift ?_ fun _ _ _ _ => trivial) fun _ =>
      .assume (fun s holds => holds) False.elim
    intro s payload _ found
    rcases written : recordPayload codec value with e | bytes
    · rw [written] at found
      cases found
    · exact invalid ⟨(recordName codec value, bytes), ⟨value, accepted, rfl, written⟩⟩

end

section
variable {sha256 : List UInt8 → String} {registration : Message} {uuid : String}
  {file : String × List UInt8}

/-- What the writer accepts the reader accepts. -/
theorem Payload.isRecord (hex : Hexadecimal sha256)
    (given : Payload (wireCodec sha256) registration file) :
    IsRecord (wireCodec sha256) file ∧ file.2.length ≤ kMaxRegistrationFileBytes := by
  obtain ⟨value, accepted, named, written⟩ := given.accepted
  obtain ⟨registrable, rfl⟩ := publicRegistration_eq_ok.mp accepted
  have decoded := decodeRecord_payload hex registrable.erase.1 written
  rw [named] at decoded
  refine ⟨⟨?_, _, decoded⟩, (recordPayload_ok written).2.2.2.2⟩
  rw [← named]
  exact (hex.valid _).2.1

theorem Payload.name (given : Payload codec registration file) :
    file.1 = codec.sha256 (registration.get "operation_id").toUTF8.toList ++ ".parcel" := by
  obtain ⟨value, accepted, named, _⟩ := given.accepted
  obtain ⟨_, rfl⟩ := publicRegistration_eq_ok.mp accepted
  rw [← named, recordName, get_erase_method registration (by decide)]

/-- What a call keeps wherever it is cut, and what it has done when it returns 0. -/
theorem Sound.register (hex : Hexadecimal sha256) {files : Spool}
    (h : Sound (wireCodec sha256) files) (registration : Message)
    (random : pendingRegistrationName (temporaryName uuid) = true) :
    (∀ t ∈ (Offline.register (wireCodec sha256) registration uuid).cuts files,
      Sound (wireCodec sha256) t ∧ ∀ record ∈ records files, record ∈ t) ∧
    ((Offline.register (wireCodec sha256) registration uuid files).2 = .ok () →
      ∃ file, Payload (wireCodec sha256) registration file ∧
        file ∈ (Offline.register (wireCodec sha256) registration uuid).final files) := by
  have here : Sound (wireCodec sha256) files ∧ ∀ record ∈ records files, record ∈ files :=
    ⟨h, fun record member => (mem_records.mp member).1⟩
  by_cases valid : ∃ file, Payload (wireCodec sha256) registration file
  · obtain ⟨file, given⟩ := valid
    by_cases held : ∃ bytes, (file.1, bytes) ∈ records files
    · obtain ⟨bytes, held⟩ := held
      have spec := h.register_found uuid given held
      refine ⟨fun t member => ?_, fun result => ⟨file, given, ?_⟩⟩
      · obtain ⟨sound, same⟩ := spec.along rfl ⟨h, rfl⟩ member
        refine ⟨sound, fun record member => ?_⟩
        rw [← same] at member
        exact (mem_records.mp member).1
      · obtain ⟨same, final⟩ := spec.returned rfl result
        rw [final, ← Prod.eta file, ← same]
        exact held
    · have absent : ∀ record ∈ records files, record.1 ≠ file.1 := by
        rintro ⟨name, bytes⟩ member rfl
        exact held ⟨bytes, member⟩
      obtain ⟨isRecord, short⟩ := given.isRecord hex
      have spec := h.register_absent given isRecord short random absent
      refine ⟨fun t member => spec.along rfl here member, fun result => ⟨file, given, ?_⟩⟩
      rw [spec.returned rfl result]
      simp
  · have spec := register_invalid uuid valid
    refine ⟨fun t member => ?_, fun result => (spec.returned trivial result).elim⟩
    rcases List.mem_cons.mp member with rfl | later
    · exact here
    · exact ((spec files trivial).1 t later).elim

/-- One call. -/
theorem Call.keeps (hex : Hexadecimal sha256) {files files' : Spool} {registered : Bool}
    (h : Sound (wireCodec sha256) files)
    (random : pendingRegistrationName (temporaryName uuid) = true)
    (call : Call (wireCodec sha256) registration uuid files files' registered) :
    Sound (wireCodec sha256) files' ∧ (∀ record ∈ records files, record ∈ files') ∧
      (registered = true → ∃ file, Payload (wireCodec sha256) registration file ∧ file ∈ files') := by
  obtain ⟨along, returned⟩ := h.register hex registration random
  cases call with
  | finished result =>
    have last : (Offline.register (wireCodec sha256) registration uuid).final files ∈
        (Offline.register (wireCodec sha256) registration uuid).cuts files := by
      unfold Passage.final Passage.cuts
      rw [List.getLastD_eq_getLast?]
      rcases ending : (Offline.register (wireCodec sha256) registration uuid files).1.getLast? with _ | t
      · exact List.mem_cons_self
      · exact List.mem_cons_of_mem _ (List.mem_of_getLast? ending)
    obtain ⟨sound, kept⟩ := along _ last
    exact ⟨sound, kept, fun _ => returned result⟩
  | cut member =>
    obtain ⟨sound, kept⟩ := along _ member
    exact ⟨sound, kept, fun none => (by cases none)⟩
  | failed member =>
    obtain ⟨sound, kept⟩ := along _ member
    refine ⟨sound.sublist List.filter_sublist, fun record old => ?_, fun none => (by cases none)⟩
    refine List.mem_filter.mpr ⟨kept record old, ?_⟩
    rw [decide_eq_true_eq]
    intro same
    have permanent := (mem_records.mp old).2
    rw [same, random] at permanent
    cases permanent

/-- Any number of calls. -/
theorem Calls.keeps (hex : Hexadecimal sha256) {done : List Message} {files : Spool}
    (calls : Calls (wireCodec sha256) done files) :
    Sound (wireCodec sha256) files ∧
      ∀ v ∈ done, ∃ file, Payload (wireCodec sha256) v file ∧ file ∈ files := by
  induction calls with
  | start =>
    refine ⟨⟨List.nodup_nil, ?_, ?_, Nat.zero_le _, Nat.zero_le _, Nat.zero_le _⟩, ?_⟩
    · intro file member
      cases member
    · intro file member
      cases member
    · intro v member
      cases member
  | @call done files listed files' registered earlier order registration uuid random called ih =>
    obtain ⟨sound, present⟩ := ih
    obtain ⟨after, kept, new⟩ := called.keeps hex (sound.perm order) random
    have old : ∀ v ∈ done, ∃ file, Payload (wireCodec sha256) v file ∧ file ∈ files' := by
      intro v member
      obtain ⟨file, given, held⟩ := present v member
      refine ⟨file, given, kept file (mem_records.mpr ⟨order.mem_iff.mpr held, ?_⟩)⟩
      exact not_pending (given.isRecord hex).1.named
    refine ⟨after, fun v member => ?_⟩
    split at member
    · rename_i success
      rcases List.mem_cons.mp member with rfl | before
      · exact new success
      · exact old v before
    · exact old v member

/-- After any number of calls, each finished, failed or cut short anywhere, the spool is within
its limits, the daemon and the writer can read it, and what was registered is there. Registering
it again returns 0 and only retires what an interrupted call left; registering something else
under its operation is refused, and no record changes. -/
theorem spool_never_locks_out (hex : Hexadecimal sha256) {done : List Message} {files : Spool}
    (calls : Calls (wireCodec sha256) done files) :
    (records files).length ≤ 128 ∧ (temporaries files).length ≤ 1 ∧
    spoolSize files ≤ 4 * 1024 * 1024 ∧
    (∀ directory : Directory, directory.complete = true →
      (∃ listed : Spool, listed.Perm files ∧ directory.files = listed.map fileOf) →
      ∃ found, scan (wireCodec sha256) directory = .ok found) ∧
    (∀ listed : Spool, listed.Perm files →
      (retire (wireCodec sha256) listed).2 = .ok (records listed) ∧
      (retire (wireCodec sha256)).final listed = records listed) ∧
    (∀ v ∈ done, ∃ file, Payload (wireCodec sha256) v file ∧ file ∈ files ∧
      ∀ listed : Spool, listed.Perm files → ∀ uuid,
        (Offline.register (wireCodec sha256) v uuid listed).2 = .ok () ∧
        (Offline.register (wireCodec sha256) v uuid).final listed = records listed ∧
        ∀ t ∈ (Offline.register (wireCodec sha256) v uuid).cuts listed, records t = records listed) ∧
    ∀ registration file, Payload (wireCodec sha256) registration file →
      ∀ held ∈ files, ∀ value, decodeRecord (wireCodec sha256) held.2 held.1 = .ok value →
      value.get "operation_id" = registration.get "operation_id" → held.2 ≠ file.2 →
      ∀ listed : Spool, listed.Perm files → ∀ uuid,
        (Offline.register (wireCodec sha256) registration uuid listed).2 = .error .changed ∧
        ∀ t ∈ (Offline.register (wireCodec sha256) registration uuid).cuts listed,
          records t = records listed := by
  obtain ⟨sound, present⟩ := calls.keeps hex
  refine ⟨sound.few, sound.one, sound.room, ?_, ?_, ?_, ?_⟩
  · rintro directory complete ⟨listed, order, same⟩
    exact (sound.perm order).scan complete same
  · intro listed order
    have spec := (sound.perm order).retire
    rcases result : (retire (wireCodec sha256) listed).2 with e | stored
    · exact (spec.threw rfl result).elim
    · obtain ⟨rfl, final⟩ := spec.returned rfl result
      exact ⟨rfl, final⟩
  · intro v member
    obtain ⟨file, given, held⟩ := present v member
    refine ⟨file, given, held, fun listed order uuid => ?_⟩
    have inside : (file.1, file.2) ∈ records listed :=
      mem_records.mpr ⟨order.mem_iff.mpr held, not_pending (given.isRecord hex).1.named⟩
    have spec := (sound.perm order).register_found uuid given inside
    have along := fun t (member : t ∈ (Offline.register (wireCodec sha256) v uuid).cuts listed) =>
      (spec.along rfl ⟨sound.perm order, rfl⟩ member).2
    rcases result : (Offline.register (wireCodec sha256) v uuid listed).2 with e | u
    · exact absurd rfl (spec.threw rfl result).1
    · exact ⟨rfl, (spec.returned rfl result).2, along⟩
  · intro registration file given held present value decoded same other listed order uuid
    have inside : (file.1, held.2) ∈ records listed := by
      rw [given.name, ← same, ← recordName, decodeRecord_name decoded]
      refine mem_records.mpr ⟨order.mem_iff.mpr present, not_pending ?_⟩
      rw [← decodeRecord_name decoded]
      exact (hex.valid _).2.1
    have spec := (sound.perm order).register_found uuid given inside
    have along := fun t
        (member : t ∈ (Offline.register (wireCodec sha256) registration uuid).cuts listed) =>
      (spec.along rfl ⟨sound.perm order, rfl⟩ member).2
    rcases result : (Offline.register (wireCodec sha256) registration uuid listed).2 with e | u
    · exact ⟨by rw [(spec.threw rfl result).2], along⟩
    · exact absurd (spec.returned rfl result).1 other

end

def sampleUuid : String := "01234567-0123-0123-0123-0123456789ab"

/-- The payload of a registration whose checks succeed. -/
theorem payload_of_ok (codec : Codec) (registration : Message)
    (accepted : (publicRegistration registration).isOk = true)
    (written : (recordPayload codec (registration.erase "method")).isOk = true) :
    ∃ bytes, Payload codec registration (recordName codec registration, bytes) := by
  obtain ⟨_, given⟩ := Except.of_isOk accepted
  obtain ⟨_, rfl⟩ := publicRegistration_eq_ok.mp given
  obtain ⟨bytes, made⟩ := Except.of_isOk written
  refine ⟨bytes, ⟨_, given, ?_, made⟩⟩
  rw [recordName, get_erase_method registration (by decide), recordName]

/-- One registration is written, and the call for another one is cut short behind the creation of
its temporary file. -/
theorem sample_interrupted : ∃ file : String × List UInt8,
    Calls (wireCodec sampleNames) [sampleRegistration] [file, (temporaryName sampleUuid, [])] ∧
      pendingRegistrationName file.1 = false := by
  have random : pendingRegistrationName (temporaryName sampleUuid) = true := by decide
  obtain ⟨bytes, given⟩ := payload_of_ok (wireCodec sampleNames) sampleRegistration
    (by decide +kernel) (by decide +kernel)
  obtain ⟨others, other⟩ := payload_of_ok (wireCodec sampleNames) otherRegistration
    (by decide +kernel) (by decide +kernel)
  obtain ⟨isRecord, short⟩ := given.isRecord sampleNames_hexadecimal
  have brief : others.length ≤ kMaxRegistrationFileBytes := (other.isRecord sampleNames_hexadecimal).2
  have permanent := not_pending isRecord.named
  set file : String × List UInt8 := (recordName (wireCodec sampleNames) sampleRegistration, bytes)
    with isFile
  have apart : file.1 ≠ recordName (wireCodec sampleNames) otherRegistration := by
    change recordName (wireCodec sampleNames) sampleRegistration ≠ _
    decide +kernel
  have empty := (Calls.keeps sampleNames_hexadecimal .start).1
  have first := empty.register_absent given isRecord short random (by simp [records])
  have result : (Offline.register (wireCodec sampleNames) sampleRegistration sampleUuid []).2 = .ok () := by
    rcases result : (Offline.register (wireCodec sampleNames) sampleRegistration sampleUuid []).2 with e | u
    · refine absurd ⟨by decide, ?_⟩ (first.threw rfl result)
      change 0 + file.2.length ≤ kMaxRegistrationBytes
      rw [Nat.zero_add]
      exact le_trans short (by decide)
    · rfl
  have written := Calls.call .start (.refl _) sampleRegistration sampleUuid random (.finished result)
  rw [first.returned rfl result] at written
  change Calls _ [sampleRegistration] [file] at written
  have alone : records [file] = [file] := by simp [records, permanent]
  have sound := (Calls.keeps sampleNames_hexadecimal written).1
  have scanned := sound.retire
  have retired : (retire (wireCodec sampleNames) [file]).2 = .ok [file] := by
    rcases found : (retire (wireCodec sampleNames) [file]).2 with e | stored
    · exact (scanned.threw rfl found).elim
    · rw [(scanned.returned rfl found).1, alone]
  have final : (retire (wireCodec sampleNames)).final [file] = [file] := by
    rw [(scanned.returned rfl retired).2, alone]
  have missing : [file].find? (fun record =>
      decide (record.1 = recordName (wireCodec sampleNames) otherRegistration)) = none := by
    simp [apart]
  refine ⟨file, Calls.call written (.refl _) otherRegistration sampleUuid random (.cut ?_), permanent⟩
  refine List.mem_cons_of_mem _ ?_
  rw [other.register]
  refine Passage.mem_bind_right retired ?_
  rw [final]
  dsimp only
  rw [missing]
  dsimp only
  have room : [file].length < kMaxRegistrations ∧
      ([file].map fun record => record.2.length).sum + others.length ≤ kMaxRegistrationBytes := by
    refine ⟨show 1 < kMaxRegistrations by decide, ?_⟩
    have limits : kMaxRegistrationFileBytes + kMaxRegistrationFileBytes ≤ kMaxRegistrationBytes := by
      decide
    simp only [List.map_cons, List.map_nil, List.sum_cons, List.sum_nil, Nat.add_zero]
    omega
  refine Passage.mem_bind_right (a := ()) (if_pos room) ?_
  refine Passage.mem_bind_left ?_
  exact List.mem_singleton_self _

/-- The call that is repeated then retires the temporary file. -/
theorem repeated_call_retires : ∃ (done : List Message) (files : Spool),
    Calls (wireCodec sampleNames) done files ∧ ∃ v ∈ done,
      (Offline.register (wireCodec sampleNames) v sampleUuid files).2 = .ok () ∧
      (Offline.register (wireCodec sampleNames) v sampleUuid).final files ≠ files := by
  obtain ⟨file, calls, permanent⟩ := sample_interrupted
  obtain ⟨sound, present⟩ := calls.keeps sampleNames_hexadecimal
  refine ⟨_, _, calls, _, List.mem_singleton_self _, ?_⟩
  obtain ⟨record, given, held⟩ := present _ (List.mem_singleton_self _)
  have inside : (record.1, record.2) ∈ records [file, (temporaryName sampleUuid, [])] :=
    mem_records.mpr ⟨held, not_pending (given.isRecord sampleNames_hexadecimal).1.named⟩
  have spec := sound.register_found sampleUuid given inside
  rcases result : (Offline.register (wireCodec sampleNames) sampleRegistration sampleUuid
      [file, (temporaryName sampleUuid, [])]).2 with e | u
  · exact absurd rfl (spec.threw rfl result).1
  · refine ⟨rfl, ?_⟩
    rw [(spec.returned rfl result).2]
    intro same
    have gone : (temporaryName sampleUuid, []) ∈ records [file, (temporaryName sampleUuid, [])] := by
      rw [same]
      simp
    exact absurd (mem_records.mp gone).2 (by decide)

/-- The interrupted spool is readable and keeps its record. -/
theorem spool_in_sample : ∃ file : String × List UInt8,
    Calls (wireCodec sampleNames) [sampleRegistration] [file, (temporaryName sampleUuid, [])] ∧
      (temporaries [file, (temporaryName sampleUuid, [])]).length ≤ 1 ∧
      (Offline.register (wireCodec sampleNames) sampleRegistration sampleUuid
        [file, (temporaryName sampleUuid, [])]).2 = .ok () := by
  obtain ⟨file, calls, permanent⟩ := sample_interrupted
  obtain ⟨_, one, _, _, _, present, _⟩ := spool_never_locks_out sampleNames_hexadecimal calls
  obtain ⟨_, _, _, again⟩ := present _ (List.mem_singleton_self _)
  exact ⟨file, calls, one, (again _ (.refl _) sampleUuid).1⟩

end Consent.Offline
