import Consent.Guarantees.Installations

/-!
The tool and the daemon share a limit on the number of groups in the inventory. The tool
checks it before it knows how many groups the command adds, so that the inventory it leaves
is readable exactly when the new groups fit.
-/
namespace Consent.Authority
open KeyFile (Groups value set setWhere value_set value_setWhere)

/-- The groups that a command creates: that of the operation, and that of the package or the
application it is about. A recorded operation creates none. -/
def created (file : Groups) (r : Request) : List String :=
  if value file (operationKey r.operation) "fingerprint" ≠ "" then []
  else (operationKey r.operation :: match r.command with
    | .begin => [packageKey r.package]
    | .attach => [r.app]
    | _ => []).filter fun group => decide (group ∉ file)

/-! ### Readable inventories -/

structure Readable (file : Groups) : Prop where
  size : 0 < dataSize file ∧ dataSize file ≤ kMaxSize
  schema : value file "authority" "schema" = "1"
  few : file.size ≤ 4096
  groups : ∀ group ∈ file, groupValid file group = true

variable {n : Nat} {group : String} {r : Request} {file : Groups}

theorem readOfflineAuthority_iff : readOfflineAuthority file = true ↔ Readable file := by
  simp only [readOfflineAuthority, Bool.and_eq_true, decide_eq_true_eq, beq_iff_eq, List.all_eq_true,
    Std.ExtTreeMap.mem_keys]
  constructor
  · rintro ⟨⟨⟨⟨positive, small⟩, schema⟩, few⟩, groups⟩
    exact ⟨⟨positive, small⟩, schema, few, groups⟩
  · rintro ⟨⟨positive, small⟩, schema, few, groups⟩
    exact ⟨⟨⟨⟨positive, small⟩, schema⟩, few⟩, groups⟩

theorem isEmpty_eq_false {text : String} : text.isEmpty = false ↔ text ≠ "" := by
  rw [Bool.eq_false_iff, ne_eq, String.isEmpty_iff]

/-- A generation that can be read back. -/
def Generation (text : String) : Prop := text ≠ "" ∧ text.utf8ByteSize ≤ 128

theorem groupValid_iff : groupValid file group = true ↔
    group = "authority" ∨ Generation (value file group "generation") ∧
      if beginsWith group "operation " = true then
        10 < group.utf8ByteSize ∧ value file group "fingerprint" ≠ ""
      else knownState (value file group "state") = true ∧
        if beginsWith group "package " = true then 8 < group.utf8ByteSize ∧ group.utf8ByteSize ≤ 263
        else (group ≠ "" ∧ group.utf8ByteSize ≤ 255) ∧
          value file group "package" ≠ "" ∧ (value file group "package").utf8ByteSize ≤ 255 := by
  unfold groupValid Generation
  split_ifs <;>
    simp only [Bool.or_eq_true, beq_iff_eq, Bool.and_eq_true, Bool.not_eq_true', decide_eq_true_eq,
      isEmpty_eq_false, and_assoc]

/-- A group stays valid when at most its state changes, to a known one. -/
theorem groupValid.keep {file file' : Groups} (h : groupValid file group = true)
    (same : ∀ key, key ≠ "state" → value file' group key = value file group key)
    (state : value file' group "state" = value file group "state" ∨
      knownState (value file' group "state") = true) : groupValid file' group = true := by
  rw [groupValid_iff] at h ⊢
  rw [same "generation" (by decide), same "fingerprint" (by decide), same "package" (by decide)]
  refine h.imp_right fun ⟨generation, rest⟩ => ⟨generation, ?_⟩
  split at rest
  · rename_i operation
    rw [if_pos operation]
    exact rest
  · rename_i operation
    rw [if_neg operation]
    refine ⟨?_, rest.2⟩
    rcases state with unchanged | known
    · rw [unchanged]
      exact rest.1
    · exact known

/-! ### Names -/

theorem beginsWith_iff {group head : String} :
    beginsWith group head = true ↔ head.toList <+: group.toList := by
  unfold beginsWith
  rw [List.isPrefixOf_iff_prefix]

theorem beginsWith_packageKey (package : String) :
    beginsWith (packageKey package) "package " = true ∧
      beginsWith (packageKey package) "operation " = false := by
  constructor
  · rw [beginsWith_iff, packageKey, String.toList_append]
    exact List.prefix_append _ _
  · rw [beginsWith, packageKey, String.toList_append]
    rfl

theorem beginsWith_operationKey (operation : String) :
    beginsWith (operationKey operation) "operation " = true := by
  rw [beginsWith_iff, operationKey, String.toList_append]
  exact List.prefix_append _ _

theorem beginsWith_plain {group head : String} (plain : ' ' ∉ group.toList) (space : ' ' ∈ head.toList) :
    beginsWith group head = false := by
  rw [Bool.eq_false_iff, ne_eq, beginsWith_iff]
  intro begins
  exact plain (begins.subset space)

theorem packageKey_ne_authority (package : String) : packageKey package ≠ "authority" :=
  Ne.symm (ne_of_plain (by decide) (space_mem_packageKey package))

theorem operationKey_ne_authority (operation : String) : operationKey operation ≠ "authority" :=
  Ne.symm (ne_of_plain (by decide) (space_mem_operationKey operation))

theorem Readable.package {package : String} (h : Readable file) (known : packageKey package ∈ file)
    : Generation (value file (packageKey package) "generation") := by
  have valid := groupValid_iff.mp (h.groups _ known)
  exact (valid.resolve_left (packageKey_ne_authority package)).1

/-! ### The inventory that a command leaves -/

/-- The group that a command is about, if it creates one. -/
def Request.target (r : Request) : Option String :=
  match r.command with
  | .begin => some (packageKey r.package)
  | .attach => some r.app
  | _ => none

theorem retire_groups (package : String) {file opened : Groups}
    (known : ∀ group ∈ file, group ∈ opened) :
    (∀ group, group ∈ retire package file.keys opened ↔ group ∈ opened) ∧
      (retire package file.keys opened).size = opened.size := by
  have all : ∀ group ∈ file.keys, group ∈ opened := fun group member =>
    known group (Std.ExtTreeMap.mem_keys.mp member)
  exact ⟨fun group => KeyFile.mem_setWhere all, KeyFile.size_setWhere all⟩

/-- How many groups there are after a command. -/
theorem Performs.groups {file changed : Groups} {uuid generation : String}
    (h : Performs file r uuid generation changed) :
    (∀ group, group ∈ changed ↔ r.target = some group ∨ group ∈ file) ∧
      changed.size = match r.target with
        | some group => if group ∈ file then file.size else file.size + 1
        | none => file.size := by
  rcases h.cases with ⟨command, rfl, rfl⟩ | ⟨command, rfl, pending, _, rfl⟩ |
    ⟨command, rfl, pending, rfl⟩ | ⟨command, rfl, present, rfl⟩
  · have kept : ∀ group ∈ file, group ∈ set (set file (packageKey r.package) "generation" generation)
        (packageKey r.package) "state" "pending" :=
      fun group member => KeyFile.mem_set.mpr (.inr (KeyFile.mem_set.mpr (.inr member)))
    obtain ⟨members, size⟩ := retire_groups r.package kept
    rw [size]
    simp only [members, Request.target, command, KeyFile.mem_set, KeyFile.size_set, Option.some.injEq,
      true_or, ↓reduceIte, ← or_assoc, or_self, implies_true, and_self]
  · simp only [Request.target, command, KeyFile.mem_set, KeyFile.size_set, Option.some.injEq,
      true_or, ↓reduceIte, ← or_assoc, or_self, implies_true, and_self]
  · have known : packageKey r.package ∈ file := KeyFile.mem_of_value (pending.trans_ne (by decide))
    have all : ∀ group ∈ file.keys, group ∈ file := fun group => Std.ExtTreeMap.mem_keys.mp
    simp only [Request.target, command, KeyFile.mem_set, KeyFile.size_set, KeyFile.mem_setWhere all,
      KeyFile.size_setWhere all, known, ↓reduceIte, reduceCtorEq, false_or, and_true]
    intro group
    exact or_iff_right_of_imp fun same => same ▸ known
  · have known : packageKey r.package ∈ file := KeyFile.mem_of_value present
    have kept : ∀ group ∈ file, group ∈ set file (packageKey r.package) "state" "removed" :=
      fun group member => KeyFile.mem_set.mpr (.inr member)
    obtain ⟨members, size⟩ := retire_groups r.package kept
    rw [size]
    simp only [members, Request.target, command, KeyFile.mem_set, KeyFile.size_set, known, ↓reduceIte,
      reduceCtorEq, false_or, and_true]
    intro group
    exact or_iff_right_of_imp fun same => same ▸ known

theorem groupValid_package {package : String} (named : package ≠ "")
    (short : package.utf8ByteSize ≤ 255)
    (generation : Generation (value file (packageKey package) "generation"))
    (state : knownState (value file (packageKey package) "state") = true) :
    groupValid file (packageKey package) = true := by
  obtain ⟨begins, other⟩ := beginsWith_packageKey package
  have positive : 0 < package.utf8ByteSize := by
    rw [Nat.pos_iff_ne_zero, ne_eq, String.utf8ByteSize_eq_zero_iff]
    exact named
  have size : (packageKey package).utf8ByteSize = 8 + package.utf8ByteSize := by
    rw [packageKey, String.utf8ByteSize_append]
    rfl
  refine groupValid_iff.mpr (.inr ⟨generation, ?_⟩)
  rw [other, begins, if_neg (by decide), if_pos rfl]
  exact ⟨state, by omega, by omega⟩

/-- The generation that a command reports can be read back. -/
theorem Performs.reported {file changed : Groups} {uuid generation : String}
    (h : Performs file r uuid generation changed) (readable : Readable file)
    (drawn : Generation uuid) : Generation generation := by
  rcases h.cases with ⟨_, rfl, _⟩ | ⟨_, rfl, pending, _, _⟩ | ⟨_, rfl, pending, _⟩ |
    ⟨_, rfl, present, _⟩
  · exact drawn
  · exact readable.package (KeyFile.mem_of_value (pending.trans_ne (by decide)))
  · exact readable.package (KeyFile.mem_of_value (pending.trans_ne (by decide)))
  · exact readable.package (KeyFile.mem_of_value present)

/-- After `begin` and `remove`: the package is in a known state, and so is every other group. -/
theorem retire_valid {package : String} {file opened : Groups} (readable : Readable file)
    (named : package ≠ "") (short : package.utf8ByteSize ≤ 255)
    (frame : ∀ group key, group ≠ packageKey package ∨ key = "package" →
      value opened group key = value file group key)
    (generation : Generation (value opened (packageKey package) "generation"))
    (state : knownState (value opened (packageKey package) "state") = true)
    (known : group = packageKey package ∨ group ∈ file) :
    groupValid (retire package file.keys opened) group = true := by
  have all : ∀ group, value opened group "package" = package → group ∈ file.keys :=
    fun group owned => mem_keys_of_owner named ((frame group "package" (.inr rfl)).symm.trans owned)
  have retired := value_retire (keys_nodup file) all
  by_cases here : group = packageKey package
  · subst here
    refine groupValid_package named short ?_ ?_
    · rw [retired, if_neg (by simp)]
      exact generation
    · rw [retired]
      split
      · rfl
      · exact state
  · refine groupValid.keep (readable.groups group (known.resolve_left here)) (fun key unstated => ?_) ?_
    · rw [retired, if_neg fun both => unstated both.2, frame group key (.inl here)]
    · rw [retired]
      split
      · exact .inr rfl
      · exact .inl (frame group _ (.inl here))

theorem Performs.valid {file changed : Groups} {uuid generation : String}
    (h : Performs file r uuid generation changed) (valid : r.valid = true)
    (readable : Readable file) (drawn : Generation uuid) (known : group ∈ changed) :
    groupValid changed group = true := by
  have reported := h.reported readable drawn
  rw [h.groups.1] at known
  simp only [Request.valid, Bool.and_eq_true] at valid
  obtain ⟨⟨⟨package, app⟩, _⟩, _⟩ := valid
  obtain ⟨named, short, _⟩ := identifier_plain package
  rcases h.cases with ⟨command, rfl, rfl⟩ | ⟨command, current, pending, _, rfl⟩ |
    ⟨command, current, pending, rfl⟩ | ⟨command, current, present, rfl⟩
  · refine retire_valid readable named short (fun group key apart => ?_) ?_ ?_ ?_
    · simp only [value_set]
      grind
    · simpa [value_set] using reported
    · simp [value_set, knownState]
    · simpa [Request.target, command, eq_comm] using known
  · rw [if_pos command] at app
    obtain ⟨_, appShort, plain⟩ := identifier_plain app
    by_cases here : r.app = group
    · subst here
      rw [groupValid_iff, beginsWith_plain plain (by decide), beginsWith_plain plain (by decide)]
      simp [value_set, reported, knownState, named, short, appShort, (identifier_plain app).1]
    · have member : group ∈ file := known.resolve_left (by
        simpa [Request.target, command] using here)
      refine groupValid.keep (readable.groups group member) (fun key _ => ?_) (.inl ?_)
      · simp [value_set, here]
      · simp [value_set, here]
  · have member : group ∈ file := known.resolve_left (by simp [Request.target, command])
    refine groupValid.keep (readable.groups group member) (fun key unstated => ?_) ?_
    · rw [value_set, if_neg fun both => unstated both.2.symm, value_setWhere (keys_nodup file),
        if_neg fun both => unstated both.2.symm]
    · rw [value_set]
      split
      · exact .inr rfl
      · rw [value_setWhere (keys_nodup file)]
        split
        · exact .inr rfl
        · exact .inl rfl
  · have member : packageKey r.package ∈ file := KeyFile.mem_of_value (current ▸ present)
    refine retire_valid readable named short (fun group key apart => ?_) ?_ ?_ ?_
    · simp only [value_set]
      grind
    · rw [value_set, if_neg (by simp), ← current]
      exact reported
    · simp [value_set, knownState]
    · exact .inr (known.resolve_left (by simp [Request.target, command]))

/-- A readable inventory has the group of the authority and no unrecorded operation. -/
theorem Readable.authority (h : Readable file) : "authority" ∈ file :=
  KeyFile.mem_of_value (h.schema.trans_ne (by decide))

theorem Readable.operation (h : Readable file) {operation : String}
    (fresh : value file (operationKey operation) "fingerprint" = "") :
    operationKey operation ∉ file := by
  intro known
  have valid := (groupValid_iff.mp (h.groups _ known)).resolve_left (operationKey_ne_authority operation)
  rw [if_pos (beginsWith_operationKey operation)] at valid
  exact valid.2.2 fresh

theorem Request.target_ne (valid : r.valid = true) (target : r.target = some group) :
    operationKey r.operation ≠ group := by
  obtain ⟨_, plain⟩ := Request.names valid
  unfold Request.target at target
  split at target
  · cases target
    exact Ne.symm (packageKey_ne_operationKey _ _)
  · rename_i command
    cases target
    exact Ne.symm (ne_of_plain (plain command) (space_mem_operationKey _))
  · cases target

theorem mem_record {generation group : String} :
    group ∈ record file r generation ↔
      operationKey r.operation = group ∨ "authority" = group ∨ group ∈ file := by
  simp only [record, KeyFile.mem_set, ← or_assoc, or_self]

theorem Performs.size {file changed : Groups} {uuid generation : String}
    (h : Performs file r uuid generation changed) (valid : r.valid = true)
    (readable : Readable file) :
    (record changed r generation).size = file.size + (created file r).length := by
  obtain ⟨members, size⟩ := h.groups
  have authority : "authority" ∈ changed := (members _).mpr (.inr readable.authority)
  have absent := readable.operation h.fresh
  have outside : operationKey r.operation ∉ changed := by
    rw [members, not_or]
    exact ⟨fun target => Request.target_ne valid target rfl, absent⟩
  have outside' : operationKey r.operation ∉ set changed "authority" "schema" "1" := by
    rw [KeyFile.mem_set, not_or]
    exact ⟨Ne.symm (operationKey_ne_authority _), outside⟩
  have recorded : (record changed r generation).size = changed.size + 1 := by
    unfold record
    rw [KeyFile.size_set, if_pos (KeyFile.mem_set.mpr (.inl rfl)), KeyFile.size_set, if_neg outside',
      KeyFile.size_set, if_pos authority]
  have missing : decide (operationKey r.operation ∉ file) = true := by simpa using absent
  have one : ∀ group, ([group].filter fun group => decide (group ∉ file)).length =
      if group ∈ file then 0 else 1 := by
    intro group
    by_cases known : group ∈ file
    · simp [known]
    · simp [known]
  rw [recorded, size]
  unfold created Request.target
  rw [if_neg (not_not.mpr h.fresh), List.filter_cons_of_pos (by exact missing), List.length_cons]
  rcases r.command with _ | _ | _ | _
  · rw [one]
    dsimp only
    split <;> omega
  · rw [one]
    dsimp only
    split <;> omega
  · rfl
  · rfl

theorem Performs.readable {file changed : Groups} {uuid generation : String}
    (h : Performs file r uuid generation changed) (valid : r.valid = true)
    (readable : Readable file) (drawn : Generation uuid)
    (known : group ∈ record changed r generation) :
    groupValid (record changed r generation) group = true := by
  have operation : (identifier r.operation) = true := by
    simp only [Request.valid, Bool.and_eq_true] at valid
    exact valid.1.2
  by_cases here : operationKey r.operation = group
  · subst here
    have positive : 0 < r.operation.utf8ByteSize := by
      rw [Nat.pos_iff_ne_zero, ne_eq, String.utf8ByteSize_eq_zero_iff]
      exact (identifier_plain operation).1
    have size : (operationKey r.operation).utf8ByteSize = 10 + r.operation.utf8ByteSize := by
      rw [operationKey, String.utf8ByteSize_append]
      rfl
    refine groupValid_iff.mpr (.inr ⟨?_, ?_⟩)
    · simpa [record, value_set] using h.reported readable drawn
    · rw [if_pos (beginsWith_operationKey _)]
      refine ⟨by omega, ?_⟩
      simpa [record, value_set] using fingerprint_ne_empty r
  · by_cases authority : "authority" = group
    · exact groupValid_iff.mpr (.inl authority.symm)
    · have member : group ∈ changed :=
        ((mem_record.mp known).resolve_left here).resolve_left authority
      have same : ∀ key, value (record changed r generation) group key = value changed group key := by
        intro key
        simp [record, value_set, here, authority]
      exact groupValid.keep (h.valid valid readable drawn member) (fun key _ => same key) (.inl (same _))

/-- What a successful command leaves is readable where the groups it created fit. -/
theorem Readable.after {file file' : Groups} {uuid generation : String} {persistence : Persistence}
    (readable : Readable file) (drawn : Generation uuid)
    (success : main file r uuid persistence = (some generation, file')) :
    file'.size = file.size + (created file r).length ∧ (file'.size ≤ 4096 → Readable file') := by
  obtain ⟨valid, recorded, _⟩ := main_records success
  have after : (main file r uuid persistence).2 = file' := congrArg Prod.snd success
  by_cases known : value file (operationKey r.operation) "fingerprint" = ""
  · rcases main_cases file r uuid persistence with same | ⟨g, changed, _, performs, small, now⟩
    · rw [after] at same
      rw [same, known] at recorded
      exact absurd recorded.symm (fingerprint_ne_empty r)
    · rw [after] at now
      subst now
      refine ⟨performs.size valid readable, fun few => ⟨⟨?_, small⟩, ?_, few, fun group member =>
        performs.readable valid readable drawn member⟩⟩
      · exact KeyFile.textLength_pos (mem_record.mpr (.inr (.inl rfl)))
      · simp [record, value_set, operationKey_ne_authority]
  · rcases main_cases file r uuid persistence with same | ⟨_, _, _, performs, _, _⟩
    · rw [after] at same
      subst same
      refine ⟨?_, fun _ => readable⟩
      simp [created, known]
    · exact absurd performs.fresh known

/-- The daemon reads what the tool leaves exactly when the new groups fit. -/
theorem readable_iff_groups_fit {file file' : Groups} {r : Request} {uuid generation : String}
    {persistence : Persistence} (accepted : readOfflineAuthority file = true)
    (drawn : uuid ≠ "" ∧ uuid.utf8ByteSize ≤ 128)
    (success : main file r uuid persistence = (some generation, file')) :
    readOfflineAuthority file' = true ↔ file.size + (created file r).length ≤ 4096 := by
  obtain ⟨size, readable⟩ := (readOfflineAuthority_iff.mp accepted).after drawn success
  rw [readOfflineAuthority_iff, ← size]
  exact ⟨fun after => after.few, readable⟩

/-- An attached application after the first command. -/
theorem readable_in_sample : ∃ file file' : Groups, readOfflineAuthority file = true ∧
    main file ⟨.attach, "pkg", "app", "op2", "g1"⟩ "g2" .done = (some "g1", file') ∧
    readOfflineAuthority file' = true := by
  obtain ⟨file, accepted, reported, fits⟩ : ∃ file : Groups, readOfflineAuthority file = true ∧
      (main file ⟨.attach, "pkg", "app", "op2", "g1"⟩ "g2" .done).1 = some "g1" ∧
      file.size + (created file ⟨.attach, "pkg", "app", "op2", "g1"⟩).length ≤ 4096 :=
    ⟨(main ∅ ⟨.begin, "pkg", "", "op1", "absent"⟩ "g1" .done).2, by decide⟩
  have success : main file ⟨.attach, "pkg", "app", "op2", "g1"⟩ "g2" .done =
    (some "g1", (main file ⟨.attach, "pkg", "app", "op2", "g1"⟩ "g2" .done).2) := Prod.ext reported rfl
  exact ⟨file, _, accepted, success,
    (readable_iff_groups_fit accepted (by decide) success).mpr fits⟩

/-! ### A full inventory -/

def pendingOnly : Groups :=
  set (set (set ∅ "authority" "schema" "1") (packageKey "pkg") "generation" "g") (packageKey "pkg")
    "state" "pending"

/-- A pending package and `n` recorded operations. -/
def crowded : Nat → Groups
  | 0 => pendingOnly
  | n + 1 => set (set (crowded n) (operationKey (toString n)) "fingerprint" "f")
      (operationKey (toString n)) "generation" "g"

theorem crowded_mem : group ∈ crowded n ↔
    group = "authority" ∨ group = packageKey "pkg" ∨ ∃ i < n, group = operationKey (toString i) := by
  induction n with
  | zero =>
    simp only [crowded, pendingOnly, KeyFile.mem_set, Std.ExtTreeMap.not_mem_empty, or_false, Nat.not_lt_zero,
      false_and, exists_const]
    grind
  | succ n ih =>
    simp only [crowded, KeyFile.mem_set, ih, Nat.lt_succ_iff_lt_or_eq, or_and_right, exists_or,
      exists_eq_left]
    grind

theorem operation_not_mem_crowded {operation : String} (new : ∀ i < n, operation ≠ toString i) :
    operationKey operation ∉ crowded n := by
  rw [crowded_mem]
  rintro (authority | package | ⟨i, small, same⟩)
  · exact operationKey_ne_authority _ authority
  · exact packageKey_ne_operationKey _ _ package.symm
  · exact new i small (operationKey_inj.mp same)

theorem crowded_size (n : Nat) : (crowded n).size = n + 2 := by
  induction n with
  | zero => decide
  | succ n ih =>
    have new : operationKey (toString n) ∉ crowded n := operation_not_mem_crowded fun i small same =>
      absurd (Nat.repr_inj.mp same) (by omega)
    rw [crowded, KeyFile.size_set, if_pos (KeyFile.mem_set.mpr (.inl rfl)), KeyFile.size_set,
      if_neg new, ih]

/-- Recorded operations change no other group. -/
theorem crowded_value (other : ∀ i < n, group ≠ operationKey (toString i)) (key : String) :
    value (crowded n) group key = value pendingOnly group key := by
  induction n with
  | zero => rfl
  | succ n ih =>
    rw [crowded, KeyFile.value_set_of_ne (Ne.symm (other n (by omega))),
      KeyFile.value_set_of_ne (Ne.symm (other n (by omega)))]
    exact ih fun i small => other i (by omega)

theorem crowded_package (key : String) :
    value (crowded n) (packageKey "pkg") key = value pendingOnly (packageKey "pkg") key :=
  crowded_value (fun _ _ => packageKey_ne_operationKey _ _) key

theorem crowded_authority (key : String) :
    value (crowded n) "authority" key = value pendingOnly "authority" key :=
  crowded_value (fun _ _ => Ne.symm (operationKey_ne_authority _)) key

theorem crowded_operation {n i : Nat} (small : i < n) :
    value (crowded n) (operationKey (toString i)) "generation" = "g" ∧
      value (crowded n) (operationKey (toString i)) "fingerprint" = "f" := by
  induction n with
  | zero => omega
  | succ n ih =>
    rcases Nat.lt_succ_iff_lt_or_eq.mp small with less | rfl
    · have other : operationKey (toString n) ≠ operationKey (toString i) := by
        rw [ne_eq, operationKey_inj]
        exact fun same => absurd (Nat.repr_inj.mp same) (by omega)
      rw [crowded, KeyFile.value_set_of_ne other, KeyFile.value_set_of_ne other]
      exact ih less
    · simp [crowded, value_set]

theorem crowded_valid (known : group ∈ crowded n) :
    groupValid (crowded n) group = true := by
  rcases crowded_mem.mp known with rfl | rfl | ⟨i, small, rfl⟩
  · exact groupValid_iff.mpr (.inl rfl)
  · refine groupValid_package (by decide) (by decide) ?_ ?_
    · rw [crowded_package]
      exact ⟨by decide, by decide⟩
    · rw [crowded_package]
      decide
  · obtain ⟨generation, fingerprint⟩ := crowded_operation small
    refine groupValid_iff.mpr (.inr ⟨?_, ?_⟩)
    · rw [generation]
      exact ⟨by decide, by decide⟩
    · rw [if_pos (beginsWith_operationKey _), fingerprint]
      refine ⟨?_, by decide⟩
      have nonempty : 0 < (toString i).utf8ByteSize := by
        rw [Nat.pos_iff_ne_zero, ne_eq, String.utf8ByteSize_eq_zero_iff]
        exact Nat.repr_ne_empty
      rw [operationKey, String.utf8ByteSize_append]
      change 10 < 10 + _
      omega

theorem crowded_length (few : n ≤ 9999) : dataSize (crowded n) ≤ 100 + n * 100 := by
  induction n with
  | zero => decide
  | succ n ih =>
    have digits : (toString n).utf8ByteSize ≤ 16 := by
      have length : (toString n).toList.length ≤ 4 := Nat.repr_length n 4 (by decide) (by omega)
      have := utf8ByteSize_le (toString n)
      omega
    have name : (operationKey (toString n)).utf8ByteSize = 10 + (toString n).utf8ByteSize := by
      rw [operationKey, String.utf8ByteSize_append]
      rfl
    have first := KeyFile.textLength_set_le (crowded n) (operationKey (toString n)) "fingerprint" "f"
    have second := KeyFile.textLength_set_le (set (crowded n) (operationKey (toString n)) "fingerprint" "f")
      (operationKey (toString n)) "generation" "g"
    have before := ih (by omega)
    have sizes : "fingerprint".utf8ByteSize = 11 ∧ "generation".utf8ByteSize = 10 ∧
        "f".utf8ByteSize = 1 ∧ "g".utf8ByteSize = 1 := by decide
    unfold dataSize at before ⊢
    rw [crowded]
    omega

theorem crowded_readable (few : n ≤ 4094) : Readable (crowded n) where
  size := by
    have length := crowded_length (n := n) (by omega)
    refine ⟨KeyFile.textLength_pos (crowded_mem.mpr (.inl rfl)), ?_⟩
    rw [kMaxSize]
    omega
  schema := by
    rw [crowded_authority]
    decide
  few := by
    rw [crowded_size]
    omega
  groups _ := crowded_valid

/-- The last application for which the tool finds room. -/
def lastRequest : Request := ⟨.attach, "pkg", "app", "last", "g"⟩

theorem last_not_mem : operationKey "last" ∉ crowded n := by
  refine operation_not_mem_crowded fun i _ same => ?_
  have digit := Codes.isDigit_of_mem_toString (n := i) (c := 'l') (by rw [← same]; decide)
  exact absurd digit (by decide)

theorem app_not_mem : "app" ∉ crowded n := by
  rw [crowded_mem]
  rintro (authority | package | ⟨i, _, same⟩)
  · exact absurd authority (by decide)
  · exact absurd package (by decide)
  · exact ne_of_plain (by decide) (space_mem_operationKey _) same

theorem crowded_attach (few : n < 4094) : ∃ file,
    main (crowded n) lastRequest "u" .done = (some "g", file) := by
  have readable := crowded_readable (n := n) (by omega)
  have fresh : value (crowded n) (operationKey "last") "fingerprint" = "" :=
    KeyFile.value_of_notMem last_not_mem _
  have owner : value (crowded n) "app" "package" = "" := KeyFile.value_of_notMem app_not_mem _
  have generation : value (crowded n) (packageKey "pkg") "generation" = "g" := by
    rw [crowded_package]
    decide
  have state : value (crowded n) (packageKey "pkg") "state" = "pending" := by
    rw [crowded_package]
    decide
  have changed : change (crowded n) lastRequest "u" = some ("g", set (set (set (crowded n) "app"
      "package" "pkg") "app" "generation" "g") "app" "state" "pending") := by
    simp [change, lastRequest, generation, state, owner]
  have room : ¬ 4096 ≤ (crowded n).size := by
    rw [crowded_size]
    omega
  set attached := set (set (set (crowded n) "app" "package" "pkg") "app" "generation" "g") "app"
    "state" "pending" with defined
  have applied : apply (crowded n) lastRequest "u" = some ("g", record attached lastRequest "g") := by
    unfold apply
    rw [show lastRequest.operation = "last" from rfl, fresh]
    dsimp only
    rw [if_neg (not_not.mpr rfl), if_neg room, changed]
  have small : ¬ kMaxSize < dataSize (record attached lastRequest "g") := by
    have length := crowded_length (n := n) (by omega)
    have package := KeyFile.textLength_set_le (crowded n) "app" "package" "pkg"
    have generation := KeyFile.textLength_set_le (set (crowded n) "app" "package" "pkg") "app"
      "generation" "g"
    have state := KeyFile.textLength_set_le (set (set (crowded n) "app" "package" "pkg") "app"
      "generation" "g") "app" "state" "pending"
    rw [← defined] at state
    have schema := KeyFile.textLength_set_le attached "authority" "schema" "1"
    have fingerprint := KeyFile.textLength_set_le (set attached "authority" "schema" "1")
      (operationKey "last") "fingerprint" lastRequest.fingerprint
    have reported := KeyFile.textLength_set_le (set (set attached "authority" "schema" "1")
      (operationKey "last") "fingerprint" lastRequest.fingerprint) (operationKey "last") "generation" "g"
    have sizes : "app".utf8ByteSize + "package".utf8ByteSize + "pkg".utf8ByteSize +
        ("app".utf8ByteSize + "generation".utf8ByteSize + "g".utf8ByteSize) +
        ("app".utf8ByteSize + "state".utf8ByteSize + "pending".utf8ByteSize) +
        ("authority".utf8ByteSize + "schema".utf8ByteSize + "1".utf8ByteSize) +
        ((operationKey "last").utf8ByteSize + "fingerprint".utf8ByteSize +
          lastRequest.fingerprint.utf8ByteSize) +
        ((operationKey "last").utf8ByteSize + "generation".utf8ByteSize + "g".utf8ByteSize) ≤ 1000 := by
      decide
    unfold dataSize at length ⊢
    rw [kMaxSize, record, show lastRequest.operation = "last" from rfl]
    omega
  refine ⟨record attached lastRequest "g", ?_⟩
  unfold main
  rw [if_neg (not_not.mpr ⟨by decide, .inr ⟨readable.size.2, readable.schema⟩⟩), applied]
  dsimp only
  rw [if_neg small]

/-- The tool attaches an application to a readable inventory of 4095 groups and leaves one
that the daemon refuses. -/
theorem attach_exceeds_limit : ∃ (file file' : Groups) (r : Request) (uuid generation : String),
    readOfflineAuthority file = true ∧ (uuid ≠ "" ∧ uuid.utf8ByteSize ≤ 128) ∧
    main file r uuid .done = (some generation, file') ∧ readOfflineAuthority file' = false := by
  have readable := crowded_readable (n := 4093) (by omega)
  obtain ⟨file', success⟩ := crowded_attach (n := 4093) (by omega)
  refine ⟨crowded 4093, file', lastRequest, "u", "g", readOfflineAuthority_iff.mpr readable,
    by decide, success, ?_⟩
  have created : (created (crowded 4093) lastRequest).length = 2 := by
    have fresh : value (crowded 4093) (operationKey "last") "fingerprint" = "" :=
      KeyFile.value_of_notMem last_not_mem _
    unfold created
    rw [show lastRequest.operation = "last" from rfl, fresh, if_neg (not_not.mpr rfl)]
    simp [lastRequest, last_not_mem, app_not_mem]
  obtain ⟨size, _⟩ := readable.after ⟨by decide, by decide⟩ success
  rw [created, crowded_size] at size
  rw [Bool.eq_false_iff, ne_eq, readOfflineAuthority_iff]
  intro after
  have few := after.few
  omega

end Consent.Authority
