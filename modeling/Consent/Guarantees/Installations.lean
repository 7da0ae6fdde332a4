import Consent.Authority.Inventory

/-!
What the inventory of installations guarantees. Applications and their package agree on
state and generation after any history of commands, a package has one accepted generation
and never gets a superseded one back, and an operation that was carried out is not carried
out again.
-/
namespace Consent.Authority
open KeyFile (Groups value set setWhere value_set value_setWhere)

/-! ### Names of groups -/

theorem identifier_plain {text : String} (h : identifier text = true) :
    text ≠ "" ∧ text.utf8ByteSize ≤ 255 ∧ ' ' ∉ text.toList := by
  simp only [identifier, Bool.and_eq_true, Bool.not_eq_true', decide_eq_true_eq] at h
  obtain ⟨⟨nonempty, short⟩, letters⟩ := h
  refine ⟨?_, short, fun space => ?_⟩
  · rintro rfl
    exact absurd nonempty (by decide)
  · exact absurd (List.all_eq_true.mp letters _ space) (by decide)

theorem packageKey_inj {a b : String} : packageKey a = packageKey b ↔ a = b :=
  String.append_right_inj _

theorem space_mem_packageKey (package : String) : ' ' ∈ (packageKey package).toList := by
  simp [packageKey]

theorem space_mem_operationKey (operation : String) : ' ' ∈ (operationKey operation).toList := by
  simp [operationKey]

theorem packageKey_ne_operationKey (package operation : String) :
    packageKey package ≠ operationKey operation := by
  intro same
  have heads := congrArg (fun text => text.toList.head?) same
  simp [packageKey, operationKey] at heads

theorem ne_of_plain {plain spaced : String} (h : ' ' ∉ plain.toList) (k : ' ' ∈ spaced.toList) :
    plain ≠ spaced := by
  rintro rfl
  exact h k

/-! ### What a command does -/

/-- The package is at the generation that the caller expects. -/
def Current (file : Groups) (r : Request) : Prop :=
  value file (packageKey r.package) "generation" = r.expected ∨
    value file (packageKey r.package) "generation" = "" ∧ r.expected = "absent"

/-- A command that was carried out and recorded. -/
structure Performs (file : Groups) (r : Request) (uuid generation : String) (changed : Groups) :
    Prop where
  fresh : value file (operationKey r.operation) "fingerprint" = ""
  room : file.size < 4096
  current : Current file r
  made : change file r uuid = some (generation, changed)

variable {r : Request} {file : Groups}

theorem apply_cases {file file' : Groups} {uuid generation : String}
    (h : apply file r uuid = some (generation, file')) :
    (value file (operationKey r.operation) "fingerprint" = r.fingerprint ∧
      generation = value file (operationKey r.operation) "generation" ∧ file' = file) ∨
    ∃ changed, Performs file r uuid generation changed ∧ file' = record changed r generation := by
  unfold apply at h
  dsimp only at h
  split_ifs at h with known different full
  · cases h
    exact .inl ⟨not_not.mp different, rfl, rfl⟩
  · split at h
    · rename_i g changed made
      cases h
      refine .inr ⟨changed, ⟨not_not.mp known, by omega, ?_, made⟩, rfl⟩
      unfold change at made
      dsimp only at made
      split at made
      · rename_i current
        exact current
      · cases made
    · cases h

/-- What the branch for each command writes. -/
theorem Performs.cases {file changed : Groups} {uuid generation : String}
    (h : Performs file r uuid generation changed) :
    (r.command = .begin ∧ generation = uuid ∧ changed = retire r.package file.keys
      (set (set file (packageKey r.package) "generation" uuid) (packageKey r.package) "state"
        "pending")) ∨
    (r.command = .attach ∧ generation = value file (packageKey r.package) "generation" ∧
      value file (packageKey r.package) "state" = "pending" ∧
      (value file r.app "package" = "" ∨ value file r.app "package" = r.package) ∧
      changed = set (set (set file r.app "package" r.package) r.app "generation" generation)
        r.app "state" "pending") ∨
    (r.command = .commit ∧ generation = value file (packageKey r.package) "generation" ∧
      value file (packageKey r.package) "state" = "pending" ∧
      changed = set (setWhere (fun get => get "package" == r.package &&
        get "generation" == generation && get "state" == "pending") "state" "active" file.keys
          file).1 (packageKey r.package) "state" "active") ∨
    (r.command = .remove ∧ generation = value file (packageKey r.package) "generation" ∧
      generation ≠ "" ∧
      changed = retire r.package file.keys (set file (packageKey r.package) "state" "removed")) := by
  have made := h.made
  unfold change at made
  dsimp only at made
  rw [if_pos (show _ ∨ _ from h.current)] at made
  rcases command : r.command with _ | _ | _ | _
  · rw [command] at made
    cases made
    exact .inl ⟨rfl, rfl, rfl⟩
  · rw [command] at made
    dsimp only at made
    split at made
    · rename_i allowed
      cases made
      exact .inr (.inl ⟨rfl, rfl, allowed.1, allowed.2, rfl⟩)
    · cases made
  · rw [command] at made
    dsimp only at made
    split at made
    · rename_i pending
      split at made
      · cases made
      · cases made
        exact .inr (.inr (.inl ⟨rfl, rfl, pending, rfl⟩))
    · cases made
  · rw [command] at made
    dsimp only at made
    split at made
    · cases made
    · rename_i present
      cases made
      exact .inr (.inr (.inr ⟨rfl, rfl, present, rfl⟩))

theorem value_retire {package : String} {groups : List String} (distinct : groups.Nodup)
    (all : ∀ group, value file group "package" = package → group ∈ groups) (group key : String) :
    value (retire package groups file) group key =
      if value file group "package" = package ∧ key = "state" then "removed"
      else value file group key := by
  unfold retire
  rw [value_setWhere distinct]
  simp only [beq_iff_eq]
  by_cases owned : value file group "package" = package
  · simp [owned, all group owned, eq_comm]
  · simp [owned]

/-! ### Applications and their packages -/

/-- The package of the application is in the same state and generation. -/
def AgreesAt (file : Groups) (group : String) : Prop :=
  ∀ state, state = "active" ∨ state = "pending" → value file group "state" = state →
    value file (packageKey (value file group "package")) "state" = state ∧
      value file (packageKey (value file group "package")) "generation" = value file group "generation"

/-- Groups that belong to a package are applications, and each agrees with its package. -/
structure Agrees (file : Groups) : Prop where
  plain : ∀ group, ' ' ∈ group.toList → value file group "package" = ""
  apps : ∀ group, value file group "package" ≠ "" → AgreesAt file group

theorem AgreesAt.congr {file file' : Groups} {group : String}
    (own : ∀ key, value file' group key = value file group key)
    (package : ∀ key, key = "state" ∨ key = "generation" →
      value file' (packageKey (value file group "package")) key =
        value file (packageKey (value file group "package")) key)
    (h : AgreesAt file group) : AgreesAt file' group := by
  intro state running here
  rw [own] at here
  rw [own, own, package _ (.inl rfl), package _ (.inr rfl)]
  exact h state running here

theorem agrees_empty : Agrees ∅ where
  plain _ _ := rfl
  apps _ owned := absurd rfl owned

theorem keys_nodup (file : Groups) : file.keys.Nodup := by
  refine Std.ExtTreeMap.distinct_keys.imp fun {a b} different same => ?_
  exact different (by rw [same]; exact Std.ReflCmp.compare_self)

/-- A group that belongs to a package is there. -/
theorem mem_keys_of_owner {group package : String} (named : package ≠ "")
    (owned : value file group "package" = package) : group ∈ file.keys := by
  rw [Std.ExtTreeMap.mem_keys]
  exact KeyFile.mem_of_value (owned.trans_ne named)

/-- All applications of a package are retired together with a change of its group. -/
theorem agrees_retire {file opened : Groups} {package : String} (agrees : Agrees file)
    (named : package ≠ "")
    (frame : ∀ group key, value opened group key ≠ value file group key →
      group = packageKey package ∧ key ≠ "package") :
    Agrees (retire package file.keys opened) := by
  have same : ∀ {group key : String}, group ≠ packageKey package ∨ key = "package" →
      value opened group key = value file group key := by
    intro group key apart
    by_contra changed
    obtain ⟨here, other⟩ := frame group key changed
    rcases apart with apart | apart
    · exact apart here
    · exact other apart
  have all : ∀ group, value opened group "package" = package → group ∈ file.keys :=
    fun group owned => mem_keys_of_owner named (same (.inr rfl) ▸ owned)
  have retired := value_retire (keys_nodup file) all
  have owner : ∀ group, value (retire package file.keys opened) group "package" =
      value file group "package" := by
    intro group
    rw [retired, if_neg (by simp), same (.inr rfl)]
  refine ⟨fun group spaced => (owner group).trans (agrees.plain group spaced), fun group owned => ?_⟩
  rw [owner] at owned
  by_cases mine : value file group "package" = package
  · intro state running here
    rw [retired, same (.inr rfl), if_pos ⟨mine, rfl⟩] at here
    rcases running with rfl | rfl
    · exact absurd here (by decide)
    · exact absurd here (by decide)
  · have apart : ∀ {other : String}, value file other "package" ≠ package →
        other ≠ packageKey package → ∀ key,
          value (retire package file.keys opened) other key = value file other key := by
      intro other foreign different key
      rw [retired, same (.inr rfl), if_neg fun both => foreign both.1, same (.inl different)]
    refine (agrees.apps group owned).congr (apart mine ?_) fun key _ => apart ?_ ?_ key
    · rintro rfl
      exact owned (agrees.plain _ (space_mem_packageKey _))
    · rw [agrees.plain _ (space_mem_packageKey _)]
      exact Ne.symm named
    · rw [ne_eq, packageKey_inj]
      exact mine

theorem agrees_attach {package app : String} (agrees : Agrees file) (plain : ' ' ∉ app.toList)
    (pending : value file (packageKey package) "state" = "pending") :
    Agrees (set (set (set file app "package" package) app "generation"
      (value file (packageKey package) "generation")) app "state" "pending") := by
  have elsewhere : ∀ {group : String}, app ≠ group → ∀ key, value (set (set (set file app "package"
      package) app "generation" (value file (packageKey package) "generation")) app "state" "pending")
        group key = value file group key := by
    intro group different key
    simp [value_set, different]
  have package_apart : ∀ package, app ≠ packageKey package := fun _ =>
    ne_of_plain plain (space_mem_packageKey _)
  refine ⟨fun group spaced => ?_, fun group owned => ?_⟩
  · rw [elsewhere (ne_of_plain plain spaced)]
    exact agrees.plain group spaced
  · by_cases here : app = group
    · subst here
      intro state running now
      simp only [value_set, and_true, String.reduceEq, and_false, ↓reduceIte,
        (package_apart package)] at now ⊢
      exact pending.trans now
    · rw [elsewhere here] at owned
      exact (agrees.apps group owned).congr (elsewhere here) fun key _ =>
        elsewhere (package_apart _) key

theorem agrees_commit {package : String} (agrees : Agrees file) (named : package ≠ "")
    (pending : value file (packageKey package) "state" = "pending") :
    Agrees (set (setWhere (fun get => get "package" == package &&
      get "generation" == value file (packageKey package) "generation" && get "state" == "pending")
        "state" "active" file.keys file).1 (packageKey package) "state" "active") := by
  set activated := (setWhere (fun get => get "package" == package &&
    get "generation" == value file (packageKey package) "generation" && get "state" == "pending")
      "state" "active" file.keys file).1 with defined
  have here : ∀ group key, value activated group key =
      if (value file group "package" = package ∧
        value file group "generation" = value file (packageKey package) "generation" ∧
        value file group "state" = "pending") ∧ key = "state" then "active"
      else value file group key := by
    intro group key
    rw [defined, value_setWhere (keys_nodup file)]
    simp only [Bool.and_eq_true, beq_iff_eq, and_assoc]
    by_cases mine : value file group "package" = package
    · simp [mem_keys_of_owner named mine, eq_comm]
    · simp [mine]
  have foreign : ∀ {group : String}, value file group "package" ≠ package →
      packageKey package ≠ group → ∀ key,
        value (set activated (packageKey package) "state" "active") group key = value file group key := by
    intro group different apart key
    rw [value_set, if_neg fun both => apart both.1, here, if_neg fun both => different both.1.1]
  have owner : ∀ group, value (set activated (packageKey package) "state" "active") group "package" =
      value file group "package" := by
    intro group
    rw [value_set, if_neg (by simp), here, if_neg (by simp)]
  refine ⟨fun group spaced => (owner group).trans (agrees.plain group spaced), fun group owned => ?_⟩
  rw [owner] at owned
  have apart : packageKey package ≠ group := by
    rintro rfl
    exact owned (agrees.plain _ (space_mem_packageKey _))
  by_cases mine : value file group "package" = package
  · -- The application was pending in the generation of its package, or is not running.
    intro state running now
    have unowned : value file (packageKey package) "package" ≠ package := by
      rw [agrees.plain _ (space_mem_packageKey _)]
      exact Ne.symm named
    rw [value_set, if_neg fun both => apart both.1, here] at now
    rw [owner, mine, value_set, if_pos ⟨rfl, rfl⟩, value_set, if_neg (by simp), value_set,
      if_neg (by simp), here, if_neg fun both => unowned both.1.1, here, if_neg (by simp)]
    have agreement := agrees.apps group owned
    rw [AgreesAt, mine] at agreement
    split at now
    · rename_i selected
      exact ⟨now, selected.1.2.1.symm⟩
    · rename_i unselected
      obtain ⟨states, generations⟩ := agreement state running now
      rw [pending] at states
      subst states
      exact absurd ⟨⟨mine, generations.symm, now⟩, rfl⟩ unselected
  · refine (agrees.apps group owned).congr (foreign mine apart) fun key _ => foreign ?_ ?_ key
    · rw [agrees.plain _ (space_mem_packageKey _)]
      exact Ne.symm named
    · rw [ne_eq, packageKey_inj]
      exact Ne.symm mine

/-- The record of the operation concerns neither applications nor packages. -/
theorem value_record {generation group key : String} (other : operationKey r.operation ≠ group)
    (unschemed : key ≠ "schema") :
    value (record file r generation) group key = value file group key := by
  simp [record, value_set, other, Ne.symm unschemed]

theorem agrees_record {generation : String} (agrees : Agrees file) :
    Agrees (record file r generation) := by
  have owner : ∀ group, value (record file r generation) group "package" =
      value file group "package" := by
    intro group
    simp [record, value_set]
  refine ⟨fun group spaced => (owner group).trans (agrees.plain group spaced), fun group owned => ?_⟩
  rw [owner] at owned
  have apart : operationKey r.operation ≠ group := by
    rintro rfl
    exact owned (agrees.plain _ (space_mem_operationKey _))
  intro state running now
  have package : ∀ key, key ≠ "schema" →
      value (record file r generation) (packageKey (value file group "package")) key =
        value file (packageKey (value file group "package")) key :=
    fun key => value_record (Ne.symm (packageKey_ne_operationKey _ _))
  rw [value_record apart (by decide)] at now
  rw [owner, package _ (by decide), package _ (by decide), value_record apart (by decide)]
  exact agrees.apps group owned state running now

theorem Request.names (valid : r.valid = true) :
    r.package ≠ "" ∧ (r.command = .attach → ' ' ∉ r.app.toList) := by
  simp only [Request.valid, Bool.and_eq_true] at valid
  obtain ⟨⟨⟨package, app⟩, _⟩, _⟩ := valid
  refine ⟨(identifier_plain package).1, fun attach => ?_⟩
  rw [if_pos attach] at app
  exact (identifier_plain app).2.2

theorem Performs.agrees {file changed : Groups} {uuid generation : String}
    (h : Performs file r uuid generation changed) (valid : r.valid = true) (agrees : Agrees file) :
    Agrees changed := by
  obtain ⟨named, plain⟩ := Request.names valid
  rcases h.cases with ⟨_, rfl, rfl⟩ | ⟨attach, rfl, pending, _, rfl⟩ | ⟨_, rfl, pending, rfl⟩ |
    ⟨_, rfl, _, rfl⟩
  · refine agrees_retire agrees named fun group key changed => ?_
    simp only [value_set] at changed
    grind
  · exact agrees_attach agrees (plain attach) pending
  · exact agrees_commit agrees named pending
  · refine agrees_retire agrees named fun group key changed => ?_
    simp only [value_set] at changed
    grind

/-! ### Histories -/

/-- The inventory and the generations that were ever drawn. -/
structure Ledger where
  file : Groups
  drawn : List String

/-- One invocation; a drawn generation is new. -/
inductive Step : Ledger → Ledger → Prop
  | run {l : Ledger} (r : Request) (uuid : String) (persistence : Persistence)
      (fresh : uuid ∉ l.drawn) (nonempty : uuid ≠ "") :
      Step l ⟨(main l.file r uuid persistence).2, uuid :: l.drawn⟩

/-- A history of invocations. -/
def Follows : Ledger → Ledger → Prop := Relation.ReflTransGen Step

def Reached (l : Ledger) : Prop := Follows ⟨∅, []⟩ l

/-- The inventory after an invocation is as before, or the command was carried out. -/
theorem main_cases (file : Groups) (r : Request) (uuid : String) (persistence : Persistence) :
    (main file r uuid persistence).2 = file ∨
    ∃ generation changed, r.valid = true ∧ Performs file r uuid generation changed ∧
      dataSize (record changed r generation) ≤ kMaxSize ∧
      (main file r uuid persistence).2 = record changed r generation := by
  unfold main
  split
  · exact .inl rfl
  · rename_i started
    rw [not_not] at started
    split
    · exact .inl rfl
    · rename_i generation after applied
      split
      · exact .inl rfl
      · rename_i small
        rcases apply_cases applied with ⟨_, _, rfl⟩ | ⟨changed, performs, rfl⟩
        · exact .inl (by cases persistence <;> rfl)
        · cases persistence with
          | done => exact .inr ⟨generation, changed, started.1, performs, by omega, rfl⟩
          | uncertain => exact .inr ⟨generation, changed, started.1, performs, by omega, rfl⟩
          | failed => exact .inl rfl

/-- Only `begin` sets the generation of a package, to the one it drew. -/
theorem Performs.generation {file changed : Groups} {uuid generation : String}
    (h : Performs file r uuid generation changed) (valid : r.valid = true) (package : String) :
    value (record changed r generation) (packageKey package) "generation" =
        value file (packageKey package) "generation" ∨
      value (record changed r generation) (packageKey package) "generation" = uuid := by
  rw [value_record (Ne.symm (packageKey_ne_operationKey _ _)) (by decide)]
  obtain ⟨named, plain⟩ := Request.names valid
  have retired : ∀ (opened : Groups), (∀ group, value opened group "package" =
      value file group "package") → value (retire r.package file.keys opened) (packageKey package)
        "generation" = value opened (packageKey package) "generation" := by
    intro opened owners
    rw [value_retire (keys_nodup file) (fun group owned =>
      mem_keys_of_owner named (owners group ▸ owned)), if_neg (by simp)]
  rcases h.cases with ⟨_, rfl, rfl⟩ | ⟨attach, rfl, pending, _, rfl⟩ | ⟨_, rfl, pending, rfl⟩ |
    ⟨_, rfl, _, rfl⟩
  · rw [retired _ (by simp [value_set])]
    simp only [value_set]
    grind
  · have apart := ne_of_plain (plain attach) (space_mem_packageKey package)
    simp [value_set, apart]
  · rw [value_set, if_neg (by simp), value_setWhere (keys_nodup file), if_neg (by simp)]
    exact .inl rfl
  · rw [retired _ (by simp [value_set])]
    simp [value_set]

/-- What holds of every inventory in a history. -/
structure Sound (l : Ledger) : Prop where
  agrees : Agrees l.file
  drawn : ∀ package, value l.file (packageKey package) "generation" = "" ∨
    value l.file (packageKey package) "generation" ∈ l.drawn
  started : l.file.isEmpty = true ∨
    dataSize l.file ≤ kMaxSize ∧ value l.file "authority" "schema" = "1"

theorem Step.sound {l l' : Ledger} (step : Step l l') (sound : Sound l) : Sound l' := by
  obtain ⟨r, uuid, persistence, fresh, nonempty⟩ := step
  rcases main_cases l.file r uuid persistence with same | ⟨generation, changed, valid, performs, small, now⟩
  · rw [same]
    exact ⟨sound.agrees, fun package => (sound.drawn package).imp_right (List.mem_cons_of_mem _),
      sound.started⟩
  · rw [now]
    refine ⟨agrees_record (performs.agrees valid sound.agrees), fun package => ?_, .inr ⟨small, ?_⟩⟩
    · rcases performs.generation valid package with same | new
      · dsimp only
        rw [same]
        exact (sound.drawn package).imp_right (List.mem_cons_of_mem _)
      · dsimp only
        rw [new]
        exact .inr (by simp)
    · have apart : "authority" ≠ operationKey r.operation :=
        ne_of_plain (by decide) (space_mem_operationKey _)
      simp [record, value_set, Ne.symm apart]

theorem Follows.sound {l l' : Ledger} (h : Follows l l') (sound : Sound l) : Sound l' := by
  induction h with
  | refl => exact sound
  | tail _ step ih => exact step.sound ih

theorem Reached.sound {l : Ledger} (reached : Reached l) : Sound l :=
  Follows.sound reached ⟨agrees_empty, fun _ => .inl rfl, .inl rfl⟩

/-! ### Generations -/

/-- A generation of the package that one of the readers accepts. -/
def Accepted (file : Groups) (package generation : String) : Prop :=
  (∃ owner app, getInstallationIdentity owner file package app = some generation) ∨
    validatePackageGeneration file package generation = true

theorem Accepted.generation {package generation : String} (h : Accepted file package generation) :
    value file (packageKey package) "generation" = generation ∧ generation ≠ "" := by
  rcases h with ⟨owner, app, found⟩ | valid
  · unfold getInstallationIdentity at found
    dsimp only at found
    split at found
    · rename_i checks
      cases found
      obtain ⟨_, _, _, _, _, _, same, _, _, _, nonempty, _⟩ := checks
      exact ⟨same, nonempty⟩
    · cases found
  · simp only [validatePackageGeneration, Bool.and_eq_true, Bool.not_eq_true', beq_iff_eq] at valid
    refine ⟨valid.1.2, ?_⟩
    rintro rfl
    exact absurd valid.1.1.1 (by decide)

theorem Follows.drawn {l l' : Ledger} {generation : String} (h : Follows l l')
    (drawn : generation ∈ l.drawn) : generation ∈ l'.drawn := by
  induction h with
  | refl => exact drawn
  | tail _ step ih =>
    obtain ⟨_, uuid, _, _, _⟩ := step
    exact List.mem_cons_of_mem uuid ih

/-- A drawn generation that the package does not have is not given to it again. -/
theorem Follows.superseded {l l' : Ledger} {package generation : String} (h : Follows l l')
    (drawn : generation ∈ l.drawn)
    (gone : value l.file (packageKey package) "generation" ≠ generation) :
    value l'.file (packageKey package) "generation" ≠ generation := by
  have both : generation ∈ l'.drawn ∧ value l'.file (packageKey package) "generation" ≠ generation := by
    induction h with
    | refl => exact ⟨drawn, gone⟩
    | tail _ step ih =>
      obtain ⟨r, uuid, persistence, fresh, nonempty⟩ := step
      refine ⟨List.mem_cons_of_mem _ ih.1, ?_⟩
      dsimp only
      rcases main_cases _ r uuid persistence with same | ⟨g, changed, valid, performs, _, now⟩
      · rw [same]
        exact ih.2
      · rw [now]
        rcases performs.generation valid package with same | new
        · rw [same]
          exact ih.2
        · rw [new]
          rintro rfl
          exact fresh ih.1
  exact both.2

/-! ### Repeated operations -/

theorem fingerprint_ne_empty (r : Request) : r.fingerprint ≠ "" := by
  intro empty
  have lists := congrArg String.toList empty
  simp [Request.fingerprint] at lists

theorem operationKey_inj {a b : String} : operationKey a = operationKey b ↔ a = b :=
  String.append_right_inj _

/-- No command touches the record of an operation. -/
theorem Performs.records {file changed : Groups} {uuid generation : String}
    (h : Performs file r uuid generation changed) (valid : r.valid = true) (operation : String)
    {key : String} (unstated : key ≠ "state") :
    value changed (operationKey operation) key = value file (operationKey operation) key := by
  obtain ⟨named, plain⟩ := Request.names valid
  have apart := packageKey_ne_operationKey r.package operation
  have retired : ∀ (opened : Groups), (∀ group, value opened group "package" =
      value file group "package") → value (retire r.package file.keys opened) (operationKey operation)
        key = value opened (operationKey operation) key := by
    intro opened owners
    rw [value_retire (keys_nodup file) (fun group owned =>
      mem_keys_of_owner named (owners group ▸ owned)), if_neg fun both => unstated both.2]
  rcases h.cases with ⟨_, rfl, rfl⟩ | ⟨attach, rfl, pending, _, rfl⟩ | ⟨_, rfl, pending, rfl⟩ |
    ⟨_, rfl, _, rfl⟩
  · rw [retired _ (by simp [value_set])]
    simp [value_set, apart]
  · have other := ne_of_plain (plain attach) (space_mem_operationKey operation)
    simp [value_set, other]
  · rw [value_set, if_neg fun both => apart both.1, value_setWhere (keys_nodup file),
      if_neg fun both => unstated both.2.symm]
  · rw [retired _ (by simp [value_set])]
    simp [value_set, apart]

/-- The record of an operation stays as it was made. -/
theorem Follows.recorded {l l' : Ledger} {operation key : String} (h : Follows l l')
    (known : value l.file (operationKey operation) "fingerprint" ≠ "")
    (kept : key = "fingerprint" ∨ key = "generation") :
    value l'.file (operationKey operation) key = value l.file (operationKey operation) key := by
  have both : ∀ key, key = "fingerprint" ∨ key = "generation" →
      value l'.file (operationKey operation) key = value l.file (operationKey operation) key := by
    induction h with
    | refl => exact fun _ _ => rfl
    | tail _ step ih =>
      intro key kept
      obtain ⟨r, uuid, persistence, _, _⟩ := step
      dsimp only
      rcases main_cases _ r uuid persistence with same | ⟨g, changed, valid, performs, _, now⟩
      · rw [same]
        exact ih key kept
      · have different : operationKey r.operation ≠ operationKey operation := by
          intro same
          have fresh := performs.fresh
          rw [same, ih _ (.inl rfl)] at fresh
          exact known fresh
        have named : key ≠ "schema" ∧ key ≠ "state" := by
          rcases kept with rfl | rfl <;> decide
        rw [now, value_record different named.1, performs.records valid _ named.2]
        exact ih key kept
  exact both key kept

/-- A recorded operation reports what it did and does nothing. -/
theorem main_recorded (valid : r.valid = true)
    (started : dataSize file ≤ kMaxSize ∧ value file "authority" "schema" = "1")
    (recorded : value file (operationKey r.operation) "fingerprint" = r.fingerprint) (uuid : String)
    (persistence : Persistence) :
    main file r uuid persistence = (if persistence = .done then
      some (value file (operationKey r.operation) "generation") else none, file) := by
  have again : apply file r uuid =
      some (value file (operationKey r.operation) "generation", file) := by
    unfold apply
    dsimp only
    rw [recorded, if_pos (fingerprint_ne_empty r), if_neg (not_not.mpr rfl)]
  unfold main
  rw [if_neg (not_not.mpr ⟨valid, .inr started⟩), again]
  dsimp only
  rw [if_neg (by omega)]
  cases persistence <;> rfl

theorem Sound.started_of_recorded {l : Ledger} {operation : String} (sound : Sound l)
    (known : value l.file (operationKey operation) "fingerprint" ≠ "") :
    dataSize l.file ≤ kMaxSize ∧ value l.file "authority" "schema" = "1" := by
  refine sound.started.resolve_left fun empty => ?_
  have member := KeyFile.mem_of_value known
  rw [Std.ExtTreeMap.isEmpty_iff.mp empty] at member
  exact absurd member (by simp)

/-- A reported operation is recorded with what it reported. -/
theorem main_records {file file' : Groups} {uuid generation : String} {persistence : Persistence}
    (h : main file r uuid persistence = (some generation, file')) :
    r.valid = true ∧ value file' (operationKey r.operation) "fingerprint" = r.fingerprint ∧
      value file' (operationKey r.operation) "generation" = generation := by
  unfold main at h
  split at h
  · cases h
  · rename_i started
    rw [not_not] at started
    refine ⟨started.1, ?_⟩
    split at h
    · cases h
    · rename_i g after applied
      split at h
      · cases h
      · cases persistence with
        | done =>
          cases h
          rcases apply_cases applied with ⟨recorded, rfl, rfl⟩ | ⟨changed, _, rfl⟩
          · exact ⟨recorded, rfl⟩
          · simp [record, value_set]
        | uncertain => cases h
        | failed => cases h

/-- A command that expects another generation has no effect. -/
theorem main_stale (stale : ¬ Current file r) (uuid : String) (persistence : Persistence) :
    (main file r uuid persistence).2 = file := by
  rcases main_cases file r uuid persistence with same | ⟨_, _, _, performs, _, _⟩
  · exact same
  · exact absurd performs.current stale

/-- The inventory after any history of commands. -/
theorem installation_authority {l : Ledger} (reached : Reached l) :
    (∀ group, value l.file group "package" ≠ "" → AgreesAt l.file group) ∧
    (∀ (r : Request) (uuid : String) (persistence : Persistence), ¬ Current l.file r →
      (main l.file r uuid persistence).2 = l.file) ∧
    (∀ (r : Request) (uuid generation : String) (persistence : Persistence) (file : Groups),
      main l.file r uuid persistence = (some generation, file) → r.valid = true ∧
        value file (operationKey r.operation) "fingerprint" = r.fingerprint ∧
        value file (operationKey r.operation) "generation" = generation) ∧
    (∀ r : Request, r.valid = true →
      value l.file (operationKey r.operation) "fingerprint" = r.fingerprint →
      ∀ l', Follows l l' → ∀ (uuid : String) (persistence : Persistence),
        main l'.file r uuid persistence = (if persistence = .done then
          some (value l.file (operationKey r.operation) "generation") else none, l'.file)) ∧
    (∀ package generation other, Accepted l.file package generation →
      Accepted l.file package other → generation = other) ∧
    (∀ package generation, Accepted l.file package generation → ∀ l', Follows l l' →
      value l'.file (packageKey package) "generation" ≠ generation →
      ∀ l'', Follows l' l'' → ¬ Accepted l''.file package generation) := by
  have sound := reached.sound
  refine ⟨sound.agrees.apps, fun r uuid persistence stale => main_stale stale uuid persistence,
    fun r uuid generation persistence file => main_records, ?_, ?_, ?_⟩
  · intro r valid recorded l' follows uuid persistence
    have known := recorded.trans_ne (fingerprint_ne_empty r)
    have kept := follows.recorded known (.inl rfl)
    rw [← follows.recorded known (.inr rfl)]
    exact main_recorded valid ((follows.sound sound).started_of_recorded (kept.trans_ne known))
      (kept.trans recorded) uuid persistence
  · intro package generation other left right
    exact left.generation.1.symm.trans right.generation.1
  · intro package generation accepted l' follows gone l'' later again
    obtain ⟨here, nonempty⟩ := accepted.generation
    have drawn : generation ∈ l.drawn := by
      rcases sound.drawn package with empty | drawn
      · exact absurd (here.symm.trans empty) nonempty
      · rwa [here] at drawn
    exact later.superseded (follows.drawn drawn) gone again.generation.1

/-- An application is attached to a package and committed, and the package is begun again. -/
theorem installation_in_sample : ∃ l l' : Ledger, Reached l ∧ Follows l l' ∧
    AgreesAt l.file "app" ∧ Accepted l.file "pkg" "g1" ∧ ¬ Accepted l'.file "pkg" "g1" := by
  let first : Ledger := ⟨(main ∅ ⟨.begin, "pkg", "", "op1", "absent"⟩ "g1" .done).2, ["g1"]⟩
  let second : Ledger := ⟨(main first.file ⟨.attach, "pkg", "app", "op2", "g1"⟩ "g2" .done).2,
    ["g2", "g1"]⟩
  let third : Ledger := ⟨(main second.file ⟨.commit, "pkg", "", "op3", "g1"⟩ "g3" .done).2,
    ["g3", "g2", "g1"]⟩
  let fourth : Ledger := ⟨(main third.file ⟨.begin, "pkg", "", "op4", "g1"⟩ "g4" .done).2,
    ["g4", "g3", "g2", "g1"]⟩
  have reached : Reached third := .tail (.tail (.single (.run _ "g1" _ (by decide) (by decide)))
    (.run _ "g2" _ (by decide) (by decide))) (.run _ "g3" _ (by decide) (by decide))
  have follows : Follows third fourth := .single (.run _ "g4" _ (by decide) (by decide))
  obtain ⟨owned, accepted, gone⟩ : value third.file "app" "package" ≠ "" ∧
      getInstallationIdentity (fun _ => some "pkg") third.file "pkg" "app" = some "g1" ∧
      value fourth.file (packageKey "pkg") "generation" ≠ "g1" := by
    decide +kernel
  obtain ⟨agree, _, _, _, _, superseded⟩ := installation_authority reached
  exact ⟨third, fourth, reached, follows, agree "app" owned, .inl ⟨_, _, accepted⟩,
    superseded "pkg" "g1" (.inl ⟨_, _, accepted⟩) fourth follows gone fourth .refl⟩

end Consent.Authority
