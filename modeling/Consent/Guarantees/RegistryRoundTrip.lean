import Consent.Repository.Packing
import Consent.Guarantees.Registrations

/-!
What `WriteRegistry` writes, `ReadRegistry` reads.

A registry file packs each definition into a field and all fields into a text, so reading it
unpacks twice and runs the checks of a registration once more. The definitions of every run
pass them: they passed when they were registered, and a removal changes a flag that no check
looks at.
-/
namespace Consent.RegistryText
open Wire (octets octets_inj)
open Repository (Failure kRegistryLimit kMaxDefinitions kMaxOperations)

/-! ### The fields of a registry file -/

theorem rename_injective (mark : String) : Function.Injective (rename mark) :=
  fun _ _ same => List.append_cancel_left same

theorem begins_rename (mark : String) (key : Text) : begins (rename mark key) mark = true := by
  simp [begins, rename]

theorem eq_rename_of_begins {text : Text} {mark : String} (h : begins text mark = true) :
    text = rename mark (text.drop (octets mark).length) := by
  obtain ⟨rest, rfl⟩ := List.isPrefixOf_iff_prefix.mp h
  rw [List.drop_left]
  rfl

theorem begins_operation (key : Text) : begins (rename "o." key) "d." = false := rfl

theorem rename_marks_ne (key id : Text) : rename "o." key ≠ rename "d." id := by
  intro same
  have begins := begins_operation key
  rw [same, begins_rename] at begins
  cases begins

/-- No definition and no operation is recorded under the key. -/
def Plain (key : Text) : Prop := begins key "d." = false ∧ begins key "o." = false

theorem Plain.ne_rename {key : Text} (h : Plain key) (id : Text) :
    rename "d." id ≠ key ∧ rename "o." id ≠ key := by
  constructor
  · rintro rfl
    exact absurd (begins_rename "d." id) (by rw [h.1]; decide)
  · rintro rfl
    exact absurd (begins_rename "o." id) (by rw [h.2]; decide)

section
variable (s : Loaded) (definitions : Std.ExtTreeMap Text Fields compare) (operations : Fields)
  (revision : Int)

def headerNames : List String := ["schema", "revision", "db_device", "db_inode", "db_incarnation"]

theorem headerNames_plain {name : String} (member : name ∈ headerNames) : Plain (octets name) := by
  simp only [headerNames, List.mem_cons, List.not_mem_nil, or_false] at member
  rcases member with rfl | rfl | rfl | rfl | rfl <;> exact ⟨rfl, rfl⟩

theorem header_named {key value : Text} (stored : (header s revision)[key]? = some value) :
    ∃ name ∈ headerNames, key = octets name := by
  rw [header, Std.ExtTreeMap.getElem?_insert] at stored
  split at stored
  · rename_i same
    exact ⟨"db_incarnation", by decide, (Std.LawfulEqCmp.eq_of_compare same).symm⟩
  · obtain ⟨name, text, rfl, rfl, found⟩ := getElem?_encoded_eq_some.mp stored
    refine ⟨name, ?_, rfl⟩
    by_contra absent
    simp only [headerNames, List.mem_cons, List.not_mem_nil, or_false, not_or] at absent
    obtain ⟨schema, revision, device, inode, _⟩ := absent
    simp [Message.of, Ne.symm schema, Ne.symm revision,
      Ne.symm device, Ne.symm inode] at found

theorem header_none {key : Text} (marked : ¬ Plain key) : (header s revision)[key]? = none := by
  rcases stored : (header s revision)[key]? with _ | value
  · rfl
  · obtain ⟨name, member, rfl⟩ := header_named s revision stored
    exact absurd (headerNames_plain member) marked

/-- What the header has under a name. -/
theorem header_field {name : String} (other : name ≠ "db_incarnation") :
    (header s revision)[octets name]? = (Message.of [("schema", "1"),
      ("revision", toString revision), ("db_device", toString s.expectedDevice),
      ("db_inode", toString s.expectedInode)])[name]?.map octets := by
  rw [header, Std.ExtTreeMap.getElem?_insert, if_neg, getElem?_encoded]
  intro same
  exact other (octets_inj (Std.LawfulEqCmp.eq_of_compare same)).symm

theorem rename_not_plain (mark : String) (marks : mark ∈ ["d.", "o."]) (key : Text) :
    ¬ Plain (rename mark key) := by
  rintro ⟨definition, operation⟩
  simp only [List.mem_cons, List.not_mem_nil, or_false] at marks
  rcases marks with rfl | rfl
  · rw [begins_rename] at definition
    cases definition
  · rw [begins_rename] at operation
    cases operation

theorem root_definition (id : Text) :
    (root s definitions operations revision)[rename "d." id]? =
      definitions[id]?.map pack := by
  refine (Maps.getElem?_foldl_rename_of_ne operations (fun value => value) _ fun key =>
    rename_marks_ne key id).trans
    ((Maps.getElem?_foldl_rename definitions (rename_injective "d.") pack _ id).trans ?_)
  rw [header_none s revision (rename_not_plain "d." (by decide) id), Option.or_none]

theorem root_plain {key : Text} (plain : Plain key) :
    (root s definitions operations revision)[key]? = (header s revision)[key]? :=
  (Maps.getElem?_foldl_rename_of_ne operations (fun value => value) _ fun id =>
    (plain.ne_rename id).2).trans
    (Maps.getElem?_foldl_rename_of_ne definitions pack _ fun id => (plain.ne_rename id).1)

theorem root_operation (key : Text) :
    (root s definitions operations revision)[rename "o." key]? =
      operations[key]? := by
  refine (Maps.getElem?_foldl_rename operations (rename_injective "o.") (fun value => value) _
    key).trans ?_
  rw [Maps.getElem?_foldl_rename_of_ne definitions pack _ fun id => (rename_marks_ne key id).symm,
    Option.map_id',
    header_none s revision (rename_not_plain "o." (by decide) key), Option.or_none]

/-! ### Reading them back -/

theorem eq_of_fields {key value : Text}
    (stored : (root s definitions operations revision)[key]? = some value) :
    (∃ id definition, key = rename "d." id ∧ definitions[id]? = some definition ∧
        value = pack definition) ∨
      (∃ name, key = rename "o." name ∧ operations[name]? = some value) ∨
      Plain key ∧ key ∈ headerNames.map octets := by
  by_cases definition : begins key "d." = true
  · rw [eq_rename_of_begins definition, root_definition] at stored
    obtain ⟨config, found, rfl⟩ := Option.map_eq_some_iff.mp stored
    exact .inl ⟨_, config, eq_rename_of_begins definition, found, rfl⟩
  by_cases operation : begins key "o." = true
  · rw [eq_rename_of_begins operation, root_operation] at stored
    exact .inr (.inl ⟨_, eq_rename_of_begins operation, stored⟩)
  have plain : Plain key := ⟨by simpa using definition, by simpa using operation⟩
  rw [root_plain s definitions operations revision plain] at stored
  obtain ⟨name, member, rfl⟩ := header_named s revision stored
  exact .inr (.inr ⟨plain, List.mem_map_of_mem member⟩)

end

/-- Every definition is accepted under its id. -/
def Accepted (other : Fields → Except Failure Unit)
    (definitions : Std.ExtTreeMap Text Fields compare) : Prop :=
  ∀ id definition, definitions[id]? = some definition →
    validateDefinition other definition = .ok () ∧ field definition "definition" "" = id

/-- The items hold what the fields that were read so far say. -/
structure Tells (definitions : Std.ExtTreeMap Text Fields compare) (operations : Fields)
    (done : List (Text × Text)) (items : Items) : Prop where
  defined : ∀ id value, (rename "d." id, value) ∈ done → items.definitions[id]? = definitions[id]?
  undefined : ∀ id, (∀ value, (rename "d." id, value) ∉ done) → items.definitions[id]? = none
  recorded : ∀ key value, (rename "o." key, value) ∈ done → items.operations[key]? = operations[key]?
  unrecorded : ∀ key, (∀ value, (rename "o." key, value) ∉ done) → items.operations[key]? = none

variable {other : Fields → Except Failure Unit} {s : Loaded}
  {definitions : Std.ExtTreeMap Text Fields compare} {operations : Fields} {revision : Int}

/-- An entry that is there already is the one that would be inserted. -/
theorem getElem?_insertIfNew_of {ν : Type} {m : Std.ExtTreeMap Text ν compare} {k : Text} {v : ν}
    (old : m[k]? = some v ∨ m[k]? = none) (a : Text) :
    (m.insertIfNew k v)[a]? = if a = k then some v else m[a]? := by
  rw [Std.ExtTreeMap.getElem?_insertIfNew]
  by_cases same : a = k
  · subst same
    rcases old with stored | missing
    · have present : a ∈ m := Std.ExtTreeMap.mem_iff_isSome_getElem?.mpr (by simp [stored])
      rw [if_neg fun new => new.2 present, if_pos rfl, stored]
    · have absent : a ∉ m := by
        rw [Std.ExtTreeMap.mem_iff_isSome_getElem?, missing]
        simp
      simp [absent]
  · simp [same, Ne.symm same]

variable {done : List (Text × Text)} {items : Items} {hash : Text → Text}

theorem mem_append_singleton {key key' value value' : Text}
    (member : (key, value) ∈ done ++ [(key', value')]) (other : key ≠ key') :
    (key, value) ∈ done := by
  rcases List.mem_append.mp member with inside | last
  · exact inside
  · cases List.mem_singleton.mp last
    exact absurd rfl other

theorem Tells.start : Tells definitions operations [] ⟨∅, ∅⟩ where
  defined id value member := by cases member
  undefined id _ := by simp
  recorded key value member := by cases member
  unrecorded key _ := by simp

theorem Tells.define (h : Tells definitions operations done items) {id value : Text}
    {definition : Fields} (stored : definitions[id]? = some definition) :
    Tells definitions operations (done ++ [(rename "d." id, value)])
      { items with definitions := items.definitions.insertIfNew id definition } := by
  have old : items.definitions[id]? = some definition ∨ items.definitions[id]? = none := by
    by_cases read : ∃ value, (rename "d." id, value) ∈ done
    · obtain ⟨value, member⟩ := read
      exact .inl ((h.defined id value member).trans stored)
    · exact .inr (h.undefined id fun value member => read ⟨value, member⟩)
  refine ⟨fun other seen member => ?_, fun other absent => ?_, fun key seen member => ?_,
    fun key absent => ?_⟩
  · rw [getElem?_insertIfNew_of old]
    split
    · rename_i same
      rw [same, stored]
    · rename_i differs
      exact h.defined other seen (mem_append_singleton member fun same =>
        differs (rename_injective "d." same))
  · rw [getElem?_insertIfNew_of old, if_neg]
    · exact h.undefined other fun seen member => absent seen (List.mem_append_left _ member)
    · rintro rfl
      exact absent value (by simp)
  · exact h.recorded key seen (mem_append_singleton member (rename_marks_ne key id))
  · exact h.unrecorded key fun seen member => absent seen (List.mem_append_left _ member)

theorem Tells.record (h : Tells definitions operations done items) {key value : Text}
    (stored : operations[key]? = some value) :
    Tells definitions operations (done ++ [(rename "o." key, value)])
      { items with operations := items.operations.insertIfNew key value } := by
  have old : items.operations[key]? = some value ∨ items.operations[key]? = none := by
    by_cases read : ∃ value, (rename "o." key, value) ∈ done
    · obtain ⟨value, member⟩ := read
      exact .inl ((h.recorded key value member).trans stored)
    · exact .inr (h.unrecorded key fun value member => read ⟨value, member⟩)
  refine ⟨fun id seen member => ?_, fun id absent => ?_, fun other seen member => ?_,
    fun other absent => ?_⟩
  · exact h.defined id seen (mem_append_singleton member (Ne.symm (rename_marks_ne key id)))
  · exact h.undefined id fun seen member => absent seen (List.mem_append_left _ member)
  · rw [getElem?_insertIfNew_of old]
    split
    · rename_i same
      rw [same, stored]
    · rename_i differs
      exact h.recorded other seen (mem_append_singleton member fun same =>
        differs (rename_injective "o." same))
  · rw [getElem?_insertIfNew_of old, if_neg]
    · exact h.unrecorded other fun seen member => absent seen (List.mem_append_left _ member)
    · rintro rfl
      exact absent value (by simp)

theorem Tells.skip (h : Tells definitions operations done items) {item : Text × Text}
    (plain : Plain item.1) :
    Tells definitions operations (done ++ [item]) items where
  defined id value member :=
    h.defined id value (mem_append_singleton member (plain.ne_rename id).1)
  undefined id absent :=
    h.undefined id fun value member => absent value (List.mem_append_left _ member)
  recorded key value member :=
    h.recorded key value (mem_append_singleton member (plain.ne_rename key).2)
  unrecorded key absent :=
    h.unrecorded key fun value member => absent value (List.mem_append_left _ member)

/-- A field that was written is read as what it was written for. -/
theorem readItem_tells (accepted : Accepted other definitions) {item : Text × Text}
    (stored : (root s definitions operations revision)[item.1]? = some item.2)
    (fits : item.2.length ≤ kRegistryLimit) (h : Tells definitions operations done items) :
    ∃ items', readItem other items item = .ok items' ∧
      Tells definitions operations (done ++ [item]) items' := by
  obtain ⟨key, value⟩ := item
  rcases eq_of_fields s definitions operations revision stored with
    ⟨id, definition, rfl, found, rfl⟩ | ⟨name, rfl, found⟩ | ⟨plain, known⟩
  · obtain ⟨valid, named⟩ := accepted id definition found
    have tail : (rename "d." id).drop 2 = id := rfl
    refine ⟨_, ?_, h.define found⟩
    simp only [readItem, begins_rename, ↓reduceIte, unpack_pack fits, bind, Except.bind, valid, tail,
      named, require, pure, Except.pure]
  · have tail : (rename "o." name).drop 2 = name := rfl
    refine ⟨_, ?_, h.record found⟩
    simp only [readItem, begins_operation, begins_rename, Bool.false_eq_true, ↓reduceIte, tail]
  · refine ⟨items, ?_, h.skip plain⟩
    have listed : key ∈ ["schema", "revision", "db_device", "db_inode", "db_incarnation"].map octets :=
      known
    simp only [readItem, plain.1, plain.2, Bool.false_eq_true, ↓reduceIte, require, listed, bind,
      Except.bind, pure, Except.pure]

theorem readItems_loop (accepted : Accepted other definitions) {left done : List (Text × Text)}
    (stored : ∀ item ∈ left, (root s definitions operations revision)[item.1]? = some item.2 ∧
      item.2.length ≤ kRegistryLimit) (h : Tells definitions operations done items) :
    ∃ items', left.foldlM (readItem other) items = .ok items' ∧
      Tells definitions operations (done ++ left) items' := by
  induction left generalizing done items with
  | nil => exact ⟨items, rfl, by simpa using h⟩
  | cons item left ih =>
    obtain ⟨written, fits⟩ := stored item List.mem_cons_self
    obtain ⟨middle, read, tells⟩ := readItem_tells accepted written fits h
    obtain ⟨items', rest, done'⟩ :=
      ih (fun other member => stored other (List.mem_cons_of_mem _ member)) tells
    refine ⟨items', ?_, by simpa using done'⟩
    rw [List.foldlM_cons, read]
    exact rest

/-- All fields that were written, read one after the other. -/
theorem readItems_root (accepted : Accepted other definitions)
    (fits : ∀ key value : Text, (root s definitions operations revision)[key]? = some value →
      value.length ≤ kRegistryLimit) :
    (root s definitions operations revision).toList.foldlM (readItem other) ⟨∅, ∅⟩ =
      .ok ⟨definitions, operations⟩ := by
  have stored : ∀ item ∈ (root s definitions operations revision).toList,
      (root s definitions operations revision)[item.1]? = some item.2 ∧
        item.2.length ≤ kRegistryLimit := by
    intro item member
    have found := Std.ExtTreeMap.mem_toList_iff_getElem?_eq_some.mp member
    exact ⟨found, fits _ _ found⟩
  obtain ⟨items, read, tells⟩ := readItems_loop accepted stored Tells.start
  rw [List.nil_append] at tells
  rw [read]
  obtain ⟨found, recorded⟩ := items
  have first : found = definitions := by
    apply Std.ExtTreeMap.ext_getElem?
    intro id
    rcases known : definitions[id]? with _ | definition
    · refine tells.undefined id fun value member => ?_
      have written := Std.ExtTreeMap.mem_toList_iff_getElem?_eq_some.mp member
      rw [root_definition, known] at written
      cases written
    · have member : (rename "d." id, pack definition) ∈
          (root s definitions operations revision).toList := by
        rw [Std.ExtTreeMap.mem_toList_iff_getElem?_eq_some, root_definition, known]
        rfl
      exact (tells.defined id _ member).trans known
  have second : recorded = operations := by
    apply Std.ExtTreeMap.ext_getElem?
    intro key
    rcases known : operations[key]? with _ | value
    · refine tells.unrecorded key fun value member => ?_
      have written := Std.ExtTreeMap.mem_toList_iff_getElem?_eq_some.mp member
      rw [root_operation, known] at written
      cases written
    · have member : (rename "o." key, value) ∈ (root s definitions operations revision).toList := by
        rw [Std.ExtTreeMap.mem_toList_iff_getElem?_eq_some, root_operation, known]
      exact (tells.recorded key value member).trans known
  rw [first, second]

/-! ### The whole file -/

theorem checksum_plain : Plain (octets "checksum") := ⟨rfl, rfl⟩

theorem root_checksum : (root s definitions operations revision)[octets "checksum"]? = none := by
  rw [root_plain s definitions operations revision checksum_plain]
  rcases stored : (header s revision)[octets "checksum"]? with _ | value
  · rfl
  · obtain ⟨name, member, same⟩ := header_named s revision stored
    rw [← octets_inj same] at member
    exact absurd member (by decide)

/-- The checksum is an additional field. -/
theorem getElem?_whole (digest : Text) {key : Text} (other : key ≠ octets "checksum") :
    ((root s definitions operations revision).insert (octets "checksum") digest)[key]? =
      (root s definitions operations revision)[key]? := by
  rw [Std.ExtTreeMap.getElem?_insert, if_neg]
  intro same
  exact other (Std.LawfulEqCmp.eq_of_compare same).symm

theorem field_whole (digest : Text) {name : String} (member : name ∈ headerNames)
    (fallback : String) : field ((root s definitions operations revision).insert (octets "checksum")
      digest) name fallback = ((header s revision)[octets name]?).getD (octets fallback) := by
  have other : octets name ≠ octets "checksum" := by
    intro same
    rw [octets_inj same] at member
    exact absurd member (by decide)
  rw [field, Std.ExtTreeMap.getD_eq_getD_getElem?, getElem?_whole digest other,
    root_plain s definitions operations revision (headerNames_plain member)]

theorem erase_whole (digest : Text) :
    ((root s definitions operations revision).insert (octets "checksum") digest).erase
      (octets "checksum") = root s definitions operations revision := by
  apply Std.ExtTreeMap.ext_getElem?
  intro key
  rw [Std.ExtTreeMap.getElem?_erase]
  split
  · rename_i same
    rw [← Std.LawfulEqCmp.eq_of_compare same, root_checksum]
  · rename_i differs
    refine getElem?_whole digest ?_
    rintro rfl
    exact differs (by simp)

/-- The numbers of a registry file are those that `Integer` accepts. -/
structure Ranged (s : Loaded) (revision : Int) : Prop where
  revision : 0 ≤ revision ∧ revision ≤ int64Max
  device : 0 ≤ s.expectedDevice ∧ s.expectedDevice ≤ int64Max
  inode : 0 ≤ s.expectedInode ∧ s.expectedInode ≤ int64Max

theorem integer_toString {n : Int} (range : 0 ≤ n ∧ n ≤ int64Max) :
    integer (octets (toString n)) 0 int64Max = .ok n := by
  obtain ⟨k, rfl⟩ := Int.eq_ofNat_of_zero_le range.1
  exact integer_octets (by omega) range.2 range.2

theorem field_number (digest : Text) {name fallback : String} {n : Int} (member : name ∈ headerNames)
    (other : name ≠ "db_incarnation")
    (stored : (Message.of [("schema", "1"), ("revision", toString revision),
      ("db_device", toString s.expectedDevice), ("db_inode", toString s.expectedInode)])[name]? =
        some (toString n)) :
    field ((root s definitions operations revision).insert (octets "checksum") digest) name fallback =
      octets (toString n) := by
  rw [field_whole digest member, header_field s revision other, stored]
  rfl

/-- What the checks before the assignment find in a file that was written. -/
theorem readHeader_written {file : File}
    (written : file.text = content hash (root s definitions operations revision))
    (fits : file.text.length ≤ kRegistryLimit) (ranged : Ranged s revision) :
    readHeader file = .ok ((root s definitions operations revision).insert (octets "checksum")
      (hash (pack (root s definitions operations revision))), revision, s.expectedDevice) := by
  generalize digested : hash (pack (root s definitions operations revision)) = digest
  rw [content, digested] at written
  have stored : ((root s definitions operations revision).insert (octets "checksum")
      digest)[octets "checksum"]? = some digest := Std.ExtTreeMap.getElem?_insert_self
  have nonempty : 0 < file.text.length := by
    rw [written]
    exact lt_of_le_of_lt (Nat.zero_le _) (length_le_pack stored).2
  have size : 0 < file.stat.size ∧ file.stat.size ≤ kRegistryLimit := by
    rw [file.whole]
    exact ⟨nonempty, fits⟩
  have unpacked : unpack file.text = .ok ((root s definitions operations revision).insert
      (octets "checksum") digest) := by
    rw [written] at fits ⊢
    exact unpack_pack fits
  have schema : field ((root s definitions operations revision).insert (octets "checksum") digest)
      "schema" "" = octets "1" := by
    rw [field_whole digest (by decide), header_field s revision (by decide)]
    simp [Message.of, Std.ExtTreeMap.getElem_insert]
  have numbered : field ((root s definitions operations revision).insert (octets "checksum") digest)
      "revision" "" = octets (toString revision) :=
    field_number digest (by decide) (by decide) (by simp [Message.of, Std.ExtTreeMap.getElem_insert])
  have device : field ((root s definitions operations revision).insert (octets "checksum") digest)
      "db_device" "0" = octets (toString s.expectedDevice) :=
    field_number digest (by decide) (by decide) (by simp [Message.of, Std.ExtTreeMap.getElem_insert])
  simp only [readHeader, require, size, and_self, ↓reduceIte, bind, Except.bind, unpacked, schema,
    numbered, device, integer_toString ranged.revision, integer_toString ranged.device, pure,
    Except.pure]

/-- What the checks after it find. -/
theorem readItems_written
    (fits : (content hash (root s definitions operations revision)).length ≤ kRegistryLimit)
    (accepted : Accepted other definitions) (few : definitions.size ≤ kMaxDefinitions)
    (recorded : operations.size ≤ kMaxOperations) :
    readItems hash other ((root s definitions operations revision).insert (octets "checksum")
      (hash (pack (root s definitions operations revision)))) = .ok ⟨definitions, operations⟩ := by
  have checksum : field ((root s definitions operations revision).insert (octets "checksum")
      (hash (pack (root s definitions operations revision)))) "checksum" "" =
        hash (pack (root s definitions operations revision)) := by
    rw [field, Std.ExtTreeMap.getD_insert_self]
  have each : ∀ key value : Text, (root s definitions operations revision)[key]? = some value →
      value.length ≤ kRegistryLimit := by
    intro key value stored
    have other : key ≠ octets "checksum" := by
      rintro rfl
      rw [root_checksum] at stored
      cases stored
    have := (length_le_pack ((getElem?_whole (hash (pack (root s definitions operations revision)))
      other).trans stored)).2
    rw [content] at fits
    omega
  simp only [readItems, checksum, erase_whole, require, ↓reduceIte, bind, Except.bind,
    readItems_root accepted each, few, recorded, and_self, pure, Except.pure]

/-- A content that is to be written fits. -/
theorem prepareRegistry_ok {text : Text}
    (h : prepareRegistry hash definitions operations revision s = .ok text) :
    (content hash (root s definitions operations revision)).length ≤ kRegistryLimit ∧
      operations.size ≤ kMaxOperations ∧
      text = content hash (root s definitions operations revision) := by
  unfold prepareRegistry require at h
  dsimp only [bind, Except.bind] at h
  split at h
  · cases h
  · rename_i passed
    split at passed
    · rename_i fits
      exact ⟨fits.1, fits.2, (Except.ok.inj h).symm⟩
    · cases passed

/-- A file that was written is read as what it was written for. -/
theorem readFile_written {file : File}
    (written : file.text = content hash (root s definitions operations revision))
    (fits : file.text.length ≤ kRegistryLimit) (ranged : Ranged s revision)
    (accepted : Accepted other definitions) (few : definitions.size ≤ kMaxDefinitions)
    (recorded : operations.size ≤ kMaxOperations) (before : Loaded) :
    readFile hash other file before = (.ok (), { s with
      definitions, operations, registryRevision := revision, registryIdentity := file.stat }) := by
  have inode : field ((root s definitions operations revision).insert (octets "checksum")
      (hash (pack (root s definitions operations revision)))) "db_inode" "0" =
        octets (toString s.expectedInode) :=
    field_number _ (by decide) (by decide) (by simp [Message.of])
  have incarnation : field ((root s definitions operations revision).insert (octets "checksum")
      (hash (pack (root s definitions operations revision)))) "db_incarnation" "" =
        s.expectedIncarnation := by
    rw [field_whole _ (by decide), header, Std.ExtTreeMap.getElem?_insert_self]
    rfl
  rw [written] at fits
  have items := readItems_written fits accepted few recorded
  simp only [readFile, readHeader_written written (by rw [written]; exact fits) ranged, inode,
    integer_toString ranged.inode, items, incarnation]

end Consent.RegistryText

namespace Consent.Repository
open Profile

/-! ### Definitions that differ in their activity -/

/-- The messages differ in the field `active` only. -/
structure Alike (a b : Message) : Prop where
  size : a.size = b.size
  fields : ∀ key : String, key ≠ "active" → a[key]? = b[key]?

namespace Alike

variable {a b : Message} (h : Alike a b)
include h

theorem get (key : String) (other : key ≠ "active") : a.get key = b.get key := by
  rw [Message.get_eq, Message.get_eq, h.fields key other]

theorem getD (key : String) (other : key ≠ "active") (fallback : String) :
    a.getD key fallback = b.getD key fallback := by
  rw [Std.ExtTreeMap.getD_eq_getD_getElem?, Std.ExtTreeMap.getD_eq_getD_getElem?, h.fields key other]

theorem contains (key : String) (other : key ≠ "active") : a.contains key = b.contains key := by
  rw [Std.ExtTreeMap.contains_eq_isSome_getElem?, Std.ExtTreeMap.contains_eq_isSome_getElem?,
    h.fields key other]

/-- The fields of a kind to which `active` does not belong. -/
theorem toList_filter {p : String → Bool} (apart : p "active" = false) :
    (a.toList.filter fun field => p field.1) = b.toList.filter fun field => p field.1 := by
  have same : a.filter (fun key _ => p key) = b.filter fun key _ => p key := by
    apply Std.ExtTreeMap.ext_getElem?
    intro key
    rw [Std.ExtTreeMap.getElem?_filter', Std.ExtTreeMap.getElem?_filter']
    by_cases other : key = "active"
    · subst other
      simp [apart]
    · rw [h.fields key other]
  have lists := congrArg Std.ExtTreeMap.toList same
  rwa [Std.ExtTreeMap.toList_filter, Std.ExtTreeMap.toList_filter] at lists

/-- A loop that skips all fields but those of a kind. -/
theorem foldlM {α : Type} {p : String → Bool} {f : α → String × String → Except String α}
    (apart : p "active" = false) (skips : ∀ x field, p field.1 = false → f x field = .ok x) (x : α) :
    a.toList.foldlM f x = b.toList.foldlM f x := by
  have skipped : ∀ (fields : List (String × String)) (x : α),
      fields.foldlM f x = (fields.filter fun field => p field.1).foldlM f x := by
    intro fields
    induction fields with
    | nil => exact fun x => rfl
    | cons field fields ih =>
      intro x
      rcases kind : p field.1 with _ | _
      · rw [List.foldlM_cons, skips x field kind, List.filter_cons_of_neg (by simp [kind])]
        exact ih x
      · rw [List.foldlM_cons, List.filter_cons_of_pos (by simpa using kind),
          List.foldlM_cons]
        exact congrArg _ (funext ih)
  rw [skipped, skipped b.toList, h.toList_filter apart]

theorem groupParameters : Localization.groupParameters a = Localization.groupParameters b := by
  have versions := h.contains "template_version" (by decide)
  unfold Localization.groupParameters
  rw [versions]
  refine h.foldlM (p := fun key => starts key "parameter.") (by decide) (fun x field other => ?_) _
  rw [other]
  rfl

theorem parseSchema : Localization.parseSchema a = Localization.parseSchema b := by
  unfold Localization.parseSchema
  rw [h.size, h.contains _ (by decide), h.get _ (by decide), h.groupParameters]

theorem groupLocales : Localization.groupLocales a = Localization.groupLocales b := by
  unfold Localization.groupLocales
  congr 1
  refine h.foldlM (p := fun key => starts key "message.") (by decide) (fun x field other => ?_) _
  rw [other]
  rfl

theorem messageLocales (schema : Localization.Schema) :
    Localization.messageLocales a schema = Localization.messageLocales b schema := by
  have registers : Localization.registerLocale a = Localization.registerLocale b := by
    unfold Localization.registerLocale
    rw [h.contains _ (by decide)]
  have fallback (name : String) : a.get ("locale_fallback." ++ name) =
      b.get ("locale_fallback." ++ name) := by
    refine h.get _ fun same => ?_
    have heads := congrArg (fun text => text.toList.head?) same
    simp at heads
  unfold Localization.messageLocales
  rw [h.groupLocales, registers, h.get _ (by decide)]
  congr 1
  funext locales
  dsimp only
  congr 1
  funext registered
  split
  · rfl
  · simp only [fallback]
    congr 1
    refine h.foldlM (p := fun key => starts key "locale_fallback.") (by decide)
      (fun x field other => ?_) _
    rw [other]
    rfl

theorem validateLocalization :
    Localization.validateDefinition a = Localization.validateDefinition b := by
  unfold Localization.validateDefinition
  rw [h.parseSchema, h.getD _ (by decide)]
  simp only [h.messageLocales]

/-- The verdict on a definition does not depend on whether it is active. -/
theorem validateDefinition :
    Registration.validateDefinition a = Registration.validateDefinition b := by
  have texts (head : String) : a.get ("message." ++ a.get "default_locale" ++ head) =
      b.get ("message." ++ b.get "default_locale" ++ head) := by
    rw [h.get "default_locale" (by decide)]
    refine h.get _ fun same => ?_
    have heads := congrArg (fun text => text.toList.head?) same
    simp at heads
  have messages := h.toList_filter (p := fun key => starts key "message.") (by decide)
  unfold Registration.validateDefinition
  simp only [List.all_cons, List.all_nil, h.get "definition" (by decide),
    h.get "package" (by decide), h.get "app" (by decide),
    h.get "enforcer" (by decide), h.get "policy_version" (by decide),
    h.get "text_revision" (by decide), h.get "level" (by decide),
    h.get "modes" (by decide), h.get "retention_ms" (by decide),
    h.contains "retention_ms" (by decide), messages, texts, h.validateLocalization]
  rw [h.get "default_locale" (by decide)]

end Alike

theorem alike_insert_active {config : Message} (flagged : "active" ∈ config) (value : String) :
    Alike (config.insert "active" value) config where
  size := by rw [Std.ExtTreeMap.size_insert, if_pos (Std.ExtTreeMap.contains_iff_mem.mpr flagged)]
  fields key other := by
    rw [Std.ExtTreeMap.getElem?_insert, if_neg]
    intro same
    exact other (Std.LawfulEqCmp.eq_of_compare same).symm

/-! ### The definitions of every run -/

/-- A definition that reads back: it is stored under its id, has the flag `active` and passes the
checks of a registration. -/
structure Storable (id : String) (config : Message) : Prop where
  named : config.get "definition" = id
  flagged : "active" ∈ config
  acceptable : Acceptable config

/-- The definitions of a registry that reads back. -/
structure Registrable (definitions : Definitions) : Prop where
  each : ∀ (id : String) (config : Message), definitions[id]? = some config → Storable id config
  few : definitions.size ≤ kMaxDefinitions

theorem Registrable.empty : Registrable ∅ where
  each id config stored := by simp at stored
  few := Nat.zero_le _

theorem Storable.insert_active {id : String} {config : Message} (h : Storable id config)
    (value : String) : Storable id (config.insert "active" value) := by
  have alike := alike_insert_active h.flagged value
  refine ⟨?_, Std.ExtTreeMap.mem_insert_self, ?_, ?_⟩
  · rw [alike.get _ (by decide)]
    exact h.named
  · rw [alike.get _ (by decide)]
    exact h.acceptable.1
  · rw [alike.validateDefinition]
    exact h.acceptable.2

variable {definitions : Definitions}

/-- A removal keeps the definitions readable. -/
theorem Registrable.deactivatePackage (h : Registrable definitions) (package : String) :
    Registrable (deactivatePackage definitions package) where
  each id config stored := by
    rw [getElem?_deactivatePackage] at stored
    obtain ⟨old, found, rfl⟩ := Option.map_eq_some_iff.mp stored
    split
    · exact (h.each id old found).insert_active _
    · exact h.each id old found
  few := by
    rw [Repository.deactivatePackage, Std.ExtTreeMap.size_map]
    exact h.few

theorem registeredDefinition_storable {request : Message}
    (acceptable : Acceptable (registeredDefinition request)) :
    Storable ((registeredDefinition request).get "definition") (registeredDefinition request) :=
  ⟨rfl, Std.ExtTreeMap.mem_insert_self, acceptable⟩

variable {σ ε : Type} [Host σ ε]

omit [Host σ ε] in
/-- What a registration or a removal writes is readable. -/
theorem Registers.registrable {c : Context ε} {Q : Members → Prop} {key : String}
    {request : Message} {remove : Bool} {m : Members} {content : Registry}
    (h : Registers c Q key request remove m content) (before : Registrable m.definitions) :
    Registrable content.definitions := by
  obtain ⟨_, amends, _, acceptable, few⟩ := h
  cases remove with
  | true =>
    obtain ⟨_, removed⟩ := amends.changes.of_removed
    rw [removed]
    exact before.deactivatePackage _
  | false =>
    obtain ⟨_, registered⟩ := amends.changes.of_registered
    refine ⟨fun id config stored => ?_, few⟩
    rw [registered, Std.ExtTreeMap.getElem?_insert] at stored
    split at stored
    · rename_i same
      rw [← Std.LawfulEqCmp.eq_of_compare same, ← Option.some.inj stored]
      exact registeredDefinition_storable (acceptable rfl)
    · exact before.each id config stored

omit [Host σ ε] in
theorem Step.Allows.registrable {P : Platform} {environment : Environment ε} {step : Step σ}
    {m : Members} {content : Registry} (h : step.Allows ⟨P, environment⟩ m content)
    (before : Registrable m.definitions) : Registrable content.definitions := by
  cases step with
  | execute peer request => exact h.2.registrable before
  | importOfflineRegistration seed =>
    rcases h.2 with registers | obsolete
    · exact registers.registrable before
    · rw [obsolete.changes.of_obsolete]
      exact before
  | _ => cases h

/-- In every run that no other program disturbs the registry reads back. -/
theorem Continues.registrable {P : Platform} {device : Nat} {registry : Option Registry} {main : σ}
    {v : World σ ε} (image : ∀ r, registry = some r → Registrable r.definitions)
    (continues : Continues P (fun _ _ => True) (World.start device registry main) v)
    (clean : Untampered v.progress.record) :
    Registrable (listing v.members.disk.registry).definitions ∧
      Registrable (listing v.members.disk.durable).definitions := by
  have start : Registrable (listing (imageRegistry registry)).definitions := by
    cases registry with
    | none => exact .empty
    | some r => exact image r rfl
  obtain ⟨_, placed, durable⟩ := (Attained.start device registry main).retains
    (I := fun l => Registrable l.definitions) (L := True) continues clean (fun _ _ _ _ => trivial)
    (fun _ _ _ _ _ _ _ _ _ allowed _ before => Step.Allows.registrable allowed before) start
    fun _ => start
  exact ⟨placed, durable trivial⟩

/-! ### The round trip -/

open RegistryText (Text Fields Loaded File encoded prepareRegistry field getElem?_encoded
  decoded_encoded)

/-- The octets of the definitions. -/
def encodedDefinitions (definitions : Definitions) : Std.ExtTreeMap Text Fields compare :=
  definitions.toList.foldl (fun result item => result.insert (Wire.octets item.1) (encoded item.2)) ∅

theorem getElem?_encodedDefinitions {key : Text} {fields : Fields}
    (stored : (encodedDefinitions definitions)[key]? = some fields) :
    ∃ id config, key = Wire.octets id ∧ fields = encoded config ∧ definitions[id]? = some config := by
  by_cases named : ∃ id, Wire.octets id = key
  · obtain ⟨id, rfl⟩ := named
    rw [encodedDefinitions, Maps.getElem?_foldl_rename definitions (fun _ _ => Wire.octets_inj) encoded]
      at stored
    rw [Std.ExtTreeMap.getElem?_empty, Option.or_none] at stored
    obtain ⟨config, found, rfl⟩ := Option.map_eq_some_iff.mp stored
    exact ⟨id, config, rfl, rfl, found⟩
  · have absent : (encodedDefinitions definitions)[key]? =
        (∅ : Std.ExtTreeMap Text Fields compare)[key]? :=
      Maps.getElem?_foldl_rename_of_ne definitions encoded ∅ fun id same => named ⟨id, same⟩
    rw [absent] at stored
    simp at stored

theorem Registrable.accepted (h : Registrable definitions) (other : Fields → Except Failure Unit) :
    RegistryText.Accepted other (encodedDefinitions definitions) := by
  intro key fields stored
  obtain ⟨id, config, rfl, rfl, found⟩ := getElem?_encodedDefinitions stored
  have storable := h.each id config found
  refine ⟨?_, ?_⟩
  · simp only [RegistryText.validateDefinition, decoded_encoded, RegistryText.require, storable.acceptable.1,
      storable.acceptable.2, ne_eq, not_false_eq_true, ↓reduceIte, bind, Except.bind]
  · rw [field, Std.ExtTreeMap.getD_eq_getD_getElem?, getElem?_encoded, ← storable.named,
      Message.get_eq]
    rcases config["definition"]? with _ | value <;> rfl

theorem size_foldl_insert {ι κ ν : Type} {cmp : κ → κ → Ordering} [Std.TransCmp cmp]
    (f : ι → κ) (g : ι → ν) (items : List ι) (m : Std.ExtTreeMap κ ν cmp) :
    (items.foldl (fun m i => m.insert (f i) (g i)) m).size ≤ m.size + items.length := by
  induction items generalizing m with
  | nil => simp
  | cons i items ih =>
    have grown := Std.ExtTreeMap.size_insert_le (t := m) (k := f i) (v := g i)
    have := ih (m.insert (f i) (g i))
    rw [List.foldl_cons, List.length_cons]
    omega

theorem Registrable.few_encoded (h : Registrable definitions) :
    (encodedDefinitions definitions).size ≤ kMaxDefinitions := by
  have counted := size_foldl_insert (fun item : String × Message => Wire.octets item.1)
    (fun item => encoded item.2) definitions.toList (∅ : Std.ExtTreeMap Text Fields compare)
  rw [Std.ExtTreeMap.length_toList, Std.ExtTreeMap.size_empty, Nat.zero_add] at counted
  exact counted.trans h.few

/-- Whatever `WriteRegistry` has written of definitions that are readable is accepted by
`ReadRegistry` and read as what it was; and in every run the definitions are readable, however
they were registered, imported or removed. -/
theorem written_registry_is_read {P : Platform} :
    (∀ (hash : Text → Text) (other : Fields → Except Failure Unit) (definitions : Definitions)
      (operations : Message) (revision : Int) (s before : Loaded) (initial : Bool) (file : File),
      Registrable definitions → RegistryText.Ranged s revision →
      prepareRegistry hash (encodedDefinitions definitions) (encoded operations) revision s =
        .ok file.text →
      RegistryText.readRegistry hash other initial (.file file) before = (.ok (), { s with
        definitions := encodedDefinitions definitions, operations := encoded operations
        registryRevision := revision, registryIdentity := file.stat })) ∧
    ∀ (device : Nat) (registry : Option Registry) (main : σ) (v : World σ ε),
      (∀ r, registry = some r → Registrable r.definitions) →
      Continues P (fun _ _ => True) (World.start device registry main) v →
      Untampered v.progress.history →
      Registrable (listing v.members.disk.registry).definitions ∧
        Registrable (listing v.members.disk.durable).definitions := by
  refine ⟨?_, fun device registry main v image continues clean => continues.registrable image clean.record⟩
  intro hash other definitions operations revision s before initial file registrable ranged written
  obtain ⟨fits, recorded, text⟩ := RegistryText.prepareRegistry_ok written
  exact RegistryText.readFile_written text (by rw [text]; exact fits) ranged
    (registrable.accepted other) registrable.few_encoded recorded before

namespace Sample

/-- The definition `loc`, active or removed. -/
theorem registrable (flag : String) :
    Registrable ((∅ : Definitions).insert "loc" (location.insert "active" flag)) where
  each id config stored := by
    rw [Std.ExtTreeMap.getElem?_insert] at stored
    split at stored
    · rename_i same
      rw [← Std.LawfulEqCmp.eq_of_compare same, ← Option.some.inj stored]
      have active : Storable "loc" location := ⟨by decide +kernel, by decide +kernel,
        by decide +kernel, by decide +kernel⟩
      exact active.insert_active flag
    · simp at stored
  few := by
    rw [Std.ExtTreeMap.size_insert]
    decide

def loaded : Loaded := ⟨∅, ∅, 0, ⟨0, 0, 0, 0, 0⟩, 5, 7, Wire.octets "mine"⟩

def registryText : Text :=
  RegistryText.content id (RegistryText.root loaded
    (encodedDefinitions ((∅ : Definitions).insert "loc" (location.insert "active" "0")))
    (encoded (Message.of [("k", "v")])) 3)

def registryFile : File := ⟨⟨1, 2, registryText.length, 0, 0⟩, registryText, rfl⟩

end Sample

/-- A removed definition and an operation, written and read. -/
theorem written_registry_in_sample :
    prepareRegistry id
      (encodedDefinitions ((∅ : Definitions).insert "loc" (Sample.location.insert "active" "0")))
      (encoded (Message.of [("k", "v")])) 3 Sample.loaded = .ok Sample.registryFile.text ∧
    (RegistryText.readRegistry id (fun _ => .ok ()) true (.file Sample.registryFile)
      Sample.loaded).2.registryRevision = 3 := by
  have written : prepareRegistry id
      (encodedDefinitions ((∅ : Definitions).insert "loc" (Sample.location.insert "active" "0")))
      (encoded (Message.of [("k", "v")])) 3 Sample.loaded = .ok Sample.registryFile.text := by
    decide +kernel
  have read := (written_registry_is_read (σ := ProfileState) (ε := ProfileStep)
    (P := Sample.platform)).1 id (fun _ => .ok ()) _ _ 3 Sample.loaded Sample.loaded true
    Sample.registryFile (Sample.registrable "0")
    ⟨by decide, by decide, by decide⟩ written
  exact ⟨written, by rw [read]⟩

end Consent.Repository
