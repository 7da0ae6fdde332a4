import Consent.Guarantees.RoundTrip
import Consent.Library.Maps
import Consent.Offline
import Consent.Repository.Execute

/-!
What the image builder writes the daemon can import: a record of the spool decodes to the
registration that was written, and the importer finds nothing wrong with its form.
-/
namespace Consent.Offline
open Octets (Buffer bigEndian)

/-- The codec of the program over a digest. -/
def wireCodec (sha256 : List UInt8 → String) : Codec where
  encode := Wire.encode
  decode bytes := Wire.decode (Buffer.of bytes fun _ => 0)
  sha256 := sha256

/-- A digest is written with 64 hexadecimal digits. -/
def Hexadecimal (sha256 : List UInt8 → String) : Prop :=
  ∀ bytes, (sha256 bytes).toList.length = 64 ∧ (sha256 bytes).toList.all lowerHex = true

theorem lowerHex_size {c : Char} (h : lowerHex c = true) : c.utf8Size = 1 := by
  rw [Char.utf8Size_eq_one_iff, UInt32.le_iff_toNat_le]
  simp only [lowerHex, asciiDigit, Bool.or_eq_true, Bool.and_eq_true, decide_eq_true_eq,
    Char.le_def, UInt32.le_iff_toNat_le] at h
  have nine : ('9' : Char).val.toNat = 57 := rfl
  have f : ('f' : Char).val.toNat = 102 := rfl
  have limit : (127 : UInt32).toNat = 127 := rfl
  omega

/-- A digest passes the check of its form. -/
theorem Hexadecimal.valid {sha256 : List UInt8 → String} (h : Hexadecimal sha256)
    (bytes : List UInt8) : (sha256 bytes).utf8ByteSize = 64 ∧
      registrationName (sha256 bytes ++ ".parcel") = true ∧
      validField "payload_sha256" (sha256 bytes) = true := by
  obtain ⟨length, digits⟩ := h bytes
  have each := List.all_eq_true.mp digits
  have size : ∀ l : List Char, (∀ c ∈ l, lowerHex c = true) → String.utf8Len l = l.length := by
    intro l
    induction l with
    | nil => intro _; rfl
    | cons c rest ih =>
      intro hex
      rw [String.utf8Len_cons, ih fun c member => hex c (by simp [member]),
        lowerHex_size (hex c (by simp)), List.length_cons]
  have whole : (sha256 bytes).utf8ByteSize = 64 := by
    rw [← String.utf8Len_toList, size _ each, length]
  have clean : '\x00' ∉ (sha256 bytes).toList := fun member =>
    absurd (each _ member) (by decide)
  refine ⟨whole, ?_, ?_⟩
  · simp [registrationName, length, digits]
  · have key : validField "payload_sha256" "" = true := by decide
    simp only [validField, Bool.and_eq_true, decide_eq_true_eq, Bool.not_eq_true',
      List.contains_eq_mem, decide_eq_false_iff_not] at key ⊢
    exact ⟨⟨⟨key.1.1.1, by rw [whole]; decide⟩, clean⟩, key.2⟩

/-! ### Registrations -/

/-- A field that a registration may have. -/
def Permitted (field : String × String) : Prop :=
  if field.1 = "method" then field.2 = "register"
  else (Registration.isDefinitionField field.1 || field.1 == "operation_id" ||
    field.1 == "expected_generation") = true ∧ validField field.1 field.2 = true

theorem require_bind {α : Type} {condition : Bool} {status : Errno} {message : String}
    {f : Unit → Except Failure α} {a : α} :
    (require condition status message >>= f) = .ok a ↔ condition = true ∧ f () = .ok a := by
  cases condition with
  | false => exact ⟨fun h => (by cases h), fun h => absurd h.1 (by decide)⟩
  | true => exact ⟨fun h => ⟨rfl, h⟩, fun h => h.2⟩

theorem ok_bind {α β : Type} (a : α) (f : α → Except Failure β) : (Except.ok a >>= f) = f a := rfl

theorem publicField_eq_ok (result : Message) (field : String × String) {p : Message} :
    publicField result field = .ok p ↔ Permitted field ∧
      (if field.1 = "method" then result else result.insert field.1 field.2) = p := by
  unfold publicField Permitted
  by_cases method : field.1 = "method"
  · simp only [if_pos method, require_bind, beq_iff_eq]
    exact and_congr_right fun _ => ⟨Except.ok.inj, congrArg _⟩
  · simp only [if_neg method, require_bind, and_assoc]
    exact and_congr_right fun _ => and_congr_right fun _ => ⟨Except.ok.inj, congrArg _⟩

theorem foldlM_publicField {fields : List (String × String)} (result : Message) {p : Message} :
    fields.foldlM publicField result = .ok p ↔ (∀ field ∈ fields, Permitted field) ∧
      (fields.filter fun field => decide (field.1 ≠ "method")).foldl
        (fun result field => result.insert field.1 field.2) result = p := by
  induction fields generalizing result with
  | nil =>
    simp only [List.foldlM_nil, List.not_mem_nil, false_implies, implies_true, true_and,
      List.filter_nil, List.foldl_nil]
    exact ⟨Except.ok.inj, congrArg _⟩
  | cons field rest ih =>
    rw [List.foldlM_cons]
    constructor
    · intro run
      obtain ⟨mid, first, others⟩ := Except.of_bind_ok run
      obtain ⟨permitted, rfl⟩ := (publicField_eq_ok _ _).mp first
      obtain ⟨each, rfl⟩ := (ih _).mp others
      refine ⟨by simpa [permitted] using each, ?_⟩
      by_cases method : field.1 = "method"
      · simp [method]
      · simp [method]
    · rintro ⟨each, rfl⟩
      have first := (publicField_eq_ok result field).mpr
        ⟨each field (by simp), rfl⟩
      rw [first]
      refine (ih _).mpr ⟨fun other member => each other (by simp [member]), ?_⟩
      by_cases method : field.1 = "method"
      · simp [method]
      · simp [method]

/-- The fields of a message without `method`. -/
theorem foldl_insert_toList (v : Message) :
    (v.toList.filter fun field => decide (field.1 ≠ "method")).foldl
      (fun result field => result.insert field.1 field.2) ∅ = v.erase "method" := by
  apply Std.ExtTreeMap.ext_getElem?
  intro key
  have apart : (v.toList.filter fun field => decide (field.1 ≠ "method")).Pairwise
      fun p q => p.1 ≠ q.1 := (Maps.toList_keys_apart v).filter _
  have listed : ∀ field : String × String,
      field ∈ v.toList.filter (fun field => decide (field.1 ≠ "method")) ↔
        v[field.1]? = some field.2 ∧ field.1 ≠ "method" := by
    intro field
    rw [List.mem_filter, decide_eq_true_eq, ← Std.ExtTreeMap.mem_toList_iff_getElem?_eq_some]
  rw [Std.ExtTreeMap.getElem?_erase]
  by_cases method : key = "method"
  · rw [if_pos (by simp [method]), Maps.getElem?_foldl_insert_of_ne]
    · simp
    · intro field member same
      exact ((listed field).mp member).2 (same.trans method)
  · rw [if_neg (by simpa using Ne.symm method)]
    rcases held : v[key]? with _ | value
    · rw [Maps.getElem?_foldl_insert_of_ne]
      · simp
      · intro field member same
        have found := ((listed field).mp member).1
        rw [same, held] at found
        cases found
    · exact Maps.getElem?_foldl_insert_of_mem (i := (key, value)) apart
        ((listed _).mpr ⟨held, method⟩) ∅

/-- What the builder demands of a registration. -/
structure Registrable (v : Message) : Prop where
  fields : ∀ field ∈ v.toList, Permitted field
  identifiers : identifier (v.get "operation_id") = true ∧
    identifier (v.get "expected_generation") = true
  definition : (Registration.validateDefinition (v.erase "method")).isOk = true

theorem get_erase_method (v : Message) {key : String} (other : key ≠ "method") :
    Message.get (v.erase "method") key = v.get key := by
  rw [Message.get_eq, Message.get_eq, Std.ExtTreeMap.getElem?_erase,
    if_neg (by simpa using Ne.symm other)]

theorem publicRegistration_eq_ok {v p : Message} :
    publicRegistration v = .ok p ↔ Registrable v ∧ v.erase "method" = p := by
  unfold publicRegistration
  constructor
  · intro run
    obtain ⟨result, loop, run⟩ := Except.of_bind_ok run
    obtain ⟨each, rfl⟩ := (foldlM_publicField ∅).mp loop
    rw [foldl_insert_toList] at run
    obtain ⟨identifiers, run⟩ := require_bind.mp run
    obtain ⟨definition, run⟩ := require_bind.mp run
    rw [Bool.and_eq_true, get_erase_method v (by decide), get_erase_method v (by decide)]
      at identifiers
    exact ⟨⟨each, identifiers, definition⟩, Except.ok.inj run⟩
  · rintro ⟨⟨each, identifiers, definition⟩, rfl⟩
    have loop := (foldlM_publicField ∅).mpr ⟨each, rfl⟩
    rw [foldl_insert_toList] at loop
    rw [loop]
    refine require_bind.mpr ⟨?_, require_bind.mpr ⟨definition, rfl⟩⟩
    rw [get_erase_method v (by decide), get_erase_method v (by decide), identifiers.1,
      identifiers.2]
    rfl

variable {v : Message} {payload : List UInt8}

/-- A registration without its method is one. -/
theorem Registrable.erase (h : Registrable v) :
    Registrable (v.erase "method") ∧ Std.ExtTreeMap.erase (v.erase "method") "method" =
      v.erase "method" := by
  have twice : Std.ExtTreeMap.erase (v.erase "method") "method" = v.erase "method" := by
    apply Std.ExtTreeMap.ext_getElem?
    intro key
    by_cases method : "method" = key
    · simp [method]
    · simp [Std.ExtTreeMap.getElem?_erase, method]
  refine ⟨⟨?_, ?_, ?_⟩, twice⟩
  · intro field member
    refine h.fields field ?_
    rw [Std.ExtTreeMap.mem_toList_iff_getElem?_eq_some, Std.ExtTreeMap.getElem?_erase] at member
    rw [Std.ExtTreeMap.mem_toList_iff_getElem?_eq_some]
    split at member
    · cases member
    · exact member
  · rw [get_erase_method v (by decide), get_erase_method v (by decide)]
    exact h.identifiers
  · rw [twice]
    exact h.definition

/-! ### Records -/

/-- The message that is encoded for a registration. -/
def envelopeMessage (v : Message) : Message :=
  ((v.insert "v" "1").insert "id" "1").insert "method" "register"

/-- The same with the format and the digest of the record. -/
def recordMessage (v : Message) (digest : String) : Message :=
  ((envelopeMessage v).insert "payload_sha256" digest).insert "offline_format" "1"

theorem recordPayload_ok {codec : Codec} (h : recordPayload codec v = .ok payload) :
    codec.encode (envelopeMessage v) ≠ [] ∧ 4 < (codec.encode (envelopeMessage v)).length ∧
      codec.encode (recordMessage v (codec.sha256 ((codec.encode (envelopeMessage v)).drop 4))) =
        payload ∧ payload ≠ [] ∧ payload.length ≤ kMaxRegistrationFileBytes := by
  unfold recordPayload payloadDigest at h
  simp only [require_bind, Bool.not_eq_true', bind_assoc, pure_bind, decide_eq_true_eq,
    Bool.and_eq_true, List.isEmpty_eq_false_iff] at h
  obtain ⟨encodes, long, ⟨nonempty, short⟩, made⟩ := h
  cases made
  exact ⟨encodes, long, rfl, nonempty, short⟩

theorem frameSize_bigEndian {n : Nat} (small : n < 256 ^ 4) (rest : List UInt8) :
    frameSize (bigEndian 4 n ++ rest) = n := by
  have value := Octets.value_bigEndian small
  obtain ⟨a, b, c, d, octets⟩ : ∃ a b c d, bigEndian 4 n = [a, b, c, d] := ⟨_, _, _, _, rfl⟩
  rw [octets] at value ⊢
  simpa [frameSize, Octets.value] using value

/-- A registration does not use the keys of the envelope. -/
theorem Registrable.absent (h : Registrable v) (key : String)
    (foreign : (Registration.isDefinitionField key || key == "operation_id" ||
      key == "expected_generation") = false) (other : key ≠ "method") : v[key]? = none := by
  rcases held : v[key]? with _ | value
  · rfl
  · have permitted := h.fields (key, value)
      (Std.ExtTreeMap.mem_toList_iff_getElem?_eq_some.mpr held)
    rw [Permitted, if_neg other, foreign] at permitted
    exact absurd permitted.1 (by decide)

theorem Registrable.erase_record (h : Registrable v) (digest : String) :
    Message.eraseAll (recordMessage v digest) ["offline_format", "payload_sha256"] =
      envelopeMessage v := by
  have format := h.absent "offline_format" (by decide) (by decide)
  have recorded := h.absent "payload_sha256" (by decide) (by decide)
  apply Std.ExtTreeMap.ext_getElem?
  intro key
  simp only [Message.eraseAll, List.foldl_cons, List.foldl_nil, recordMessage, envelopeMessage,
    Std.ExtTreeMap.getElem?_erase, Std.ExtTreeMap.getElem?_insert, Std.LawfulEqCmp.compare_eq_iff_eq]
  by_cases first : key = "offline_format"
  · subst first
    simp [format]
  · by_cases second : key = "payload_sha256"
    · subst second
      simp [recorded]
    · simp [Ne.symm first, Ne.symm second]

theorem Registrable.erase_envelope (h : Registrable v) :
    Message.eraseAll (envelopeMessage v) ["v", "id", "method"] = v.erase "method" := by
  have version := h.absent "v" (by decide) (by decide)
  have id := h.absent "id" (by decide) (by decide)
  apply Std.ExtTreeMap.ext_getElem?
  intro key
  simp only [Message.eraseAll, List.foldl_cons, List.foldl_nil, envelopeMessage,
    Std.ExtTreeMap.getElem?_erase, Std.ExtTreeMap.getElem?_insert, Std.LawfulEqCmp.compare_eq_iff_eq]
  by_cases first : key = "v"
  · subst first
    simp [version]
  · by_cases second : key = "id"
    · subst second
      simp [id]
    · by_cases third : key = "method"
      · simp [third]
      · simp [Ne.symm first, Ne.symm second, Ne.symm third]

theorem canonical_recordMessage (v : Message) (digest : String) :
    Wire.canonical (recordMessage v digest) = recordMessage v digest := by
  have id : Message.get (recordMessage v digest) "id" = "1" := by
    simp [recordMessage, envelopeMessage, Message.get_insert]
  have method : Message.get (recordMessage v digest) "method" = "register" := by
    simp [recordMessage, envelopeMessage, Message.get_insert]
  have number : toString (Message.number (recordMessage v digest) "id" 0) = "1" := by
    rw [Message.number, id]
    decide
  rw [Wire.canonical, method, if_neg (by decide), number]
  apply Std.ExtTreeMap.ext_getElem?
  intro key
  rw [Std.ExtTreeMap.getElem?_insert]
  split
  · rename_i here
    obtain rfl := Std.LawfulEqCmp.compare_eq_iff_eq.mp here
    exact (Wire.held_of_get id (by decide)).symm
  · rfl

variable {sha256 : List UInt8 → String}

/-- The frame of a message is a frame of its size, and decodes to it. -/
theorem decodeFrame_encode {message : Message} (encodes : Wire.encode message ≠ [])
    (short : (Wire.encode message).length ≤ kMaxRegistrationFileBytes)
    (canonical : Wire.canonical message = message) (method : message.get "method" = "register")
    (id : message.get "id" = "1") :
    decodeFrame (wireCodec sha256) (Wire.encode message) = some message := by
  obtain ⟨envelope, made, room⟩ := Wire.encode_ne_nil.mp encodes
  have frame := Wire.encode_eq made room
  have decoded : (wireCodec sha256).decode ((Wire.encode message).drop 4) = some message := by
    obtain ⟨fits, decodes⟩ := made.decodes
    rw [canonical] at decodes
    refine Wire.decode_eq_some.mpr ⟨envelope, ?_, fits, room, decodes⟩
    rw [Octets.octets_of, Wire.body_eq made room]
  have size : frameSize (Wire.encode message) = (Wire.encode message).length - 4 := by
    have small : envelope.octets.length < 256 ^ 4 := by
      rw [kMaxFrameSize] at room
      omega
    rw [frame, frameSize_bigEndian small, List.length_append, Octets.length_bigEndian,
      Nat.add_sub_cancel_left]
  have long : 4 ≤ (Wire.encode message).length := by
    rw [frame, List.length_append, Octets.length_bigEndian]
    omega
  rw [decodeFrame, if_pos ⟨long, short, size⟩, decoded]
  simp [method, id]

theorem decodeFrame_some {codec : Codec} {value : Message}
    (h : decodeFrame codec payload = some value) : codec.decode (payload.drop 4) = some value := by
  unfold decodeFrame at h
  split at h
  · exact (Option.filter_eq_some_iff.mp h).1
  · cases h

/-- What the reader demands of a record. -/
structure Recorded (codec : Codec) (value : Message) : Prop where
  format : value.get "offline_format" = "1"
  digest : (value.get "payload_sha256").utf8ByteSize = 64 ∧
    registrationName (value.get "payload_sha256" ++ ".parcel") = true
  encodes : codec.encode (value.eraseAll ["offline_format", "payload_sha256"]) ≠ [] ∧
    4 < (codec.encode (value.eraseAll ["offline_format", "payload_sha256"])).length
  matched : codec.sha256 ((codec.encode
    (value.eraseAll ["offline_format", "payload_sha256"])).drop 4) = value.get "payload_sha256"

theorem decodeRecord_eq_ok {codec : Codec} {name : String} {p : Message} :
    decodeRecord codec payload name = .ok p ↔ ∃ value, decodeFrame codec payload = some value ∧
      Recorded codec value ∧ publicRegistration
        ((value.eraseAll ["offline_format", "payload_sha256"]).eraseAll ["v", "id", "method"]) =
          .ok p ∧ recordName codec p = name := by
  unfold decodeRecord payloadDigest
  rcases decodeFrame codec payload with _ | value
  · exact ⟨fun h => (by cases h), fun ⟨_, absent, _⟩ => (by cases absent)⟩
  · simp only [Option.elim_some, ok_bind, require_bind, bind_assoc, pure_bind, Option.some.injEq,
      exists_eq_left', Bool.and_eq_true, beq_iff_eq, decide_eq_true_eq, Bool.not_eq_true',
      List.isEmpty_eq_false_iff]
    constructor
    · rintro ⟨format, digest, nonempty, long, matched, run⟩
      obtain ⟨registration, accepted, run⟩ := Except.of_bind_ok run
      obtain ⟨named, run⟩ := require_bind.mp run
      cases run
      exact ⟨⟨format, digest, ⟨nonempty, long⟩, matched⟩, accepted, eq_of_beq named⟩
    · rintro ⟨⟨format, digest, ⟨nonempty, long⟩, matched⟩, accepted, named⟩
      refine ⟨format, digest, nonempty, long, matched, ?_⟩
      rw [accepted, ok_bind]
      exact require_bind.mpr ⟨beq_iff_eq.mpr named, rfl⟩

/-- What is written is read back, without the method. -/
theorem decodeRecord_payload (hex : Hexadecimal sha256) (h : Registrable v)
    (written : recordPayload (wireCodec sha256) v = .ok payload) :
    decodeRecord (wireCodec sha256) payload (recordName (wireCodec sha256) v) =
      .ok (v.erase "method") := by
  obtain ⟨encodes, long, rfl, nonempty, short⟩ := recordPayload_ok written
  obtain ⟨size, named, _⟩ := hex.valid ((Wire.encode (envelopeMessage v)).drop 4)
  have digested : ∀ digest, Message.get (recordMessage v digest) "payload_sha256" = digest := by
    intro digest
    simp [recordMessage, Message.get_insert]
  refine decodeRecord_eq_ok.mpr ⟨_, decodeFrame_encode nonempty short
    (canonical_recordMessage v _) ?_ ?_, ?_, ?_, ?_⟩
  · simp [recordMessage, envelopeMessage, Message.get_insert]
  · simp [recordMessage, envelopeMessage, Message.get_insert]
  · constructor
    · simp [recordMessage]
    · rw [digested]
      exact ⟨size, named⟩
    · rw [h.erase_record]
      exact ⟨encodes, long⟩
    · rw [h.erase_record, digested]
  · rw [h.erase_record, h.erase_envelope]
    exact publicRegistration_eq_ok.mpr h.erase
  · rw [recordName, get_erase_method v (by decide), recordName]

/-! ### The importer -/

/-- The builder's identifiers are the daemon's. -/
theorem identifier_registration {value : String} (h : identifier value = true) :
    Registration.identifier value = true := by
  simp only [identifier, Registration.identifier, Bool.and_eq_true, decide_eq_true_eq,
    List.all_eq_true, Bool.or_eq_true] at h ⊢
  obtain ⟨⟨nonempty, short⟩, each⟩ := h
  refine ⟨⟨nonempty, by omega⟩, fun c member => ?_⟩
  rcases each c member with ((alnum | dot) | underscore) | dash
  · exact .inl (.inl (.inl (.inl alnum)))
  · exact .inl (.inl (.inl (.inr dot)))
  · exact .inl (.inl (.inr underscore))
  · exact .inr dash

/-- What a field takes in a frame. -/
def fieldOctets (field : String × String) : Nat := 10 + field.1.utf8ByteSize + field.2.utf8ByteSize

theorem foldl_octets (fields : List (String × String)) (start : Nat) :
    fields.foldl (fun total field =>
      total + (10 + field.1.utf8ByteSize + field.2.utf8ByteSize)) start =
      start + (fields.map fieldOctets).sum := by
  induction fields generalizing start with
  | nil => simp
  | cons field rest ih =>
    rw [List.foldl_cons, ih, List.map_cons, List.sum_cons, fieldOctets]
    omega

theorem length_fields (fields : List (String × String)) :
    ((fields.map Wire.toField).flatMap Wire.Field.octets).length = (fields.map fieldOctets).sum := by
  induction fields with
  | nil => rfl
  | cons field rest ih =>
    rw [List.map_cons, List.flatMap_cons, List.length_append, ih, Wire.Field.length_octets,
      List.map_cons, List.sum_cons]
    rfl

/-- The fields that the record of a registration has in its envelope. -/
theorem Registrable.subperm (h : Registrable v) (digest : String) :
    List.Subperm (Std.ExtTreeMap.toList (v.erase "method") ++
        [("payload_sha256", digest), ("offline_format", "1")])
      ((recordMessage v digest).toList.filter fun field => !Wire.reserved.contains field.1) := by
  have kept : ∀ field ∈ Std.ExtTreeMap.toList (v.erase "method"),
      v[field.1]? = some field.2 ∧ field.1 ≠ "method" := by
    intro field member
    rw [Std.ExtTreeMap.mem_toList_iff_getElem?_eq_some, Std.ExtTreeMap.getElem?_erase] at member
    split at member
    · cases member
    · rename_i other
      exact ⟨member, fun same => other (by simp [same])⟩
  have apart : ∀ field ∈ Std.ExtTreeMap.toList (v.erase "method"), ∀ key,
      (Registration.isDefinitionField key || key == "operation_id" ||
        key == "expected_generation") = false → field.1 ≠ key := by
    rintro field member key foreign rfl
    obtain ⟨held, other⟩ := kept field member
    rw [h.absent _ foreign other] at held
    cases held
  refine List.Nodup.subperm ?_ ?_
  · have first : (Std.ExtTreeMap.toList (v.erase "method")).Nodup :=
      (Maps.toList_keys_apart (v.erase "method")).imp fun other same => other (by rw [same])
    refine first.append (by simp) ?_
    intro field member added
    have recorded := apart field member "payload_sha256" (by decide)
    have format := apart field member "offline_format" (by decide)
    simp only [List.mem_cons, List.not_mem_nil, or_false] at added
    rcases added with rfl | rfl
    · exact recorded rfl
    · exact format rfl
  · intro field member
    rw [List.mem_filter, Std.ExtTreeMap.mem_toList_iff_getElem?_eq_some]
    rcases List.mem_append.mp member with old | added
    · obtain ⟨held, method⟩ := kept field old
      have version := apart field old "v" (by decide)
      have id := apart field old "id" (by decide)
      have status := apart field old "status" (by decide)
      have recorded := apart field old "payload_sha256" (by decide)
      have format := apart field old "offline_format" (by decide)
      refine ⟨?_, ?_⟩
      · simp [recordMessage, envelopeMessage, Std.ExtTreeMap.getElem?_insert, Ne.symm version,
          Ne.symm id, Ne.symm method, Ne.symm recorded, Ne.symm format, held]
      · simp [Wire.reserved, version, id, method, status]
    · simp only [List.mem_cons, List.not_mem_nil, or_false] at added
      rcases added with rfl | rfl
      · refine ⟨?_, by simp [Wire.reserved]⟩
        rw [recordMessage, Std.ExtTreeMap.getElem?_insert, if_neg (by simp),
          Std.ExtTreeMap.getElem?_insert_self]
      · exact ⟨by simp [recordMessage], by decide⟩

/-- The registration and the two fields of its record fit into one frame. -/
theorem Registrable.fits (h : Registrable v) {digest : String} (long : digest.utf8ByteSize = 64)
    (encodes : Wire.encode (recordMessage v digest) ≠ []) :
    150 + ((Std.ExtTreeMap.toList (v.erase "method")).map fieldOctets).sum ≤ kMaxFrameSize ∧
      (Std.ExtTreeMap.toList (v.erase "method")).length ≤ kMaxFields := by
  obtain ⟨envelope, made, room⟩ := Wire.encode_ne_nil.mp encodes
  obtain ⟨chosen, perm, sub⟩ := h.subperm digest
  have method : envelope.method = "register" := by
    rw [made.method.1]
    simp [recordMessage, envelopeMessage, Message.get_insert]
  rw [Wire.Envelope.length_octets, method, made.fields, Wire.fieldsOf, length_fields] at room
  constructor
  · have sums := (sub.map fieldOctets).sum_le_sum fun _ _ => Nat.zero_le _
    rw [(perm.map fieldOctets).sum_eq, List.map_append, List.sum_append] at sums
    have added : ([("payload_sha256", digest), ("offline_format", "1")].map fieldOctets).sum = 113 := by
      have recorded : "payload_sha256".utf8ByteSize = 14 ∧ "offline_format".utf8ByteSize = 14 ∧
          "1".utf8ByteSize = 1 := by decide
      simp only [List.map_cons, List.map_nil, List.sum_cons, List.sum_nil, fieldOctets, long]
      omega
    have name : "register".utf8ByteSize = 8 := by decide
    omega
  · have count := sub.length_le
    rw [perm.length_eq, List.length_append] at count
    have all := List.length_filter_le (fun field : String × String =>
      !Wire.reserved.contains field.1) (recordMessage v digest).toList
    have few := made.few
    rw [← Std.ExtTreeMap.length_toList] at few
    omega

section
open Repository (Context Query)
open Profile (Host)

variable {σ ε : Type} [Host σ ε]

/-- The importer finds nothing wrong with the form of a registration that fits. -/
theorem Registrable.checkRecord {p : Message} (h : Registrable p) (unnamed : p["method"]? = none)
    (room : 64 + (p.toList.map fieldOctets).sum ≤ kMaxFrameSize)
    (few : p.toList.length ≤ kMaxFields) (c : Context ε) (s : Repository.Progress σ ε) :
    ∃ request, (Repository.checkRecord p).run c s = (.ok request, s) := by
  have count : p ≠ ∅ ∧ p.size ≤ kMaxFields := by
    refine ⟨?_, by rwa [← Std.ExtTreeMap.length_toList]⟩
    rintro rfl
    exact absurd h.identifiers.1 (by decide)
  have fields : (p.toList.all fun field => validField field.1 field.2 &&
      (Registration.isDefinitionField field.1 ||
        ["operation_id", "expected_generation", "method"].contains field.1)) = true := by
    rw [List.all_eq_true]
    intro field member
    have permitted := h.fields field member
    have other : field.1 ≠ "method" := by
      intro same
      have held := Std.ExtTreeMap.mem_toList_iff_getElem?_eq_some.mp member
      rw [same, unnamed] at held
      cases held
    rw [Permitted, if_neg other] at permitted
    obtain ⟨known, valid⟩ := permitted
    simp only [Bool.or_eq_true, beq_iff_eq] at known
    rw [valid]
    rcases known with (definition | operation) | generation
    · simp [definition]
    · simp [operation]
    · simp [generation]
  have size : p.toList.foldl (fun total field =>
      total + (10 + field.1.utf8ByteSize + field.2.utf8ByteSize)) 64 ≤ kMaxFrameSize := by
    rwa [foldl_octets]
  have method : p.getD "method" "register" = "register" := by
    rw [Std.ExtTreeMap.getD_eq_getD_getElem?, unnamed]
    rfl
  have identifiers : Repository.identifier (p.get "operation_id") = true ∧
      Repository.identifier (p.get "expected_generation") = true :=
    ⟨identifier_registration h.identifiers.1, identifier_registration h.identifiers.2⟩
  have same : p.erase "method" = p := by
    apply Std.ExtTreeMap.ext_getElem?
    intro key
    rw [Std.ExtTreeMap.getElem?_erase]
    split
    · rename_i here
      rw [← Std.LawfulEqCmp.compare_eq_iff_eq.mp here, unnamed]
    · rfl
  have definition := h.definition
  rw [same] at definition
  rcases valid : Registration.validateDefinition p with reason | u
  · rw [valid] at definition
    cases definition
  · refine ⟨(p.insert "method" "register").insert "_install_identity"
      (p.get "expected_generation"), ?_⟩
    simp only [Repository.checkRecord, Repository.require, Act.require, if_pos count, if_pos fields,
      if_pos size, if_pos method, if_pos identifiers, valid, Repository.checked]
    rfl

/-- What the builder writes the daemon reads back and can import. What the daemon reads has the
digest that it records and an operation that hashes to its name, so that two files of one name
are about one operation unless the digest collides on their operations. -/
theorem records_import (sha256 : List UInt8 → String) (hex : Hexadecimal sha256) :
    (∀ v p payload, publicRegistration v = .ok p → recordPayload (wireCodec sha256) v = .ok payload →
      decodeRecord (wireCodec sha256) payload (recordName (wireCodec sha256) v) =
          .ok (v.erase "method") ∧
        ∀ (c : Context ε) (s : Repository.Progress σ ε), ∃ request,
          (Repository.checkRecord (v.erase "method")).run c s = (.ok request, s)) ∧
    (∀ bytes name p, decodeRecord (wireCodec sha256) bytes name = .ok p →
      ∃ value, Wire.decode (Buffer.of (bytes.drop 4) fun _ => 0) = some value ∧
        sha256 ((Wire.encode (value.eraseAll ["offline_format", "payload_sha256"])).drop 4) =
          value.get "payload_sha256" ∧
        sha256 (p.get "operation_id").toUTF8.toList ++ ".parcel" = name ∧
        ∀ key, key ∉ ["offline_format", "payload_sha256", "v", "id", "method"] →
          p[key]? = value[key]?) ∧
    ∀ name bytes bytes' p p', decodeRecord (wireCodec sha256) bytes name = .ok p →
      decodeRecord (wireCodec sha256) bytes' name = .ok p' →
      Set.InjOn sha256 {(p.get "operation_id").toUTF8.toList, (p'.get "operation_id").toUTF8.toList} →
      p.get "operation_id" = p'.get "operation_id" := by
  refine ⟨?_, ?_, ?_⟩
  · intro v p payload accepted written
    obtain ⟨registrable, rfl⟩ := publicRegistration_eq_ok.mp accepted
    refine ⟨decodeRecord_payload hex registrable written, fun c s => ?_⟩
    obtain ⟨encodes, long, rfl, nonempty, short⟩ := recordPayload_ok written
    obtain ⟨room, few⟩ := registrable.fits (hex.valid _).1 nonempty
    exact registrable.erase.1.checkRecord (by simp) (by omega) few c s
  · intro bytes name p read
    obtain ⟨value, decoded, recorded, accepted, named⟩ := decodeRecord_eq_ok.mp read
    obtain ⟨_, rfl⟩ := publicRegistration_eq_ok.mp accepted
    refine ⟨value, decodeFrame_some decoded, recorded.matched, named, fun key other => ?_⟩
    simp only [List.mem_cons, List.not_mem_nil, or_false, not_or] at other
    obtain ⟨format, digest, version, id, method⟩ := other
    simp [Message.eraseAll, Std.ExtTreeMap.getElem?_erase, Ne.symm format, Ne.symm digest,
      Ne.symm version, Ne.symm id, Ne.symm method]
  · intro name bytes bytes' p p' read read' apart
    obtain ⟨_, _, _, _, named⟩ := decodeRecord_eq_ok.mp read
    obtain ⟨_, _, _, _, named'⟩ := decodeRecord_eq_ok.mp read'
    have digests : sha256 (p.get "operation_id").toUTF8.toList =
        sha256 (p'.get "operation_id").toUTF8.toList :=
      String.append_left_inj ".parcel" |>.mp (named.trans named'.symm)
    exact Octets.toUTF8_injective (apart (by simp) (by simp) digests)

end

def sampleRegistration : Message := Message.of
  [("operation_id", "o"), ("expected_generation", "g"), ("definition", "d"), ("package", "p"),
    ("app", "a"), ("enforcer", "e"), ("default_locale", "en"), ("policy_version", "1"),
    ("text_revision", "1"), ("level", "0"), ("modes", "ONCE"), ("message.en.title", "T"),
    ("message.en.body", "B")]

/-- Two names for operations of one and of two characters. -/
def sampleNames (bytes : List UInt8) : String :=
  if bytes.length = 1 then "0000000000000000000000000000000000000000000000000000000000000000"
  else "1111111111111111111111111111111111111111111111111111111111111111"

theorem sampleNames_hexadecimal : Hexadecimal sampleNames := by
  intro bytes
  unfold sampleNames
  split
  · decide
  · decide

def otherRegistration : Message := sampleRegistration.insert "operation_id" "oo"

/-- A registration of the smallest form is written, read back and imported; the file of another
operation is not its file. -/
theorem sampleRegistration_imports : ∃ payload,
    recordPayload (wireCodec sampleNames) sampleRegistration = .ok payload ∧
      decodeRecord (wireCodec sampleNames) payload
        (recordName (wireCodec sampleNames) sampleRegistration) =
          .ok (sampleRegistration.erase "method") ∧
      (∀ (c : Repository.Context Profile.ProfileStep)
        (s : Repository.Progress Profile.ProfileState Profile.ProfileStep), ∃ request,
          (Repository.checkRecord (sampleRegistration.erase "method")).run c s = (.ok request, s)) ∧
      recordName (wireCodec sampleNames) sampleRegistration ≠
        recordName (wireCodec sampleNames) otherRegistration := by
  have written : (recordPayload (wireCodec sampleNames) sampleRegistration).isOk = true := by
    decide +kernel
  have accepted : (publicRegistration sampleRegistration).isOk = true := by decide
  obtain ⟨payload, made⟩ := Except.of_isOk written
  obtain ⟨p, given⟩ := Except.of_isOk accepted
  have imports := records_import (σ := Profile.ProfileState) (ε := Profile.ProfileStep) sampleNames
    sampleNames_hexadecimal
  obtain ⟨read, checks⟩ := imports.1 _ _ _ given made
  exact ⟨payload, made, read, checks, by decide +kernel⟩

end Consent.Offline
