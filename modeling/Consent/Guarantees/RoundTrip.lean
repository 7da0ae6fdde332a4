import Consent.Protocol.Envelopes

/-!
Messages survive the wire. Decoding the frame of a message gives the message with its
numbers in canonical form; what can be decoded can be encoded, and comes back as the same
octets exactly when its fields were in order. No accepted body begins another one, and
nothing behind a body is looked at.
-/
namespace Consent.Wire
open Octets (Buffer bigEndian)

/-! ### Envelopes of messages -/

/-- The message with its numbers written canonically. -/
def canonical (message : Message) : Message :=
  let identified := message.insert "id" (toString (message.number "id" 0))
  if message.get "method" = "reply" then
    identified.insert "status" (toString (message.number "status" 0))
  else identified

/-- The keys of the fields that fill a buffer, in their order there. -/
def fieldKeys (b : Buffer) : List String :=
  match envelopeIn b with
  | some envelope => envelope.fields.map Field.key
  | none => []

variable {message : Message} {envelope : Envelope} {key : String}

theorem held_of_get {key value : String} (found : message.get key = value) (nonempty : value ≠ "") :
    message[key]? = some value := by
  rw [Message.get_eq] at found
  rcases held : message[key]? with _ | other
  · rw [held] at found
    exact absurd found.symm nonempty
  · rw [held] at found
    exact congrArg some found

theorem mem_of_parseNumber {n : Int} (parsed : parseNumber (message.get key) = some n) :
    key ∈ message := by
  by_contra absent
  have empty : message.get key = "" := Std.ExtTreeMap.getD_eq_fallback absent
  rw [empty] at parsed
  cases parsed

theorem kindOf_eq_two {method : String} : kindOf method = 2 ↔ method = "reply" := by
  unfold kindOf
  split_ifs <;> simp_all

/-- What `Encode` demands of a message before it looks at sizes. -/
structure Encodable (message : Message) (envelope : Envelope) : Prop where
  few : message.size ≤ kMaxFields
  version : message.get "v" = "1"
  valid : ∀ field ∈ message.toList, validField field.1 field.2 = true
  method : envelope.method = message.get "method" ∧ envelope.method ≠ "" ∧
    envelope.method.utf8ByteSize ≤ 128
  head : envelope.version = 1 ∧ envelope.kind = kindOf envelope.method
  correlation : parseNumber (message.get "id") = some (envelope.correlation : Int)
  answers : envelope.kind = 3 ↔ envelope.correlation = 0
  status : encodeStatus message envelope.kind = some envelope.status
  fields : envelope.fields = fieldsOf message.toList

theorem envelopeOf_eq_some {size : Nat} :
    envelopeOf message = some (size, envelope) ↔ Encodable message envelope ∧
      size = envelope.octets.length ∧ size ≤ kMaxFrameSize := by
  have start : ∀ {method : String}, method.utf8ByteSize ≤ 128 →
      29 + method.utf8ByteSize ≤ kMaxFrameSize := by
    intro method short
    rw [kMaxFrameSize]
    omega
  constructor
  · intro made
    simp only [envelopeOf, guard_bind_eq_some] at made
    obtain ⟨⟨_, few, version⟩, valid, method, made⟩ := made
    obtain ⟨correlation, parsed, made⟩ := Option.bind_eq_some_iff.mp made
    obtain ⟨answers, made⟩ := guard_bind_eq_some.mp made
    obtain ⟨status, stated, made⟩ := Option.bind_eq_some_iff.mp made
    obtain ⟨⟨size', fields⟩, loop, ⟨⟩⟩ := Option.bind_eq_some_iff.mp made
    obtain ⟨same, room⟩ := (foldlM_addField (start method.2)).mp loop
    obtain ⟨rfl, rfl⟩ := Prod.mk.inj same
    refine ⟨⟨few, version, List.all_eq_true.mp valid, ⟨rfl, method⟩, ⟨rfl, rfl⟩, ?_, ?_, stated, by simp⟩, ?_, room⟩
    · dsimp only
      rw [parsed, Option.some.injEq]
      omega
    · dsimp only
      omega
    · rw [Envelope.length_octets]
      simp
  · rintro ⟨made, rfl, room⟩
    have loop : message.toList.foldlM addField (29 + envelope.method.utf8ByteSize, []) =
        some (envelope.octets.length, envelope.fields) := by
      refine (foldlM_addField (start made.method.2.2)).mpr ⟨?_, room⟩
      rw [Envelope.length_octets, made.fields, List.nil_append]
    have nonempty : message ≠ ∅ := by
      rintro rfl
      exact absurd made.version (by decide)
    obtain ⟨version, kind, correlation, method, status, fields⟩ := envelope
    obtain ⟨few, v, valid, ⟨rfl, named, short⟩, ⟨rfl, kinds⟩, parsed, answers, stated, _⟩ := made
    dsimp only at kinds
    subst kinds
    simp only [envelopeOf, guard_bind_eq_some]
    refine ⟨⟨nonempty, few, v⟩, List.all_eq_true.mpr valid, ⟨named, short⟩,
      Option.bind_eq_some_iff.mpr ⟨_, parsed, guard_bind_eq_some.mpr ⟨?_,
        Option.bind_eq_some_iff.mpr ⟨_, stated, Option.bind_eq_some_iff.mpr ⟨_, loop, rfl⟩⟩⟩⟩⟩
    dsimp only at answers ⊢
    omega

theorem encodeStatus_eq_some {kind : Nat} {status : Int} :
    encodeStatus message kind = some status ↔
      if kind = 2 then parseNumber (message.get "status") = some status ∧ status ≤ 0 ∧ -2 ^ 31 ≤ status
      else message["status"]? = none ∧ status = 0 := by
  unfold encodeStatus
  split
  · rw [Option.bind_eq_bind, Option.bind_eq_some_iff]
    constructor
    · rintro ⟨n, parsed, stated⟩
      obtain ⟨range, ⟨⟩⟩ := guard_bind_eq_some.mp stated
      exact ⟨parsed, by omega, by omega⟩
    · rintro ⟨parsed, low, high⟩
      exact ⟨status, parsed, guard_bind_eq_some.mpr ⟨by omega, rfl⟩⟩
  · rw [guard_bind_eq_some, ← Std.ExtTreeMap.isSome_getElem?_eq_contains, Option.isSome_eq_false_iff,
      Option.isNone_iff_eq_none]
    exact and_congr_right fun _ => ⟨fun same => by cases same; rfl, fun same => by rw [same]; rfl⟩

/-! ### Heads -/

theorem getElem?_headOf (envelope : Envelope) (key : String) : (headOf envelope)[key]? =
    if key = "v" then some "1" else if key = "id" then some (toString envelope.correlation)
    else if key = "method" then some envelope.method
    else if key = "status" ∧ envelope.kind = 2 then some (toString envelope.status) else none := by
  have three : (Message.of [("v", "1"), ("id", toString envelope.correlation),
      ("method", envelope.method)])[key]? =
      if key = "v" then some "1" else if key = "id" then some (toString envelope.correlation)
      else if key = "method" then some envelope.method else none := by
    simp only [Message.of, List.foldl_cons, List.foldl_nil, Std.ExtTreeMap.getElem?_insert,
      Std.LawfulEqCmp.compare_eq_iff_eq, Std.ExtTreeMap.getElem?_empty, eq_comm (b := key)]
    grind
  unfold headOf
  dsimp only
  by_cases reply : envelope.kind = 2
  · rw [if_pos reply, Std.ExtTreeMap.getElem?_insert, three]
    simp only [Std.LawfulEqCmp.compare_eq_iff_eq, reply, and_true]
    grind
  · rw [if_neg reply, three]
    simp only [reply, and_false, ↓reduceIte]

theorem getElem?_canonical (message : Message) (key : String) : (canonical message)[key]? =
    if key = "id" then some (toString (message.number "id" 0))
    else if key = "status" ∧ message.get "method" = "reply" then
      some (toString (message.number "status" 0))
    else message[key]? := by
  unfold canonical
  dsimp only
  by_cases reply : message.get "method" = "reply"
  · rw [if_pos reply, Std.ExtTreeMap.getElem?_insert, Std.ExtTreeMap.getElem?_insert]
    simp only [Std.LawfulEqCmp.compare_eq_iff_eq, reply, and_true]
    grind
  · rw [if_neg reply, Std.ExtTreeMap.getElem?_insert]
    simp only [Std.LawfulEqCmp.compare_eq_iff_eq, reply, and_false, ↓reduceIte]
    grind

theorem kindFits_iff : kindFits envelope = true ↔
    envelope.kind = kindOf envelope.method ∧ (envelope.kind = 3 ↔ envelope.correlation = 0) ∧
      if envelope.kind = 2 then envelope.status ≤ 0 else envelope.status = 0 := by
  unfold kindFits kindOf
  split_ifs <;> simp_all

theorem messageOf_eq_some :
    messageOf envelope = some message ↔
      (envelope.version = 1 ∧ envelope.method ≠ "" ∧ (envelope.correlation : Int) ≤ int64Max ∧
        envelope.fields.length ≤ kMaxFields - (if envelope.kind = 2 then 4 else 3)) ∧
      kindFits envelope = true ∧ Insertable (headOf envelope) envelope.fields ∧
        message = insertFields (headOf envelope) envelope.fields := by
  unfold messageOf
  rw [guard_bind_eq_some, guard_bind_eq_some, foldlM_emplace]

theorem size_headOf (envelope : Envelope) :
    (headOf envelope).size = if envelope.kind = 2 then 4 else 3 := by
  have three : (Message.of [("v", "1"), ("id", toString envelope.correlation),
      ("method", envelope.method)]).size = 3 := by
    simp [Message.of, Std.ExtTreeMap.size_insert]
  unfold headOf
  dsimp only
  split
  · rw [Std.ExtTreeMap.size_insert, three, if_neg (by simp [Message.of])]
  · exact three

/-- The names in the head are the reserved ones. -/
theorem not_reserved_iff : reserved.contains key = false ↔
    key ≠ "v" ∧ key ≠ "id" ∧ key ≠ "method" ∧ key ≠ "status" := by
  simp [reserved]

theorem headOf_none (plain : reserved.contains key = false) :
    (headOf envelope)[key]? = none := by
  obtain ⟨v, id, method, status⟩ := not_reserved_iff.mp plain
  simp [getElem?_headOf, v, id, method, status]

theorem plain_of_fresh (fresh : key ≠ "status" ∧ key ∉ headOf envelope) :
    reserved.contains key = false := by
  have none : (headOf envelope)[key]? = none := by simpa using fresh.2
  rw [getElem?_headOf] at none
  refine not_reserved_iff.mpr ⟨?_, ?_, ?_, fresh.1⟩
  · rintro rfl
    simp at none
  · rintro rfl
    simp at none
  · rintro rfl
    simp at none

/-! ### From messages to envelopes and back -/

theorem Encodable.insertable (made : Encodable message envelope) :
    Insertable (headOf envelope) envelope.fields := by
  rw [made.fields]
  refine ⟨fun field member => ?_, fun field member => ?_, ?_⟩
  · have held := (mem_fieldsOf_toList.mp member).2
    exact made.valid (field.key, field.value) (Std.ExtTreeMap.mem_toList_iff_getElem?_eq_some.mpr held)
  · have plain := (mem_fieldsOf_toList.mp member).1
    exact ⟨(not_reserved_iff.mp plain).2.2.2, by simpa using headOf_none plain⟩
  · rw [List.Nodup, List.pairwise_map]
    refine (fieldsOf_toList_sorted message).imp fun {a b} less same => ?_
    rw [same] at less
    simp at less

theorem Encodable.held (made : Encodable message envelope) :
    message["v"]? = some "1" ∧ message["method"]? = some envelope.method ∧ "id" ∈ message := by
  exact ⟨held_of_get made.version (by decide), held_of_get made.method.1.symm made.method.2.1,
    mem_of_parseNumber made.correlation⟩

/-- The fields of the envelope over its head are the message. -/
theorem Encodable.inserted (made : Encodable message envelope) :
    insertFields (headOf envelope) envelope.fields = canonical message := by
  obtain ⟨version, method, _⟩ := made.held
  have reply : envelope.kind = 2 ↔ message.get "method" = "reply" := by
    rw [made.head.2, kindOf_eq_two, made.method.1]
  have id : toString envelope.correlation = toString (message.number "id" 0) := by
    rw [Message.number, made.correlation, Option.getD_some, toString_natCast]
  have status := encodeStatus_eq_some.mp made.status
  apply Std.ExtTreeMap.ext_getElem?
  intro key
  apply Option.ext
  intro value
  rw [getElem?_insertFields made.insertable, made.fields, mem_fieldsOf_toList, getElem?_canonical]
  by_cases plain : reserved.contains key = false
  · obtain ⟨_, id, _, status⟩ := not_reserved_iff.mp plain
    simp only [plain, headOf_none plain, id, status, true_and, reduceCtorEq, or_false, false_and,
      ↓reduceIte]
  · rw [or_iff_right (fun held => plain held.1)]
    simp only [getElem?_headOf, ← reply]
    rw [not_reserved_iff] at plain
    by_cases kind : envelope.kind = 2
    · have stated : toString envelope.status = toString (message.number "status" 0) := by
        rw [if_pos kind] at status
        rw [Message.number, status.1, Option.getD_some]
      grind
    · rw [if_neg kind] at status
      grind

theorem size_canonical (made : Encodable message envelope) :
    (canonical message).size = message.size := by
  obtain ⟨_, _, id⟩ := made.held
  unfold canonical
  dsimp only
  split
  · rename_i reply
    have kind : envelope.kind = 2 := by rw [made.head.2, kindOf_eq_two, made.method.1, reply]
    have status := encodeStatus_eq_some.mp made.status
    rw [if_pos kind] at status
    simp [Std.ExtTreeMap.size_insert, id, mem_of_parseNumber status.1]
  · simp [Std.ExtTreeMap.size_insert, id]

/-- What is encoded decodes to the message in canonical form. -/
theorem Encodable.decodes (made : Encodable message envelope) :
    envelope.Fits ∧ messageOf envelope = some (canonical message) := by
  have status := encodeStatus_eq_some.mp made.status
  have bound := (parseNumber_le made.correlation).2
  have small : envelope.correlation < 256 ^ 8 := by
    rw [int64Max] at bound
    omega
  have count : envelope.fields.length ≤ kMaxFields - (if envelope.kind = 2 then 4 else 3) := by
    have whole := size_insertFields made.insertable
    rw [made.inserted, size_canonical made, size_headOf] at whole
    have := made.few
    omega
  have method : validString envelope.method 128 = true := by
    have valid := made.valid ("method", envelope.method)
      (Std.ExtTreeMap.mem_toList_iff_getElem?_eq_some.mpr made.held.2.1)
    rw [validString, contains_zero_octets, (validField_iff.mp valid).2.2]
    simpa using made.method.2.2
  refine ⟨⟨by rw [made.head.1]; decide, ?_, small, ?_, ?_⟩, messageOf_eq_some.mpr ⟨⟨made.head.1,
    made.method.2.1, bound, count⟩, kindFits_iff.mpr ⟨made.head.2, made.answers, ?_⟩,
      made.insertable, made.inserted.symm⟩⟩
  · rw [made.head.2, kindOf]
    split_ifs <;> decide
  · split at status <;> omega
  · refine Envelope.valid_iff.mpr ⟨⟨method, ?_⟩, fun field member =>
      Field.valid_of_validField (made.insertable.valid field member)⟩
    rw [kMaxFields] at count
    omega
  · split at status
    · rename_i reply
      rw [if_pos reply]
      exact status.2.1
    · rename_i other
      rw [if_neg other]
      exact status.2

theorem headOf_valid (fits : envelope.Fits) (bound : (envelope.correlation : Int) ≤ int64Max)
    {key value : String} (held : (headOf envelope)[key]? = some value) :
    validField key value = true := by
  obtain ⟨⟨method, _⟩, _⟩ := Envelope.valid_iff.mp fits.valid
  simp only [validString, contains_zero_octets, Bool.and_eq_true, decide_eq_true_eq,
    Bool.not_eq_true'] at method
  have low := fits.status
  rw [getElem?_headOf] at held
  split_ifs at held with v id named reply
  · cases held
    rw [v]
    decide
  · cases held
    rw [id, ← toString_natCast]
    exact validField_number (by decide) (by omega) bound
  · cases held
    rw [named]
    refine validField_iff.mpr ⟨by decide, ?_, method.2⟩
    rw [kMaxValueSize]
    omega
  · cases held
    rw [reply.1]
    refine validField_number (by decide) (by omega) ?_
    rw [int64Max]
    omega

theorem encodable_of_messageOf (fits : envelope.Fits) (made : messageOf envelope = some message) :
    Encodable message { envelope with fields := fieldsOf message.toList } ∧
      (fieldsOf message.toList).Perm envelope.fields := by
  obtain ⟨⟨version, named, bound, few⟩, kinds, insertable, rfl⟩ := messageOf_eq_some.mp made
  obtain ⟨kind, answers, status⟩ := kindFits_iff.mp kinds
  set message := insertFields (headOf envelope) envelope.fields with defined
  have head : ∀ {key : String}, reserved.contains key = true →
      message[key]? = (headOf envelope)[key]? := by
    intro key special
    apply Option.ext
    intro value
    rw [defined, getElem?_insertFields insertable]
    refine or_iff_right fun member => ?_
    rw [plain_of_fresh (insertable.fresh _ member)] at special
    cases special
  have reads : ∀ {key value : String}, reserved.contains key = true →
      (headOf envelope)[key]? = some value → message.get key = value := by
    intro key value special held
    rw [Message.get_eq, head special, held]
    rfl
  have perm : (fieldsOf message.toList).Perm envelope.fields := by
    refine (List.perm_ext_iff_of_nodup ?_ (List.Nodup.of_map _ insertable.distinct)).mpr fun field => ?_
    · refine (fieldsOf_toList_sorted message).imp fun {a b} less same => ?_
      rw [same] at less
      simp at less
    · rw [mem_fieldsOf_toList, defined, getElem?_insertFields insertable]
      constructor
      · rintro ⟨plain, member | held⟩
        · exact member
        · rw [headOf_none plain] at held
          cases held
      · intro member
        exact ⟨plain_of_fresh (insertable.fresh _ member), .inl member⟩
  have id : message.get "id" = toString envelope.correlation :=
    reads rfl (by simp [getElem?_headOf])
  have method : message.get "method" = envelope.method := reads rfl (by simp [getElem?_headOf])
  obtain ⟨⟨methodValid, _⟩, _⟩ := Envelope.valid_iff.mp fits.valid
  simp only [validString, contains_zero_octets, Bool.and_eq_true, decide_eq_true_eq,
    Bool.not_eq_true'] at methodValid
  refine ⟨⟨?_, reads rfl (by simp [getElem?_headOf]), ?_, ⟨method.symm, named, methodValid.1⟩,
    ⟨version, kind⟩, ?_, answers, ?_, rfl⟩, perm⟩
  · rw [defined, size_insertFields insertable, size_headOf]
    rw [kMaxFields] at few ⊢
    split at few <;> simp_all <;> omega
  · rintro ⟨key, value⟩ member
    have held := Std.ExtTreeMap.mem_toList_iff_getElem?_eq_some.mp member
    rcases (getElem?_insertFields insertable).mp held with inside | inside
    · exact insertable.valid _ inside
    · exact headOf_valid fits bound inside
  · rw [id]
    exact parseNumber_toString_nat (by rw [int64Max] at bound; omega)
  · have low := fits.status
    rw [encodeStatus_eq_some]
    dsimp only
    split at status
    · rename_i reply
      rw [if_pos reply, @reads _ (toString envelope.status) rfl (by simp [getElem?_headOf, reply])]
      refine ⟨parseNumber_toString (by omega) ?_, status, low.1⟩
      rw [int64Max]
      omega
    · rename_i other
      rw [if_neg other, head rfl]
      exact ⟨by simp [getElem?_headOf, other], status⟩

/-- What was decoded is in canonical form. -/
theorem canonical_of_messageOf (made : messageOf envelope = some message)
    (back : Encodable message { envelope with fields := fieldsOf message.toList })
    (perm : (fieldsOf message.toList).Perm envelope.fields) : canonical message = message := by
  obtain ⟨_, _, insertable, inserted⟩ := messageOf_eq_some.mp made
  rw [← back.inserted]
  refine Eq.trans ?_ inserted.symm
  apply Std.ExtTreeMap.ext_getElem?
  intro key
  apply Option.ext
  intro value
  rw [getElem?_insertFields back.insertable, getElem?_insertFields insertable, perm.mem_iff]
  rfl

/-! ### Frames -/

theorem encode_eq (made : Encodable message envelope)
    (room : envelope.octets.length ≤ kMaxFrameSize) :
    encode message = bigEndian 4 envelope.octets.length ++ envelope.octets := by
  have written : envelope.write [] = some envelope.octets :=
    (Envelope.write_writes made.decodes.1.valid (by decide)).mpr ⟨(List.nil_append _).symm, room⟩
  unfold encode
  rw [envelopeOf_eq_some.mpr ⟨made, rfl, room⟩]
  dsimp only
  rw [written]
  simp

/-- The body of the frame of a message, which is an envelope. -/
theorem encode_ne_nil : encode message ≠ [] ↔
    ∃ envelope, Encodable message envelope ∧ envelope.octets.length ≤ kMaxFrameSize := by
  constructor
  · intro some
    unfold encode at some
    split at some
    · exact absurd rfl some
    · rename_i size envelope made
      obtain ⟨encodable, rfl, room⟩ := envelopeOf_eq_some.mp made
      exact ⟨envelope, encodable, room⟩
  · rintro ⟨envelope, made, room⟩ empty
    have lengths := congrArg List.length ((encode_eq made room).symm.trans empty)
    simp at lengths

theorem body_eq (made : Encodable message envelope) (room : envelope.octets.length ≤ kMaxFrameSize)
    : (encode message).drop 4 = envelope.octets := by
  rw [encode_eq made room]
  exact List.drop_left' (Octets.length_bigEndian 4 _)

theorem decode_eq_some {b : Buffer} : decode b = some message ↔
    ∃ envelope, b.octets = envelope.octets ∧ envelope.Fits ∧
      envelope.octets.length ≤ kMaxFrameSize ∧ messageOf envelope = some message := by
  have size : b.octets.length = b.size := by rw [Buffer.octets, Octets.length_rest, Nat.sub_zero]
  unfold decode
  rw [guard_bind_eq_some, Option.bind_eq_bind, Option.bind_eq_some_iff]
  constructor
  · rintro ⟨bounds, envelope, read, made⟩
    obtain ⟨here, fits⟩ := envelopeIn_eq_some.mp read
    exact ⟨envelope, here, fits, by rw [← here, size]; exact bounds.2, made⟩
  · rintro ⟨envelope, here, fits, room, made⟩
    refine ⟨⟨?_, ?_⟩, envelope, envelopeIn_eq_some.mpr ⟨here, fits⟩, made⟩
    · rw [← size, here, Envelope.length_octets]
      omega
    · rw [← size, here]
      exact room

/-- Envelopes of which one begins with the other are one. -/
theorem envelope_unique {envelope other : Envelope} {m m' : List UInt8} (fits : envelope.Fits)
    (fits' : other.Fits) (same : envelope.octets ++ m = other.octets ++ m') : envelope = other :=
  (Envelope.read_reads.unique ⟨rfl, fits⟩ ⟨rfl, fits'⟩ same).1

theorem fieldKeys_eq {b : Buffer} (here : b.octets = envelope.octets) (fits : envelope.Fits) :
    fieldKeys b = envelope.fields.map Field.key := by
  unfold fieldKeys
  rw [envelopeIn_eq_some.mpr ⟨here, fits⟩]

/-- Messages survive the wire. -/
theorem wire_round_trip :
    (∀ message : Message, encode message ≠ [] → ∀ b : Buffer, b.octets = (encode message).drop 4 →
      decode b = some (canonical message)) ∧
    (∀ (b : Buffer) (message : Message), decode b = some message → encode message ≠ [] ∧
      (∀ b' : Buffer, b'.octets = (encode message).drop 4 → decode b' = some message) ∧
      ((encode message).drop 4 = b.octets ↔ (fieldKeys b).Pairwise (· < ·))) ∧
    (∀ b : Buffer, touched b ≤ b.size) ∧
    (∀ b b' : Buffer, b.octets = b'.octets → decode b = decode b') ∧
    (∀ (b b' : Buffer) (message : Message) (more : List UInt8), decode b = some message →
      more ≠ [] → b.octets = b'.octets ++ more ∨ b'.octets = b.octets ++ more →
      decode b' = none) := by
  have encoded : ∀ message : Message, encode message ≠ [] → ∀ b : Buffer,
      b.octets = (encode message).drop 4 → decode b = some (canonical message) := by
    intro message some b here
    obtain ⟨envelope, made, room⟩ := encode_ne_nil.mp some
    obtain ⟨fits, decodes⟩ := made.decodes
    rw [body_eq made room] at here
    exact decode_eq_some.mpr ⟨envelope, here, fits, room, decodes⟩
  refine ⟨encoded, ?_, ?_, ?_, ?_⟩
  · intro b message decoded
    obtain ⟨envelope, here, fits, room, made⟩ := decode_eq_some.mp decoded
    obtain ⟨back, perm⟩ := encodable_of_messageOf fits made
    have room' : ({ envelope with fields := fieldsOf message.toList } : Envelope).octets.length ≤
        kMaxFrameSize := by
      rw [Envelope.length_octets] at room ⊢
      rw [(perm.flatMap_right Field.octets).length_eq]
      exact room
    have some := encode_ne_nil.mpr ⟨_, back, room'⟩
    refine ⟨some, fun b' here' => ?_, ?_⟩
    · rw [encoded message some b' here', canonical_of_messageOf made back perm]
    · rw [body_eq back room', here, fieldKeys_eq here fits, List.pairwise_map]
      constructor
      · intro same
        have equal := @envelope_unique _ _ [] [] back.decodes.1 fits (by rw [same])
        have fields : fieldsOf message.toList = envelope.fields := congrArg Envelope.fields equal
        rw [← fields]
        exact (fieldsOf_toList_sorted message).imp fun {a b} less => compare_lt_iff_lt.mp less
      · intro sorted
        have fields : fieldsOf message.toList = envelope.fields :=
          sorted_unique (fieldsOf_toList_sorted message)
            (sorted.imp fun {a b} less => compare_lt_iff_lt.mpr less) fun field => perm.mem_iff
        rw [fields]
  · intro b
    unfold touched
    split
    · exact Envelope.read_safe b ⟨0, 0⟩ (Nat.zero_le _)
    · exact Nat.zero_le _
  · intro b b' same
    apply Option.ext
    intro message
    rw [decode_eq_some, decode_eq_some, same]
  · intro b b' message more decoded nonempty overlap
    obtain ⟨envelope, here, fits, _, _⟩ := decode_eq_some.mp decoded
    rw [Option.eq_none_iff_forall_not_mem]
    intro message' decoded'
    obtain ⟨other, here', fits', _, _⟩ := decode_eq_some.mp decoded'
    rcases overlap with shorter | longer
    · rw [here, here'] at shorter
      obtain rfl := envelope_unique (m := []) fits fits' (by rw [List.append_nil, shorter])
      simp [nonempty] at shorter
    · rw [here, here'] at longer
      obtain rfl := envelope_unique (m := []) fits' fits (by rw [List.append_nil, longer])
      simp [nonempty] at longer

end Consent.Wire
