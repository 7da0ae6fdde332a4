import Consent.Protocol.Wire

/-!
What the readers and writers of the wire records do. A record has one encoding, the
concatenation of the encodings of its fields; its writer appends it while the frame has
room, and its reader accepts it and nothing else.
-/
namespace Consent.Wire
open Octets (Buffer Cursor Reader Reads Safe bigEndian)

/-! ### Strings -/

@[simp] theorem length_octets (value : String) : (octets value).length = value.utf8ByteSize := rfl

theorem octets_inj {a b : String} (same : octets a = octets b) : a = b := by
  apply String.toByteArray_inj.mp
  apply ByteArray.ext
  exact Array.toList_inj.mp same

theorem fromUTF8?_eq_some {bytes : List UInt8} {value : String} :
    String.fromUTF8? ⟨bytes.toArray⟩ = some value ↔ octets value = bytes := by
  unfold String.fromUTF8?
  constructor
  · intro accepted
    split at accepted
    · cases accepted
      rfl
    · cases accepted
  · rintro rfl
    have valid := value.isValidUTF8
    rw [dif_pos (show ByteArray.IsValidUTF8 ⟨(octets value).toArray⟩ from valid)]
    exact congrArg some (octets_inj rfl)

theorem octets_eq (value : String) : octets value = value.toList.flatMap String.utf8EncodeChar := by
  have whole : value.toByteArray = value.toList.utf8Encode := by
    rw [← String.toByteArray_ofList, String.ofList_toList]
  rw [octets, whole, List.utf8Encode]
  simp

theorem zero_mem_utf8EncodeChar {c : Char} : 0 ∈ String.utf8EncodeChar c ↔ c = '\x00' := by
  have small : ∀ n, n < 256 → (0 = UInt8.ofNat n ↔ n = 0) := by
    intro n bound
    rw [← UInt8.toNat_inj]
    simp only [UInt8.toNat_ofNat']
    change 0 = n % 256 ↔ n = 0
    omega
  have zero : c = '\x00' ↔ c.val.toNat = 0 := by
    rw [← Char.val_inj, ← UInt32.toNat_inj]
    rfl
  rw [zero, String.utf8EncodeChar.eq_1]
  split_ifs
  · rw [List.mem_singleton, small _ (by omega)]
  all_goals
    simp only [List.mem_cons, List.not_mem_nil, or_false]
    repeat rw [small _ (by omega)]
    omega

/-- A NUL octet is a NUL character. -/
theorem contains_zero_octets (value : String) :
    (octets value).contains 0 = value.toList.contains '\x00' := by
  rw [octets_eq, Bool.eq_iff_iff]
  simp [List.mem_flatMap, zero_mem_utf8EncodeChar]

theorem length_stringOctets (value : String) :
    (stringOctets value).length = 5 + value.utf8ByteSize := by
  simp [stringOctets]
  omega

theorem readText_reads (bytes : List UInt8) :
    Reads (readText bytes) fun value l => octets value = bytes ∧ l = [] where
  returns inside run := by
    obtain ⟨found, rfl⟩ := Prod.mk.inj run
    exact ⟨[], ⟨fromUTF8?_eq_some.mp found, rfl⟩, rfl, inside⟩
  accepts := by
    rintro b c value l m inside ⟨found, rfl⟩ here
    exact ⟨c, Prod.ext (fromUTF8?_eq_some.mpr found) rfl, here, inside⟩

theorem readString_reads {maximum : Nat} (small : maximum + 1 < 256 ^ 4) :
    Reads (readString maximum) fun value l =>
      l = stringOctets value ∧ validString value maximum = true := by
  refine ((Reads.number 4).bind fun length => (Reads.check _).bind fun _ =>
    (Reads.take length).bind fun bytes => (Reads.check _).bind fun _ =>
      readText_reads bytes.dropLast).mono fun value l => ?_
  simp only [Bool.and_eq_true, beq_iff_eq, Bool.not_eq_true', decide_eq_true_eq, validString]
  constructor
  · rintro ⟨length, _, _, ⟨rfl, _⟩, ⟨_, _, _, ⟨⟨_, short⟩, rfl⟩, ⟨bytes, _, _, ⟨rfl, rfl⟩,
      ⟨_, _, _, ⟨⟨last, clean⟩, rfl⟩, ⟨text, rfl⟩, rfl⟩, rfl⟩, rfl⟩, rfl⟩
    obtain ⟨front, rfl⟩ := List.getLast?_eq_some_iff.mp last
    rw [List.dropLast_concat] at text clean
    rw [List.length_append, List.length_singleton, Nat.add_sub_cancel] at short
    subst text
    refine ⟨?_, short, clean⟩
    simp [stringOctets]
  · rintro ⟨rfl, short, clean⟩
    refine ⟨value.utf8ByteSize + 1, _, octets value ++ [0], ⟨rfl, by omega⟩, ⟨(), [], _,
      ⟨⟨by omega, by omega⟩, rfl⟩, ⟨octets value ++ [0], _, [], ⟨rfl, by simp⟩, ⟨(), [], [], ?_, ?_,
        rfl⟩, (List.append_nil _).symm⟩, rfl⟩, rfl⟩
    · rw [List.dropLast_concat]
      exact ⟨⟨by simp, clean⟩, rfl⟩
    · rw [List.dropLast_concat]
      exact ⟨rfl, rfl⟩

theorem readString_safe (maximum : Nat) : Safe (readString maximum) :=
  (Safe.number 4).bind fun length => (Safe.check _).bind fun _ => (Safe.take length).bind fun _ =>
    (Safe.check _).bind fun _ _ _ inside => inside

/-! ### Records -/

def Field.octets (field : Field) : List UInt8 := stringOctets field.key ++ stringOctets field.value

def Envelope.octets (envelope : Envelope) : List UInt8 :=
  bigEndian 4 envelope.version ++ (bigEndian 4 envelope.kind ++ (bigEndian 8 envelope.correlation ++
    (stringOctets envelope.method ++ (bigEndian 4 (unsigned envelope.status) ++
      (bigEndian 4 envelope.fields.length ++ envelope.fields.flatMap Field.octets)))))

/-- The values that the members of an envelope can have. -/
structure Envelope.Fits (envelope : Envelope) : Prop where
  version : envelope.version < 256 ^ 4
  kind : envelope.kind < 256 ^ 4
  correlation : envelope.correlation < 256 ^ 8
  status : -2 ^ 31 ≤ envelope.status ∧ envelope.status < 2 ^ 31
  valid : envelope.valid = true

theorem Field.valid_iff {field : Field} : field.valid = true ↔
    (validString field.key 128 = true ∧ 1 ≤ field.key.utf8ByteSize) ∧
      validString field.value 8192 = true := by
  simp [Field.valid]

theorem Field.length_octets (field : Field) :
    field.octets.length = 10 + field.key.utf8ByteSize + field.value.utf8ByteSize := by
  rw [Field.octets, List.length_append, length_stringOctets, length_stringOctets]
  omega

theorem Field.read_reads : Reads Field.read fun field l => l = field.octets ∧ field.valid = true := by
  refine ((readString_reads (by decide)).bind fun key => (readString_reads (by decide)).bind
    fun value => (Reads.check (Field.valid ⟨key, value⟩)).bind fun _ =>
      Reads.pure (⟨key, value⟩ : Field)).mono fun field l => ?_
  constructor
  · rintro ⟨key, _, _, ⟨rfl, _⟩, ⟨value, _, _, ⟨rfl, _⟩, ⟨_, _, _, ⟨valid, rfl⟩, ⟨rfl, rfl⟩, rfl⟩,
      rfl⟩, rfl⟩
    exact ⟨by simp [Field.octets], valid⟩
  · rintro ⟨rfl, valid⟩
    obtain ⟨⟨key, _⟩, value⟩ := Field.valid_iff.mp valid
    exact ⟨field.key, _, _, ⟨rfl, key⟩, ⟨field.value, _, [], ⟨rfl, value⟩,
      ⟨(), [], [], ⟨valid, rfl⟩, ⟨rfl, rfl⟩, rfl⟩, rfl⟩, by simp [Field.octets]⟩

theorem Field.read_safe : Safe Field.read :=
  (readString_safe 128).bind fun _ => (readString_safe 8192).bind fun _ =>
    (Safe.check _).bind fun _ => .pure _

theorem signed_unsigned {status : Int} (fits : -2 ^ 31 ≤ status ∧ status < 2 ^ 31) :
    signed (unsigned status) = status ∧ unsigned status < 256 ^ 4 := by
  unfold signed unsigned
  split <;> omega

theorem unsigned_signed {value : Nat} (fits : value < 256 ^ 4) :
    unsigned (signed value) = value ∧ -2 ^ 31 ≤ signed value ∧ signed value < 2 ^ 31 := by
  unfold signed unsigned
  split <;> omega

theorem length_le_flatMap {fields : List Field} (valid : ∀ field ∈ fields, field.valid = true) :
    fields.length * 11 ≤ (fields.flatMap Field.octets).length := by
  induction fields with
  | nil => simp
  | cons field rest ih =>
    have first := (Field.valid_iff.mp (valid field (by simp))).1.2
    have others := ih fun next member => valid next (by simp [member])
    rw [List.flatMap_cons, List.length_append, Field.length_octets, List.length_cons]
    omega

/-- The fields of an envelope; the early check for room refuses none. -/
theorem fields_reads (count : Nat) :
    Reads (readFields count) fun fields l =>
      l = fields.flatMap Field.octets ∧ (∀ field ∈ fields, field.valid = true) ∧
        fields.length = count := by
  rw [readFields, Octets.enough_eq count (by decide)]
  refine (Field.read_reads.replicate count).room ?_
  rintro fields l ⟨rfl, valid, rfl⟩
  exact length_le_flatMap valid

theorem Envelope.valid_iff {envelope : Envelope} : envelope.valid = true ↔
    (validString envelope.method 128 = true ∧ envelope.fields.length ≤ 256) ∧
      ∀ field ∈ envelope.fields, field.valid = true := by
  simp [Envelope.valid]

theorem Envelope.read_reads :
    Reads Envelope.read fun envelope l => l = envelope.octets ∧ envelope.Fits := by
  refine ((Reads.number 4).bind fun version => (Reads.number 4).bind fun kind =>
    (Reads.number 8).bind fun correlation => (readString_reads (by decide)).bind fun method =>
      (Reads.number 4).bind fun status => (Reads.number 4).bind fun count =>
        (Reads.check _).bind fun _ => (fields_reads count).bind fun fields =>
          (Reads.check _).bind fun _ => Reads.pure _).mono fun envelope l => ?_
  constructor
  · rintro ⟨version, _, _, ⟨rfl, version_fits⟩, ⟨kind, _, _, ⟨rfl, kind_fits⟩, ⟨correlation, _, _,
      ⟨rfl, correlation_fits⟩, ⟨method, _, _, ⟨rfl, _⟩, ⟨status, _, _, ⟨rfl, status_fits⟩, ⟨count, _, _,
        ⟨rfl, _⟩, ⟨_, _, _, ⟨_, rfl⟩, ⟨fields, _, _, ⟨rfl, _, rfl⟩, ⟨_, _, _, ⟨valid, rfl⟩,
          ⟨rfl, rfl⟩, rfl⟩, rfl⟩, rfl⟩, rfl⟩, rfl⟩, rfl⟩, rfl⟩, rfl⟩, rfl⟩
    obtain ⟨raw, bounds⟩ := unsigned_signed status_fits
    refine ⟨?_, version_fits, kind_fits, correlation_fits, bounds, valid⟩
    simp [Envelope.octets, raw]
  · rintro ⟨rfl, fits⟩
    obtain ⟨⟨method, few⟩, fields⟩ := Envelope.valid_iff.mp fits.valid
    obtain ⟨status, status_fits⟩ := signed_unsigned fits.status
    refine ⟨envelope.version, _, _, ⟨rfl, fits.version⟩, ⟨envelope.kind, _, _, ⟨rfl, fits.kind⟩,
      ⟨envelope.correlation, _, _, ⟨rfl, fits.correlation⟩, ⟨envelope.method, _, _, ⟨rfl, method⟩,
        ⟨unsigned envelope.status, _, _, ⟨rfl, status_fits⟩, ⟨envelope.fields.length, _, _,
          ⟨rfl, by omega⟩, ⟨(), [], _, ⟨by simpa using few, rfl⟩, ⟨envelope.fields, _, [],
            ⟨rfl, fields, rfl⟩, ⟨(), [], [], ⟨?_, rfl⟩, ⟨?_, rfl⟩, rfl⟩, rfl⟩, rfl⟩, rfl⟩, rfl⟩, rfl⟩,
            rfl⟩, rfl⟩, ?_⟩
    · rw [status]
      exact fits.valid
    · rw [status]
    · simp [Envelope.octets]

theorem Envelope.read_safe : Safe Envelope.read :=
  (Safe.number 4).bind fun _ => (Safe.number 4).bind fun _ => (Safe.number 8).bind fun _ =>
    (readString_safe 128).bind fun _ => (Safe.number 4).bind fun _ => (Safe.number 4).bind fun count =>
      (Safe.check _).bind fun _ =>
        (Safe.bind (fun _ _ inside => inside) fun _ => Field.read_safe.replicate count).bind fun _ =>
          (Safe.check _).bind fun _ => .pure _

/-- An envelope is accepted where it fills the buffer. -/
theorem envelopeIn_eq_some {b : Buffer} {envelope : Envelope} :
    envelopeIn b = some envelope ↔ b.octets = envelope.octets ∧ envelope.Fits := by
  unfold envelopeIn
  constructor
  · intro accepted
    split at accepted
    · rename_i found c run
      split at accepted
      · rename_i whole
        cases accepted
        simp only [Bool.and_eq_true, beq_iff_eq] at whole
        obtain ⟨l, ⟨rfl, fits⟩, rest, _⟩ := Envelope.read_reads.returns (Nat.zero_le _) run
        rw [whole.2, Octets.rest_self, List.append_nil] at rest
        exact ⟨rest, fits⟩
      · cases accepted
    · cases accepted
  · rintro ⟨here, fits⟩
    obtain ⟨c, run, rest, inside⟩ := Envelope.read_reads.accepts (b := b) (c := ⟨0, 0⟩) (m := [])
      (Nat.zero_le _) ⟨rfl, fits⟩ (here.trans (List.append_nil _).symm)
    have whole : c.position = b.size := by
      have left := Octets.length_rest b c.position
      rw [rest, List.length_nil] at left
      omega
    rw [run]
    simp [fits.valid, whole]

/-! ### Writing -/

/-- The writer appends `l` where the frame has room for it. -/
def Writes (write : List UInt8 → Option (List UInt8)) (l : List UInt8) : Prop :=
  ∀ ⦃out result⦄, out.length ≤ kMaxFrameSize →
    (write out = some result ↔ result = out ++ l ∧ result.length ≤ kMaxFrameSize)

theorem Writes.nil : Writes some [] := by
  intro out result room
  rw [Option.some.injEq, List.append_nil]
  constructor
  · rintro rfl
    exact ⟨rfl, room⟩
  · rintro ⟨rfl, _⟩
    rfl

theorem Writes.bind {write next : List UInt8 → Option (List UInt8)} {l m : List UInt8}
    (first : Writes write l) (second : Writes next m) :
    Writes (fun out => write out >>= next) (l ++ m) := by
  intro out result start
  rw [Option.bind_eq_bind, Option.bind_eq_some_iff]
  constructor
  · rintro ⟨middle, one, two⟩
    obtain ⟨rfl, room⟩ := (first start).mp one
    obtain ⟨rfl, room⟩ := (second room).mp two
    exact ⟨List.append_assoc out l m, room⟩
  · rintro ⟨rfl, room⟩
    have middle : (out ++ l).length ≤ kMaxFrameSize := by
      rw [List.length_append, List.length_append] at room
      rw [List.length_append]
      omega
    exact ⟨out ++ l, (first start).mpr ⟨rfl, middle⟩,
      (second middle).mpr ⟨(List.append_assoc out l m).symm, room⟩⟩

theorem put_writes (bytes : List UInt8) : Writes (put bytes) bytes := by
  intro out result _
  unfold put
  rw [Option.ite_none_right_eq_some, Option.some.injEq, kMaxFrameSize]
  constructor
  · rintro ⟨room, rfl⟩
    rw [List.length_append]
    exact ⟨rfl, by omega⟩
  · rintro ⟨rfl, room⟩
    rw [List.length_append] at room
    exact ⟨by omega, rfl⟩

theorem writeString_writes {value : String} {maximum : Nat} (valid : validString value maximum = true) :
    Writes (writeString value maximum) (stringOctets value) := by
  intro out result start
  rw [writeString, if_pos valid]
  exact put_writes _ start

theorem Field.write_writes {field : Field} (valid : field.valid = true) :
    Writes (fun out => Field.write out field) field.octets := by
  obtain ⟨⟨key, _⟩, value⟩ := Field.valid_iff.mp valid
  have both := (writeString_writes key).bind (writeString_writes value)
  intro out result start
  simp only [Field.write, valid, guard, ↓reduceIte]
  exact both start

theorem fields_writes {fields : List Field} (valid : ∀ field ∈ fields, field.valid = true) :
    Writes (fun out => fields.foldlM Field.write out) (fields.flatMap Field.octets) := by
  induction fields with
  | nil => exact Writes.nil
  | cons field rest ih =>
    rw [List.flatMap_cons]
    exact (Field.write_writes (valid field (by simp))).bind
      (ih fun next member => valid next (by simp [member]))

theorem Envelope.write_writes {envelope : Envelope} (valid : envelope.valid = true) :
    Writes envelope.write envelope.octets := by
  obtain ⟨⟨method, _⟩, fields⟩ := Envelope.valid_iff.mp valid
  have all := (put_writes (bigEndian 4 envelope.version)).bind ((put_writes (bigEndian 4 envelope.kind)).bind
    ((put_writes (bigEndian 8 envelope.correlation)).bind ((writeString_writes method).bind
      ((put_writes (bigEndian 4 (unsigned envelope.status))).bind
        ((put_writes (bigEndian 4 envelope.fields.length)).bind (fields_writes fields))))))
  intro out result start
  simp only [Envelope.write, valid, guard, ↓reduceIte]
  exact all start

theorem Envelope.length_octets (envelope : Envelope) : envelope.octets.length =
    29 + envelope.method.utf8ByteSize + (envelope.fields.flatMap Field.octets).length := by
  simp only [Envelope.octets, List.length_append, Octets.length_bigEndian, length_stringOctets]
  omega

end Consent.Wire
