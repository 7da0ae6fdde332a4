import Consent.Library.Act
import Consent.Protocol.Generator
import Consent.Protocol.Records

/-!
The code generator is correct for every schema that it accepts. Every type that occurs in a
schema has one encoding for each of its values; what the generated code writes and reads is
that encoding and nothing else, and its length lies within the layout that the generator
computes. The classes of a schema follow one another, so that this is an induction over the
records, with the classes of the records before it at hand for each record.
-/
namespace Consent.Generator
open Octets (Buffer Cursor Reader Reads bigEndian)
open Wire (put validString stringOctets Writes)

/-! ### Encodings -/

/-- Valid values have these encodings, the writer appends them and the reader takes them;
the reader of a member may take more values than are valid. -/
structure Encodes (codec : Codec) (octets : codec.Carrier → List UInt8)
    (accepts : codec.Carrier → Prop) (minimum maximum : Nat) : Prop where
  writes : ∀ value, codec.valid value = true → Writes (codec.write value) (octets value)
  accepted : ∀ value, codec.valid value = true → accepts value
  reads : Reads codec.read fun value l => l = octets value ∧ accepts value
  size : ∀ value, codec.valid value = true →
    minimum ≤ (octets value).length ∧ (octets value).length ≤ maximum

/-- A class reads valid objects only. -/
def EncodesClass (codec : Codec) (octets : codec.Carrier → List UInt8) (minimum maximum : Nat) : Prop :=
  Encodes codec octets (fun value => codec.valid value = true) minimum maximum

section numbers

variable {α : Type} {n : Nat} {f : α → Nat} {g : Nat → α}

/-- A number of a fixed width, behind any representation of it. -/
theorem reads_number (bound : ∀ value, f value < 256 ^ n) (of_to : ∀ k, k < 256 ^ n → f (g k) = k)
    (to_of : ∀ value, g (f value) = value) :
    Reads (do let k ← Octets.number n; pure (g k)) fun value l => l = bigEndian n (f value) ∧ True := by
  refine ((Reads.number n).bind fun k => Reads.pure (g k)).mono fun value l => ?_
  constructor
  · rintro ⟨k, _, _, ⟨rfl, small⟩, ⟨rfl, rfl⟩, rfl⟩
    exact ⟨by rw [List.append_nil, of_to k small], trivial⟩
  · rintro ⟨rfl, _⟩
    exact ⟨f value, _, [], ⟨rfl, bound value⟩, ⟨(to_of value).symm, rfl⟩, by simp⟩

end numbers

theorem Numeric.encodes (numeric : Numeric) :
    ∃ octets, Encodes numeric.codec octets (fun _ => True) numeric.width numeric.width := by
  cases numeric with
  | u32 =>
    refine ⟨fun value : UInt32 => bigEndian 4 value.toNat, fun value _ => Wire.put_writes _,
      fun _ _ => trivial, ?_, fun value _ => by simp [width]⟩
    exact reads_number UInt32.toNat_lt (fun k small => UInt32.toNat_ofNat_of_lt' small)
      fun value => UInt32.ofNat_toNat
  | i32 =>
    refine ⟨fun value : Int32 => bigEndian 4 value.toUInt32.toNat, fun value _ => Wire.put_writes _,
      fun _ _ => trivial, ?_, fun value _ => by simp [width]⟩
    refine reads_number (g := fun k => (UInt32.ofNat k).toInt32) (fun value => UInt32.toNat_lt _) ?_ ?_
    · intro k small
      rw [UInt32.toUInt32_toInt32, UInt32.toNat_ofNat_of_lt' small]
    · intro value
      simp
  | u64 =>
    refine ⟨fun value : UInt64 => bigEndian 8 value.toNat, fun value _ => Wire.put_writes _,
      fun _ _ => trivial, ?_, fun value _ => by simp [width]⟩
    exact reads_number UInt64.toNat_lt (fun k small => UInt64.toNat_ofNat_of_lt' small)
      fun value => UInt64.ofNat_toNat

namespace Codec

theorem text_valid_iff {least most : Nat} {value : String} :
    (text least most).valid value = true ↔
      validString value most = true ∧ least ≤ value.utf8ByteSize := by
  simp [text]

theorem text_encodes {least most : Nat} (short : most ≤ 65536) :
    Encodes (text least most) stringOctets (fun value => validString value most = true)
      (5 + least) (5 + most) where
  writes value valid := Wire.writeString_writes (text_valid_iff.mp valid).1
  accepted value valid := (text_valid_iff.mp valid).1
  reads := Wire.readString_reads (by omega)
  size := by
    intro (value : String) valid
    obtain ⟨clean, long⟩ := text_valid_iff.mp valid
    simp only [validString, Bool.and_eq_true, decide_eq_true_eq] at clean
    rw [Wire.length_stringOctets]
    omega

/-! ### Arrays -/

section arrays

variable {element : Codec} {octets : element.Carrier → List UInt8} {minimum maximum : Nat}

theorem array_valid_iff {most : Nat} {items : List element.Carrier} :
    (element.array most minimum).valid items = true ↔
      items.length ≤ most ∧ ∀ item ∈ items, element.valid item = true := by
  simp [array]

theorem writes_items (encodes : EncodesClass element octets minimum maximum)
    {items : List element.Carrier} (valid : ∀ item ∈ items, element.valid item = true) :
    Writes (fun out => items.foldlM (fun out item => element.write item out) out)
      (items.flatMap octets) := by
  induction items with
  | nil => exact Writes.nil
  | cons item rest ih =>
    rw [List.flatMap_cons]
    exact (encodes.writes item (valid item (by simp))).bind
      (ih fun next member => valid next (by simp [member]))

theorem length_items (encodes : EncodesClass element octets minimum maximum)
    {items : List element.Carrier} (valid : ∀ item ∈ items, element.valid item = true) :
    items.length * minimum ≤ (items.flatMap octets).length ∧
      (items.flatMap octets).length ≤ items.length * maximum := by
  induction items with
  | nil => simp
  | cons item rest ih =>
    have first := encodes.size item (valid item (by simp))
    have others := ih fun next member => valid next (by simp [member])
    rw [List.flatMap_cons, List.length_append, List.length_cons, Nat.add_mul, Nat.add_mul]
    omega

/-- What the guard lets pass fits into the rest of the parcel. -/
theorem readCount_fits {most count : Nat} {b : Buffer} {c d : Cursor} (positive : 0 < minimum)
    (run : readCount most minimum b c = (some count, d)) :
    count ≤ most ∧ d.position + count * minimum ≤ b.size := by
  obtain ⟨_, c₁, _, rest⟩ := Octets.of_bind run
  obtain ⟨_, c₂, few, rest⟩ := Octets.of_bind rest
  obtain ⟨_, c₃, room, rest⟩ := Octets.of_bind rest
  cases rest
  rw [Octets.enough_eq count positive] at room
  unfold Octets.check at few
  unfold Octets.remaining at room
  split at few
  · rename_i small
    split at room
    · cases few
      cases room
      exact ⟨of_decide_eq_true small, by omega⟩
    · cases room
  · cases few

/-- The guard refuses no array of valid objects. -/
theorem reads_array (encodes : EncodesClass element octets minimum maximum) (positive : 0 < minimum)
    {most : Nat} (few : most ≤ 4096) :
    Reads (element.array most minimum).read fun items l =>
      l = bigEndian 4 items.length ++ items.flatMap octets ∧
        (element.array most minimum).valid items = true := by
  have reader : (element.array most minimum).read = (Octets.number 4 >>= fun count =>
      Octets.check (decide (count ≤ most)) >>= fun _ =>
        Octets.remaining (count * minimum) >>= fun _ => Octets.replicate element.read count) := by
    funext b c
    simp only [array, readCount, Octets.bind_eq, Octets.enough_eq _ positive]
    rcases Octets.number 4 b c with ⟨_ | count, c₁⟩
    · rfl
    dsimp only
    rcases Octets.check (decide (count ≤ most)) b c₁ with ⟨_ | _, c₂⟩
    · rfl
    dsimp only
    rcases Octets.remaining (count * minimum) b c₂ with ⟨_ | _, c₃⟩ <;> rfl
  rw [reader]
  refine ((Reads.number 4).bind fun count => (Reads.check _).bind fun _ =>
    (encodes.reads.replicate count).room ?_).mono fun items l => ?_
  · rintro items l ⟨rfl, valid, rfl⟩
    exact (length_items encodes valid).1
  · rw [array_valid_iff]
    constructor
    · rintro ⟨count, _, _, ⟨rfl, _⟩, ⟨_, _, _, ⟨small, rfl⟩, ⟨rfl, valid, rfl⟩, rfl⟩, rfl⟩
      exact ⟨rfl, of_decide_eq_true small, valid⟩
    · rintro ⟨rfl, small, valid⟩
      exact ⟨items.length, _, _, ⟨rfl, by omega⟩, ⟨(), [], _, ⟨decide_eq_true small, rfl⟩, ⟨rfl, valid, rfl⟩, rfl⟩, rfl⟩

theorem array_encodes (encodes : EncodesClass element octets minimum maximum) (positive : 0 < minimum)
    {most : Nat} (few : most ≤ 4096) :
    EncodesClass (element.array most minimum)
      (fun items => bigEndian 4 items.length ++ items.flatMap octets) 4 (4 + most * maximum) where
  writes items valid :=
    (Wire.put_writes _).bind (writes_items encodes (array_valid_iff.mp valid).2)
  accepted _ valid := valid
  reads := reads_array encodes positive few
  size := by
    intro (items : List element.Carrier) valid
    obtain ⟨small, valid⟩ := array_valid_iff.mp valid
    obtain ⟨_, long⟩ := length_items encodes valid
    have whole : items.length * maximum ≤ most * maximum := Nat.mul_le_mul_right _ small
    rw [List.length_append, Octets.length_bigEndian]
    omega

end arrays

/-! ### Records -/

/-- The members of a record with their encodings, and the sums of their bounds. -/
inductive EncodesAll : (members : List Codec) → (Tuple members → List UInt8) → (Tuple members → Prop) →
    Nat → Nat → Prop where
  | nil : EncodesAll [] (fun _ => []) (fun _ => True) 0 0
  | cons {member : Codec} {rest : List Codec} {octets : member.Carrier → List UInt8}
      {accepts : member.Carrier → Prop} {minimum maximum : Nat}
      {others : Tuple rest → List UInt8} {acceptsOthers : Tuple rest → Prop} {least most : Nat} :
      Encodes member octets accepts minimum maximum →
      EncodesAll rest others acceptsOthers least most →
      EncodesAll (member :: rest) (fun values => octets values.1 ++ others values.2)
        (fun values => accepts values.1 ∧ acceptsOthers values.2) (minimum + least) (maximum + most)

section records

variable {members : List Codec} {octets : Tuple members → List UInt8} {accepts : Tuple members → Prop}
  {minimum maximum : Nat}

theorem writeAll_writes (encodes : EncodesAll members octets accepts minimum maximum)
    {values : Tuple members} (valid : validAll members values = true) :
    Writes (writeAll members values) (octets values) := by
  induction encodes with
  | nil => exact Writes.nil
  | cons first rest ih =>
    obtain ⟨value, values⟩ := values
    simp only [validAll, Bool.and_eq_true] at valid
    exact (first.writes value valid.1).bind (ih valid.2)

theorem accepts_of_validAll (encodes : EncodesAll members octets accepts minimum maximum)
    {values : Tuple members} (valid : validAll members values = true) : accepts values := by
  induction encodes with
  | nil => exact trivial
  | cons first rest ih =>
    obtain ⟨value, values⟩ := values
    simp only [validAll, Bool.and_eq_true] at valid
    exact ⟨first.accepted value valid.1, ih valid.2⟩

theorem readAll_reads (encodes : EncodesAll members octets accepts minimum maximum) :
    Reads (readAll members) fun values l => l = octets values ∧ accepts values := by
  induction encodes with
  | nil =>
    refine (Reads.pure ()).mono fun values l => ?_
    constructor
    · rintro ⟨_, rfl⟩
      exact ⟨rfl, trivial⟩
    · rintro ⟨rfl, _⟩
      exact ⟨rfl, rfl⟩
  | cons first rest ih =>
    refine (first.reads.bind fun value => ih.bind fun values => Reads.pure (value, values)).mono
      fun values l => ?_
    constructor
    · rintro ⟨value, _, _, ⟨rfl, one⟩, ⟨others, _, _, ⟨rfl, two⟩, ⟨rfl, rfl⟩, rfl⟩, rfl⟩
      exact ⟨by rw [List.append_nil], one, two⟩
    · rintro ⟨rfl, one, two⟩
      exact ⟨values.1, _, _, ⟨rfl, one⟩, ⟨values.2, _, [], ⟨rfl, two⟩, ⟨rfl, rfl⟩, rfl⟩, by simp⟩

theorem length_all (encodes : EncodesAll members octets accepts minimum maximum)
    {values : Tuple members} (valid : validAll members values = true) :
    minimum ≤ (octets values).length ∧ (octets values).length ≤ maximum := by
  induction encodes with
  | nil => simp
  | cons first rest ih =>
    obtain ⟨value, values⟩ := values
    simp only [validAll, Bool.and_eq_true] at valid
    have one := first.size value valid.1
    have two := ih valid.2
    rw [List.length_append]
    dsimp only
    omega

theorem record_encodes (encodes : EncodesAll members octets accepts minimum maximum) :
    EncodesClass (record members) octets minimum maximum where
  writes values valid := by
    change Writes (fun out => if validAll members values then writeAll members values out else none) _
    change validAll members values = true at valid
    simp only [valid, if_true]
    exact writeAll_writes encodes valid
  accepted _ valid := valid
  reads := by
    refine ((readAll_reads encodes).bind fun decoded => (Reads.check _).bind fun _ =>
      Reads.pure decoded).mono fun values l => ?_
    constructor
    · rintro ⟨decoded, _, _, ⟨rfl, _⟩, ⟨_, _, _, ⟨valid, rfl⟩, ⟨rfl, rfl⟩, rfl⟩, rfl⟩
      exact ⟨by simp, valid⟩
    · rintro ⟨rfl, valid⟩
      exact ⟨values, _, [], ⟨rfl, accepts_of_validAll encodes valid⟩,
        ⟨(), [], [], ⟨valid, rfl⟩, ⟨rfl, rfl⟩, rfl⟩, by simp⟩
  size values valid := length_all encodes valid

end records

end Codec

/-! ### Schemas -/

/-- The class of a record and the layout that was computed for it. -/
def Fits (codec : Codec) (layout : Layout) : Prop :=
  0 < layout.minimum ∧ (∀ value out, codec.valid value = false → codec.write value out = none) ∧
    ∃ octets, EncodesClass codec octets layout.minimum layout.maximum

/-- Every known record has its class. -/
def Covers (classes : List (String × Codec)) (known : List (String × Layout)) : Prop :=
  ∀ name layout, known.lookup name = some layout →
    ∃ codec, classes.lookup name = some codec ∧ Fits codec layout

theorem require_eq_ok {condition : Bool} {message : String} :
    require condition message = .ok () ↔ condition = true := by
  unfold require
  cases condition <;> simp [pure, Except.pure, throw, throwThe, MonadExceptOf.throw]

theorem number_le_of_integer {value : Json} {least most : Nat} (inside : integer value least most = true) :
    value.number ≤ most := by
  cases value with
  | int value =>
    simp only [integer, decide_eq_true_eq] at inside
    simp only [Json.number]
    omega
  | _ => cases inside

/-- What a field adds to the layout bounds the encoding of its member. -/
theorem addKind_encodes {known layouts : List (String × Layout)} {classes : List (String × Codec)}
    {layout after : Layout} {field : Json} {kind : String} {allowed : List String}
    (covers : Covers classes known)
    (known_in : ∀ name layout, known.lookup name = some layout → layouts.lookup name = some layout)
    (typed : field.get "type" = .text kind)
    (accepted : addKind known layout field kind = .ok (after, allowed)) :
    ∃ member octets accepts minimum maximum, emitField layouts classes field = some member ∧
      Encodes member octets accepts minimum maximum ∧ 0 < minimum ∧
      after.minimum = layout.minimum + minimum ∧ after.maximum = layout.maximum + maximum := by
  unfold addKind at accepted
  simp only [emitField, typed, Json.string]
  split at accepted
  · rename_i numeric _
    obtain ⟨_, _, done⟩ := Except.of_bind_ok accepted
    cases done
    obtain ⟨octets, encodes⟩ := numeric.encodes
    refine ⟨numeric.codec, octets, _, _, _, rfl, encodes, ?_, rfl, rfl⟩
    cases numeric <;> decide
  · split at accepted
    · rename_i isString
      obtain ⟨_, bounded, rest⟩ := Except.of_bind_ok accepted
      obtain ⟨_, _, done⟩ := Except.of_bind_ok rest
      cases done
      have short := number_le_of_integer (require_eq_ok.mp bounded)
      rw [if_pos isString]
      exact ⟨_, _, _, _, _, rfl, Codec.text_encodes short, by omega, rfl, rfl⟩
    · rename_i notString
      rw [if_neg notString]
      split at accepted
      · rename_i isArray
        rw [if_pos isArray]
        split at accepted
        · rename_i element _
          split at accepted
          · rename_i child found
            obtain ⟨_, bounded, done⟩ := Except.of_bind_ok accepted
            cases done
            have few := number_le_of_integer (require_eq_ok.mp bounded)
            obtain ⟨codec, isClass, positive, _, octets, encodes⟩ := covers element child found
            refine ⟨_, _, _, _, _, ?_, Codec.array_encodes encodes positive few, by decide, rfl, rfl⟩
            simp [isClass, known_in element child found]
          · cases accepted
        · cases accepted
      · rename_i notArray
        rw [if_neg notArray]
        split at accepted
        · rename_i child found
          cases accepted
          obtain ⟨codec, isClass, positive, _, octets, encodes⟩ := covers kind child found
          exact ⟨codec, octets, _, _, _, isClass, encodes, positive, rfl, rfl⟩
        · cases accepted

/-- What the loop over the fields leaves to the kind of a field. -/
theorem validateField_kind {known : List (String × Layout)} {seen names : List String}
    {layout after : Layout} {field : Json}
    (accepted : validateField known (seen, layout) field = .ok (names, after)) :
    ∃ kind allowed, field.get "type" = .text kind ∧
      addKind known layout field kind = .ok (after, allowed) := by
  obtain ⟨_, _, rest⟩ := Except.of_bind_ok accepted
  obtain ⟨_, _, rest⟩ := Except.of_bind_ok rest
  split at rest
  · rename_i kind typed
    obtain ⟨⟨added, allowed⟩, found, rest⟩ := Except.of_bind_ok rest
    obtain ⟨_, _, done⟩ := Except.of_bind_ok rest
    cases done
    exact ⟨kind, allowed, typed, found⟩
  · cases rest

/-- The fields of a record, from the layout before them. -/
theorem fields_encode {known layouts : List (String × Layout)} {classes : List (String × Codec)}
    (covers : Covers classes known)
    (known_in : ∀ name layout, known.lookup name = some layout → layouts.lookup name = some layout)
    {fields : List Json} {seen names : List String} {layout after : Layout}
    (accepted : fields.foldlM (validateField known) (seen, layout) = .ok (names, after)) :
    ∃ members octets accepts minimum maximum, fields.mapM (emitField layouts classes) = some members ∧
      Codec.EncodesAll members octets accepts minimum maximum ∧ (fields ≠ [] → 0 < minimum) ∧
      after.minimum = layout.minimum + minimum ∧ after.maximum = layout.maximum + maximum := by
  induction fields generalizing seen layout with
  | nil =>
    cases accepted
    exact ⟨[], _, _, 0, 0, rfl, .nil, fun none => absurd rfl none, rfl, rfl⟩
  | cons field rest ih =>
    rw [List.foldlM_cons] at accepted
    obtain ⟨⟨next, middle⟩, step, others⟩ := Except.of_bind_ok accepted
    obtain ⟨kind, allowed, typed, added⟩ := validateField_kind step
    obtain ⟨member, octets, accepts, minimum, maximum, emitted, encodes, positive, least, most⟩ :=
      addKind_encodes covers known_in typed added
    obtain ⟨members, octets', accepts', minimum', maximum', mapped, encodesAll, _, least', most'⟩ :=
      ih others
    refine ⟨member :: members, _, _, minimum + minimum', maximum + maximum', ?_,
      .cons encodes encodesAll, fun _ => by omega, by omega, by omega⟩
    rw [List.mapM_cons, emitted, mapped]
    rfl

/-- A record that passes is appended to the known ones under a new name. -/
theorem validateRecord_cases {known after : List (String × Layout)} {record : Json}
    (accepted : validateRecord known record = .ok after) :
    ∃ names layout, (record.get "fields").items ≠ [] ∧
      (record.get "fields").items.foldlM (validateField known) ([], ⟨0, 0, 16, 0, 1⟩) =
        .ok (names, layout) ∧
      (record.get "name").string ∉ known.map Prod.fst ∧
      after = known ++ [((record.get "name").string, layout)] := by
  obtain ⟨_, _, rest⟩ := Except.of_bind_ok accepted
  obtain ⟨_, named, rest⟩ := Except.of_bind_ok rest
  obtain ⟨_, filled, rest⟩ := Except.of_bind_ok rest
  obtain ⟨⟨names, layout⟩, fields, rest⟩ := Except.of_bind_ok rest
  obtain ⟨_, _, done⟩ := Except.of_bind_ok rest
  cases done
  refine ⟨names, layout, ?_, fields, ?_, rfl⟩
  · intro empty
    have filled := require_eq_ok.mp filled
    generalize record.get "fields" = value at empty filled
    cases value <;> simp_all [Json.isList, Json.items]
  · have named := require_eq_ok.mp named
    rw [Bool.and_eq_true, Bool.not_eq_true', List.contains_eq_mem, decide_eq_false_iff_not] at named
    exact named.2

theorem lookup_append_some {β : Type} {name : String} {value : β} {known m : List (String × β)}
    (found : known.lookup name = some value) : (known ++ m).lookup name = some value := by
  rw [List.lookup_append, found]
  rfl

theorem records_extend {records : List Json} {known layouts : List (String × Layout)}
    (accepted : records.foldlM validateRecord known = .ok layouts) : ∃ more, layouts = known ++ more := by
  induction records generalizing known with
  | nil =>
    cases accepted
    exact ⟨[], (List.append_nil _).symm⟩
  | cons record rest ih =>
    rw [List.foldlM_cons] at accepted
    obtain ⟨middle, step, others⟩ := Except.of_bind_ok accepted
    obtain ⟨names, layout, _, _, _, rfl⟩ := validateRecord_cases step
    obtain ⟨more, rfl⟩ := ih others
    exact ⟨[_] ++ more, List.append_assoc _ _ _⟩

/-- A new class under a new name covers a new record. -/
theorem Covers.append {classes : List (String × Codec)} {known : List (String × Layout)}
    (covers : Covers classes known) (same : classes.map Prod.fst = known.map Prod.fst)
    {name : String} (fresh : name ∉ known.map Prod.fst) {codec : Codec} {layout : Layout}
    (fits : Fits codec layout) : Covers (classes ++ [(name, codec)]) (known ++ [(name, layout)]) := by
  intro other found located
  rw [List.lookup_append] at located ⊢
  cases old : known.lookup other with
  | some layout' =>
    rw [old] at located
    cases located
    obtain ⟨codec', isClass, fits'⟩ := covers other _ old
    exact ⟨codec', by rw [isClass]; rfl, fits'⟩
  | none =>
    rw [old, Option.none_or, List.lookup_cons] at located
    split at located
    · rename_i isName
      cases located
      have isName : other = name := by simpa using isName
      subst isName
      have absent : classes.lookup other = none := by
        rw [List.lookup_eq_none_iff]
        intro entry member
        have key : entry.1 ∈ known.map Prod.fst := same ▸ List.mem_map_of_mem member
        simp only [bne_iff_ne, ne_eq]
        rintro rfl
        exact fresh key
      exact ⟨codec, by rw [absent]; simp, fits⟩
    · cases located

/-- The classes of the records that follow, from those of the known ones. -/
theorem records_covered {records : List Json} {known layouts : List (String × Layout)}
    {classes : List (String × Codec)} (accepted : records.foldlM validateRecord known = .ok layouts)
    (covers : Covers classes known) (same : classes.map Prod.fst = known.map Prod.fst) :
    ∃ all, records.foldlM (emitRecord layouts) classes = some all ∧ Covers all layouts ∧
      all.map Prod.fst = layouts.map Prod.fst := by
  induction records generalizing known classes with
  | nil =>
    cases accepted
    exact ⟨classes, rfl, covers, same⟩
  | cons record rest ih =>
    obtain ⟨more, extended⟩ := records_extend accepted
    rw [List.foldlM_cons] at accepted
    obtain ⟨middle, step, others⟩ := Except.of_bind_ok accepted
    obtain ⟨names, layout, filled, fields, fresh, rfl⟩ := validateRecord_cases step
    have known_in : ∀ name layout, known.lookup name = some layout →
        layouts.lookup name = some layout := by
      intro name layout found
      rw [extended]
      exact lookup_append_some found
    obtain ⟨members, octets, accepts, minimum, maximum, emitted, encodes, positive, least, most⟩ :=
      fields_encode covers known_in fields
    rw [Nat.zero_add] at least most
    have fits : Fits (.record members) layout := by
      rw [Fits, least, most]
      exact ⟨positive filled, fun values out invalid => if_neg (ne_true_of_eq_false invalid), octets,
        Codec.record_encodes encodes⟩
    obtain ⟨all, generated, result⟩ := ih others (covers.append same fresh fits) (by simp [same])
    refine ⟨all, ?_, result⟩
    rw [List.foldlM_cons, emitRecord, emitted]
    exact generated

theorem validate_records {licensed : Json → Bool} {schema : Json} {layouts : List (String × Layout)}
    (accepted : validate licensed schema = .ok layouts) :
    (schema.get "records").items.foldlM validateRecord [] = .ok layouts := by
  obtain ⟨_, _, rest⟩ := Except.of_bind_ok accepted
  obtain ⟨_, _, rest⟩ := Except.of_bind_ok rest
  split at rest
  · obtain ⟨_, _, rest⟩ := Except.of_bind_ok rest
    obtain ⟨_, _, rest⟩ := Except.of_bind_ok rest
    exact rest
  · cases rest

/-! ### The guard of an array -/

/-- The guard of an array field divides by a positive number, and lets no count pass that the
rest of the parcel has no room for. -/
def Guarded (layouts : List (String × Layout)) (field : Json) : Prop :=
  field.get "type" = .text "array" →
    ∃ child, layouts.lookup (field.get "element").string = some child ∧ 0 < child.minimum ∧
      ∀ b c count d,
        Codec.readCount (field.get "max_count").number child.minimum b c = (some count, d) →
          count ≤ (field.get "max_count").number ∧ d.position + count * child.minimum ≤ b.size

theorem addKind_element {known : List (String × Layout)} {layout after : Layout} {field : Json}
    {allowed : List String} (accepted : addKind known layout field "array" = .ok (after, allowed)) :
    ∃ child, known.lookup (field.get "element").string = some child := by
  have other : Numeric.ofKind "array" = none := by decide
  simp only [addKind, other, if_neg (show "array" ≠ "string" by decide), if_true] at accepted
  split at accepted
  · rename_i element named
    split at accepted
    · rename_i child found
      exact ⟨child, by rw [named]; exact found⟩
    · cases accepted
  · cases accepted

/-- Each turn of a loop that ends well went well. -/
theorem step_of_foldlM_ok {ε σ α : Type} {f : σ → α → Except ε σ} {items : List α} {s t : σ}
    (run : items.foldlM f s = .ok t) {item : α} (member : item ∈ items) :
    ∃ before after, ∃ rest : List α, f before item = .ok after ∧ rest.foldlM f after = .ok t := by
  induction items generalizing s with
  | nil => cases member
  | cons first others ih =>
    rw [List.foldlM_cons] at run
    obtain ⟨next, step, later⟩ := Except.of_bind_ok run
    rcases List.mem_cons.mp member with rfl | member
    · exact ⟨s, next, others, step, later⟩
    · exact ih later member

theorem fields_guarded {records : List Json} {layouts : List (String × Layout)}
    (accepted : records.foldlM validateRecord [] = .ok layouts)
    (positive : ∀ name layout, layouts.lookup name = some layout → 0 < layout.minimum)
    {record field : Json} (isRecord : record ∈ records) (isField : field ∈ (record.get "fields").items) :
    Guarded layouts field := by
  intro isArray
  obtain ⟨known, after, rest, step, others⟩ := step_of_foldlM_ok accepted isRecord
  obtain ⟨names, layout, _, fields, _, rfl⟩ := validateRecord_cases step
  obtain ⟨more, rfl⟩ := records_extend others
  obtain ⟨before, next, _, turn, _⟩ := step_of_foldlM_ok fields isField
  obtain ⟨kind, allowed, typed, added⟩ := validateField_kind turn
  rw [isArray] at typed
  cases typed
  obtain ⟨child, found⟩ := addKind_element added
  have last : (known ++ [((record.get "name").string, layout)] ++ more).lookup
      (field.get "element").string = some child := lookup_append_some (lookup_append_some found)
  exact ⟨child, last, positive _ child last, fun b c count d run =>
    Codec.readCount_fits (positive _ child last) run⟩

/-! ### The generator -/

/-- A class whose objects have the encodings `octets`. -/
structure Exact (codec : Codec) (layout : Layout) (octets : codec.Carrier → List UInt8) : Prop where
  /-- A valid object is written as its encoding if that fits into a frame, and no other one is. -/
  writes : ∀ value, codec.write value [] =
    if codec.valid value = true ∧ (octets value).length ≤ 65536 then some (octets value) else none
  /-- The encoding of a valid object is read as that object, wherever it stands in a parcel and
  whatever follows it, and nothing more is consumed. -/
  reads : ∀ value, codec.valid value = true → ∀ b c m, c.position ≤ b.size →
    b.rest c.position = octets value ++ m →
      ∃ d, codec.read b c = (some value, d) ∧ d.position = c.position + (octets value).length
  /-- What is accepted is the encoding of the valid object that it is read as. -/
  accepts : ∀ b c value d, c.position ≤ b.size → codec.read b c = (some value, d) →
    codec.valid value = true ∧ d.position = c.position + (octets value).length ∧
      b.rest c.position = octets value ++ b.rest d.position
  size : ∀ value, codec.valid value = true →
    layout.minimum ≤ (octets value).length ∧ (octets value).length ≤ layout.maximum

theorem position_of_rest {b : Buffer} {c d : Cursor} {l : List UInt8} (inside : c.position ≤ b.size)
    (inside' : d.position ≤ b.size) (split : b.rest c.position = l ++ b.rest d.position) :
    d.position = c.position + l.length := by
  have whole := congrArg List.length split
  rw [List.length_append, Octets.length_rest, Octets.length_rest] at whole
  omega

theorem Fits.exact {codec : Codec} {layout : Layout} (fits : Fits codec layout) :
    ∃ octets, Exact codec layout octets := by
  obtain ⟨_, refuses, octets, encodes⟩ := fits
  refine ⟨octets, ?_, ?_, ?_, encodes.size⟩
  · intro value
    cases valid : codec.valid value with
    | false => simp [refuses value [] valid]
    | true =>
      apply Option.ext
      intro result
      rw [encodes.writes value valid (Nat.zero_le _), Option.ite_none_right_eq_some, Option.some.injEq,
        List.nil_append, kMaxFrameSize]
      constructor
      · rintro ⟨rfl, room⟩
        exact ⟨⟨rfl, room⟩, rfl⟩
      · rintro ⟨⟨_, room⟩, rfl⟩
        exact ⟨rfl, room⟩
  · intro value valid b c m inside here
    obtain ⟨d, run, rest, inside'⟩ := encodes.reads.accepts inside ⟨rfl, valid⟩ here
    exact ⟨d, run, position_of_rest inside inside' (rest ▸ here)⟩
  · intro b c value d inside run
    obtain ⟨l, ⟨rfl, valid⟩, split, inside'⟩ := encodes.reads.returns inside run
    exact ⟨valid, position_of_rest inside inside' split, split⟩

/-- Of every schema that is accepted, each record has a class that writes, reads and measures its
objects exactly, and the guard of each array is sound. -/
theorem generated_classes_exact {licensed : Json → Bool} {schema : Json}
    {layouts : List (String × Layout)} (accepted : validate licensed schema = .ok layouts) :
    ∃ classes, generate layouts schema = some classes ∧
      classes.map Prod.fst = layouts.map Prod.fst ∧
      (∀ name layout, layouts.lookup name = some layout →
        ∃ codec octets, classes.lookup name = some codec ∧ Exact codec layout octets) ∧
      ∀ record ∈ (schema.get "records").items, ∀ field ∈ (record.get "fields").items,
        Guarded layouts field := by
  have records := validate_records accepted
  have none : Covers [] [] := by
    intro name layout found
    cases found
  obtain ⟨classes, generated, covers, same⟩ := records_covered records none rfl
  refine ⟨classes, generated, same, ?_, ?_⟩
  · intro name layout found
    obtain ⟨codec, isClass, fits⟩ := covers name layout found
    obtain ⟨octets, exact⟩ := fits.exact
    exact ⟨codec, octets, isClass, exact⟩
  · intro record isRecord field isField
    refine fields_guarded records ?_ isRecord isField
    intro name layout found
    obtain ⟨codec, _, positive, _⟩ := covers name layout found
    exact positive

/-- The schema of the daemon's own protocol, `protocol/consent.idl.json`. -/
def protocolSchema : Json :=
  .dict [("license", .null), ("namespace", .text "consent::wire"), ("records", .list [
    .dict [("name", .text "Field"), ("fields", .list [
      .dict [("name", .text "key"), ("type", .text "string"), ("max_bytes", .int 128),
        ("min_bytes", .int 1)],
      .dict [("name", .text "value"), ("type", .text "string"), ("max_bytes", .int 8192)]])],
    .dict [("name", .text "Envelope"), ("fields", .list [
      .dict [("name", .text "version"), ("type", .text "u32"), ("default", .int 1)],
      .dict [("name", .text "kind"), ("type", .text "u32"), ("default", .int 1)],
      .dict [("name", .text "correlation"), ("type", .text "u64")],
      .dict [("name", .text "method"), ("type", .text "string"), ("max_bytes", .int 128)],
      .dict [("name", .text "status"), ("type", .text "i32")],
      .dict [("name", .text "fields"), ("type", .text "array"), ("element", .text "Field"),
        ("max_count", .int 256)]])]])]

def protocolLayouts : List (String × Layout) :=
  [("Field", ⟨11, 8330, 80, 8322, 1⟩), ("Envelope", ⟨29, 2132637, 104, 2151041, 2⟩)]

theorem protocolSchema_accepted : validate (fun _ => true) protocolSchema = .ok protocolLayouts := by
  decide

theorem protocol_classes_exact :
    validate (fun _ => true) protocolSchema = .ok protocolLayouts ∧
      ∃ classes, generate protocolLayouts protocolSchema = some classes ∧
        ∀ name layout, protocolLayouts.lookup name = some layout →
          ∃ codec octets, classes.lookup name = some codec ∧ Exact codec layout octets := by
  obtain ⟨classes, generated, _, exact, _⟩ := generated_classes_exact protocolSchema_accepted
  exact ⟨protocolSchema_accepted, classes, generated, exact⟩

/-! ### Texts that fill a frame -/

/-- One record of one text as long as a frame. -/
def blobSchema : Json :=
  .dict [("license", .null), ("namespace", .text "sample"), ("records", .list [
    .dict [("name", .text "Blob"), ("fields", .list [
      .dict [("name", .text "text"), ("type", .text "string"), ("max_bytes", .int 65536)]])]])]

def textOf (n : Nat) : String := String.ofList (List.replicate n 'a')

theorem octets_textOf (n : Nat) : Wire.octets (textOf n) = List.replicate n 97 := by
  have one : String.utf8EncodeChar 'a' = [97] := by decide
  rw [Wire.octets_eq, textOf, String.toList_ofList, List.flatMap_replicate, one]
  induction n with
  | zero => rfl
  | succ n ih => rw [List.replicate_succ, List.flatten_cons, ih, List.replicate_succ, List.singleton_append]

theorem size_textOf (n : Nat) : (textOf n).utf8ByteSize = n := by
  rw [← Wire.length_octets, octets_textOf, List.length_replicate]

theorem textOf_valid {n most : Nat} (short : n ≤ most) : validString (textOf n) most = true := by
  rw [validString, size_textOf, octets_textOf, decide_eq_true short]
  simp

/-- A parcel may be longer than what is ever written: its object is read, and is not written. -/
theorem accepted_text_not_written :
    ∃ layouts classes codec, validate (fun _ => true) blobSchema = .ok layouts ∧
      generate layouts blobSchema = some classes ∧ classes.lookup "Blob" = some codec ∧
      ∃ bytes value d, codec.read (Buffer.of bytes fun _ => 0) ⟨0, 0⟩ = (some value, d) ∧
        d.position = bytes.length ∧ codec.write value [] = none := by
  have valid : (Codec.record [.text 0 65536]).valid (textOf 65536, ()) = true := by
    have text := textOf_valid (Nat.le_refl 65536)
    generalize textOf 65536 = value at text ⊢
    simp [Codec.record, Codec.validAll, Codec.text, text]
  have encodes : EncodesClass (.record [.text 0 65536])
      (fun values : String × Unit => stringOctets values.1 ++ []) 5 65541 :=
    Codec.record_encodes (.cons (Codec.text_encodes (Nat.le_refl 65536)) .nil)
  have length : (stringOctets (textOf 65536) ++ []).length = 65541 := by
    rw [List.append_nil, Wire.length_stringOctets, size_textOf]
  obtain ⟨d, run, rest, inside⟩ := encodes.reads.accepts
    (b := .of (stringOctets (textOf 65536) ++ []) fun _ => 0) (c := ⟨0, 0⟩) (m := []) (Nat.zero_le _)
    ⟨rfl, valid⟩ ((Octets.octets_of _ _).trans (List.append_nil _).symm)
  refine ⟨[("Blob", ⟨5, 65541, 48, 65537, 1⟩)], [("Blob", .record [.text 0 65536])],
    .record [.text 0 65536], by decide, rfl, rfl, _, _, d, run, ?_, ?_⟩
  · have left := Octets.length_rest (.of (stringOctets (textOf 65536) ++ []) fun _ => 0) d.position
    rw [rest, List.length_nil] at left
    change d.position ≤ (stringOctets (textOf 65536) ++ []).length at inside
    change 0 = (stringOctets (textOf 65536) ++ []).length - d.position at left
    omega
  · apply Option.eq_none_iff_forall_ne_some.mpr
    intro result written
    obtain ⟨rfl, room⟩ := (encodes.writes _ valid (Nat.zero_le _)).mp written
    rw [List.nil_append, length] at room
    exact absurd room (by decide)

end Consent.Generator
