import Consent.Library.Tally
import Consent.Registration

/-!
The spool of offline registrations (`common/offline_registration.cc`,
`common/offline_layout.hh`) as the daemon reads it.

Opening the directory, the protection of its files and their content are given; the Parcel
codec and SHA-256 are parameters. `LoadRegistrations` sorts what it has read by keys that no
two records share, so the order in which the directory lists its files does not matter.
-/
namespace Consent.Offline

def kMaxRegistrations : Nat := 128
def kMaxRegistrationEntries : Nat := 256
def kMaxRegistrationBytes : Nat := 4 * 1024 * 1024
def kMaxRegistrationFileBytes : Nat := 65536

/-- The `-errno` values of the reader. -/
inductive Errno where
  | enoent | eacces | enospc | enomem | einval | eio | e2big
  deriving DecidableEq, Repr

structure Failure where
  status : Errno
  message : String
  deriving DecidableEq, Repr

/-- `encode` gives an empty list for a message that has no envelope. -/
structure Codec where
  encode : Message → List UInt8
  decode : List UInt8 → Option Message
  sha256 : List UInt8 → String

def require (condition : Bool) (status : Errno) (message : String) : Except Failure Unit :=
  if condition then .ok () else .error ⟨status, message⟩

/-! ### Names -/

def lowerHex (c : Char) : Bool := asciiDigit c || ('a' ≤ c && c ≤ 'f')

def anyHex (c : Char) : Bool := lowerHex c || ('A' ≤ c && c ≤ 'F')

def registrationName (name : String) : Bool :=
  name.toList.length == 71 && name.toList.drop 64 == ".parcel".toList &&
    (name.toList.take 64).all lowerHex

/-- `.pending-` and a UUID. -/
def pendingRegistrationName (name : String) : Bool :=
  name.toList.length == 45 && name.toList.take 9 == ".pending-".toList &&
    (name.toList.drop 9).zipIdx.all fun (c, i) =>
      if [8, 13, 18, 23].contains i then c == '-' else anyHex c

def identifier (value : String) : Bool :=
  !value.isEmpty && value.utf8ByteSize ≤ 255 &&
    value.toList.all fun c => asciiAlnum c || c == '.' || c == '_' || c == '-'

/-! ### Records -/

/-- One field of a record; `method` is checked and left out. -/
def publicField (result : Message) (field : String × String) : Except Failure Message :=
  if field.1 = "method" then do
    require (field.2 == "register") .einval "offline handle permits registration only"
    pure result
  else do
    require (Registration.isDefinitionField field.1 || field.1 == "operation_id" ||
      field.1 == "expected_generation") .einval "unsupported offline registration field"
    require (validField field.1 field.2) .einval "invalid offline registration field"
    pure (result.insert field.1 field.2)

def publicRegistration (input : Message) : Except Failure Message := do
  let result ← input.toList.foldlM publicField ∅
  require (identifier (result.get "operation_id") && identifier (result.get "expected_generation"))
    .einval "stable operation and expected installation generation required"
  require (Registration.validateDefinition result).isOk .einval
    "offline registration definition rejected"
  pure result

def recordName (codec : Codec) (value : Message) : String :=
  codec.sha256 (value.get "operation_id").toUTF8.toList ++ ".parcel"

/-- The digest of an envelope, without its outer length. -/
def payloadDigest (codec : Codec) (frame : List UInt8) : Except Failure String := do
  require (decide (4 < frame.length)) .einval "missing canonical offline registration envelope"
  pure (codec.sha256 (frame.drop 4))

/-- The frame of a record: the envelope of the registration with its format and digest. -/
def recordPayload (codec : Codec) (value : Message) : Except Failure (List UInt8) := do
  let named := ((value.insert "v" "1").insert "id" "1").insert "method" "register"
  let canonical := codec.encode named
  require (!canonical.isEmpty) .e2big "offline registration exceeds canonical envelope limits"
  let digest ← payloadDigest codec canonical
  let payload := codec.encode ((named.insert "payload_sha256" digest).insert "offline_format" "1")
  require (!payload.isEmpty && decide (payload.length ≤ kMaxRegistrationFileBytes)) .e2big
    "offline registration including format metadata exceeds record limits"
  pure payload

/-- The length that a frame begins with, in network order. -/
def frameSize : List UInt8 → Nat
  | a :: b :: c :: d :: _ => ((a.toNat * 256 + b.toNat) * 256 + c.toNat) * 256 + d.toNat
  | _ => 0

/-- The message of a frame that is a registration. -/
def decodeFrame (codec : Codec) (payload : List UInt8) : Option Message :=
  if 4 ≤ payload.length ∧ payload.length ≤ kMaxRegistrationFileBytes ∧
      frameSize payload = payload.length - 4 then
    (codec.decode (payload.drop 4)).filter fun value =>
      value.get "method" == "register" && value.get "id" == "1"
  else none

def decodeRecord (codec : Codec) (payload : List UInt8) (name : String) :
    Except Failure Message := do
  let value ← (decodeFrame codec payload).elim
    (.error ⟨.einval, "malformed offline registration record"⟩) .ok
  require (value.get "offline_format" == "1") .einval "unsupported offline registration format"
  let digest := value.get "payload_sha256"
  require (digest.utf8ByteSize == 64 && registrationName (digest ++ ".parcel")) .einval
    "invalid offline payload SHA-256 encoding"
  let canonical := value.eraseAll ["offline_format", "payload_sha256"]
  let frame := codec.encode canonical
  require (!frame.isEmpty) .einval "offline payload fingerprint mismatch"
  let found ← payloadDigest codec frame
  require (found == digest) .einval "offline payload fingerprint mismatch"
  let registration ← publicRegistration (canonical.eraseAll ["v", "id", "method"])
  require (recordName codec registration == name) .einval
    "offline record operation fingerprint mismatch"
  pure registration

/-! ### The directory -/

/-- A file as the reader finds it: it cannot be opened, is not protected or changes while it
is read, or else has these octets. -/
structure File where
  name : String
  fault : Option Failure
  bytes : List UInt8

/-- The files in the order of `readdir`, which may fail in the end. -/
structure Directory where
  files : List File
  complete : Bool
  distinct : (files.map (·.name)).Nodup

def readFile (file : File) : Except Failure (List UInt8) :=
  match file.fault with
  | some failure => .error failure
  | none => do
    require (decide (file.bytes.length ≤ kMaxRegistrationFileBytes)) .e2big
      "offline registration record exceeds 64 KiB"
    pure file.bytes

structure Record where
  name : String
  registration : Message

structure Scan where
  entryCount : Nat
  bytes : Nat
  records : List Record

/-- One turn of the loop over the directory. A file that an interrupted writer left behind
counts and is skipped. -/
def scanEntry (codec : Codec) (s : Scan) (file : File) : Except Failure Scan :=
  if file.name = "." ∨ file.name = ".." then pure s
  else do
    let temporary := pendingRegistrationName file.name
    require (decide (s.entryCount + 1 ≤ kMaxRegistrationEntries)) .enospc
      "offline directory entry limit exceeded"
    require (temporary || registrationName file.name) .einval "unexpected offline registration file"
    let payload ← readFile file
    require (decide (s.bytes + payload.length ≤ kMaxRegistrationBytes)) .enospc
      "offline registration storage limit exceeded"
    if temporary then pure ⟨s.entryCount + 1, s.bytes + payload.length, s.records⟩
    else do
      require (decide (s.records.length < kMaxRegistrations)) .enospc
        "offline registration count limit exceeded"
      let value ← decodeRecord codec payload file.name
      pure ⟨s.entryCount + 1, s.bytes + payload.length, s.records ++ [⟨file.name, value⟩]⟩

def scan (codec : Codec) (directory : Directory) : Except Failure (List Record) := do
  let s ← directory.files.foldlM (scanEntry codec) ⟨0, 0, []⟩
  require directory.complete .eio "offline registration scan failed"
  pure s.records

/-- What registrations are sorted by. -/
def sortKey (value : Message) :
    String ×ₗ String ×ₗ String ×ₗ String ×ₗ ℤ ×ₗ ℤ ×ₗ String :=
  toLex (value.get "package", toLex (value.get "app", toLex (value.get "definition",
    toLex (value.get "expected_generation", toLex (value.number "policy_version" 0,
      toLex (value.number "text_revision" 0, value.get "operation_id"))))))

/-- A missing spool holds no registrations. -/
def loadRegistrations (codec : Codec) : Option Directory → Except Failure (List Message)
  | none => pure []
  | some directory => do
    let records ← scan codec directory
    pure ((records.map (·.registration)).insertionSort fun a b => sortKey a ≤ sortKey b)

/-! ### The order of the directory -/

section

variable {codec : Codec}

theorem of_require {condition : Bool} {status : Errno} {message : String} {u : Unit}
    (h : require condition status message = .ok u) : condition = true := by
  unfold require at h
  split at h
  · assumption
  · cases h

/-- What a file adds to a scan, which does not depend on what has been read before. -/
def worth (codec : Codec) (file : File) : WithTop (ℕ × ℕ × Multiset Record) :=
  if file.name = "." ∨ file.name = ".." then 0
  else if pendingRegistrationName file.name || registrationName file.name then
    match readFile file with
    | .error _ => ⊤
    | .ok payload =>
      if pendingRegistrationName file.name then ((1, payload.length, 0) : ℕ × ℕ × Multiset Record)
      else
        match decodeRecord codec payload file.name with
        | .error _ => ⊤
        | .ok value => ((1, payload.length, {⟨file.name, value⟩}) : ℕ × ℕ × Multiset Record)
  else ⊤

def Scan.view (s : Scan) : ℕ × ℕ × Multiset Record := (s.entryCount, s.bytes, s.records)

/-- The limits of the spool. -/
def Within (total : ℕ × ℕ × Multiset Record) : Prop :=
  total.1 ≤ kMaxRegistrationEntries ∧ total.2.1 ≤ kMaxRegistrationBytes ∧
    total.2.2.card ≤ kMaxRegistrations

/-- What a turn of the scan has found. -/
inductive Turn (codec : Codec) (s : Scan) (file : File) : Scan → Prop where
  | skipped (dots : file.name = "." ∨ file.name = "..") : Turn codec s file s
  | pending {payload : List UInt8} (named : ¬ (file.name = "." ∨ file.name = ".."))
      (temporary : pendingRegistrationName file.name = true) (read : readFile file = .ok payload)
      (entries : s.entryCount + 1 ≤ kMaxRegistrationEntries)
      (bytes : s.bytes + payload.length ≤ kMaxRegistrationBytes) :
      Turn codec s file ⟨s.entryCount + 1, s.bytes + payload.length, s.records⟩
  | record {payload : List UInt8} {value : Message}
      (named : ¬ (file.name = "." ∨ file.name = ".."))
      (permanent : pendingRegistrationName file.name = false)
      (known : registrationName file.name = true) (read : readFile file = .ok payload)
      (decoded : decodeRecord codec payload file.name = .ok value)
      (entries : s.entryCount + 1 ≤ kMaxRegistrationEntries)
      (bytes : s.bytes + payload.length ≤ kMaxRegistrationBytes)
      (records : s.records.length < kMaxRegistrations) :
      Turn codec s file
        ⟨s.entryCount + 1, s.bytes + payload.length, s.records ++ [⟨file.name, value⟩]⟩

theorem scanEntry_turn {s s' : Scan} {file : File} (h : scanEntry codec s file = .ok s') :
    Turn codec s file s' := by
  unfold scanEntry at h
  split at h
  · cases h
    exact .skipped ‹_›
  · rename_i named
    obtain ⟨_, entries, h⟩ := Except.of_bind_ok h
    obtain ⟨_, known, h⟩ := Except.of_bind_ok h
    obtain ⟨payload, read, h⟩ := Except.of_bind_ok h
    obtain ⟨_, bytes, h⟩ := Except.of_bind_ok h
    have entries := of_decide_eq_true (of_require entries)
    have bytes := of_decide_eq_true (of_require bytes)
    split at h
    · cases h
      exact .pending named ‹_› read entries bytes
    · rename_i permanent
      rw [Bool.not_eq_true] at permanent
      obtain ⟨_, records, h⟩ := Except.of_bind_ok h
      obtain ⟨value, decoded, h⟩ := Except.of_bind_ok h
      cases h
      refine .record named permanent ?_ read decoded entries bytes (of_decide_eq_true (of_require records))
      simpa [permanent] using of_require known

theorem Turn.scanEntry {s s' : Scan} {file : File} (h : Turn codec s file s') :
    scanEntry codec s file = .ok s' := by
  unfold Offline.scanEntry
  cases h with
  | skipped dots => rw [if_pos dots]; rfl
  | pending named temporary read entries bytes =>
    rw [if_neg named]
    simp [temporary, read, entries, bytes, require, bind, Except.bind, pure, Except.pure]
  | record named permanent known read decoded entries bytes records =>
    rw [if_neg named]
    simp [permanent, known, read, decoded, entries, bytes, records, require, bind, Except.bind, pure,
      Except.pure]

theorem scan_counts : Tally.Counts Scan.view Within (worth codec) (scanEntry codec) where
  lower x y := by
    rintro ⟨entries, bytes, records⟩
    simp only [Prod.fst_add, Prod.snd_add, Multiset.card_add] at entries bytes records
    exact ⟨by omega, by omega, by omega⟩
  adds s file s' fits turn := by
    have records : s.records.length ≤ kMaxRegistrations := fits.2.2
    cases scanEntry_turn turn with
    | skipped dots =>
      refine ⟨?_, fits⟩
      simp [worth, dots]
    | pending named temporary read entries bytes =>
      refine ⟨?_, entries, bytes, records⟩
      simp [worth, named, temporary, read, Scan.view, ← WithTop.coe_add]
    | record named permanent known read decoded entries bytes fewer =>
      refine ⟨?_, entries, bytes, ?_⟩
      · simp [worth, named, permanent, known, read, decoded, Scan.view, ← WithTop.coe_add,
          ← Multiset.coe_add]
      · simpa [Scan.view] using fewer
  accepts s file x value fits := by
    unfold worth at value
    split at value
    · exact ⟨s, (Turn.skipped ‹_›).scanEntry⟩
    rename_i named
    split at value
    on_goal 2 => cases value
    rename_i known
    rcases read : readFile file with failure | payload
    · rw [read] at value
      cases value
    rw [read] at value
    obtain ⟨entries, bytes, records⟩ := fits
    dsimp only at value
    split at value
    · rename_i temporary
      cases value
      exact ⟨_, (Turn.pending named temporary read entries bytes).scanEntry⟩
    · rename_i permanent
      rw [Bool.not_eq_true] at permanent
      rcases decoded : decodeRecord codec payload file.name with failure | registration
      · rw [decoded] at value
        cases value
      · rw [decoded] at value
        cases value
        refine ⟨_, (Turn.record named permanent ?_ read decoded entries bytes ?_).scanEntry⟩
        · simpa [permanent] using known
        · simpa [Scan.view, Nat.succ_le_iff] using records

/-- Every record comes from a file and has its name. -/
theorem scan_origin {files : List File} {s : Scan}
    (h : files.foldlM (scanEntry codec) ⟨0, 0, []⟩ = .ok s) :
    ∀ r ∈ s.records, ∃ file ∈ files, file.name = r.name ∧ ∃ payload, readFile file = .ok payload ∧
      decodeRecord codec payload file.name = .ok r.registration := by
  refine Tally.invariant (I := fun s => ∀ r ∈ s.records, ∃ file ∈ files, file.name = r.name ∧
    ∃ payload, readFile file = .ok payload ∧ decodeRecord codec payload file.name = .ok r.registration)
    (by simp) (fun file member s s' known turn => ?_) h
  cases scanEntry_turn turn with
  | skipped dots => exact known
  | pending named temporary read entries bytes => exact known
  | record named permanent _ read decoded entries bytes fewer =>
    intro r found
    rcases List.mem_append.mp found with earlier | last
    · exact known r earlier
    · rw [List.mem_singleton.mp last]
      exact ⟨file, member, rfl, _, read, decoded⟩

/-- A record is named after its operation. -/
theorem decodeRecord_name {payload : List UInt8} {name : String} {value : Message}
    (h : decodeRecord codec payload name = .ok value) : recordName codec value = name := by
  obtain ⟨_, _, h⟩ := Except.of_bind_ok h
  obtain ⟨_, _, h⟩ := Except.of_bind_ok h
  obtain ⟨_, _, h⟩ := Except.of_bind_ok h
  obtain ⟨_, _, h⟩ := Except.of_bind_ok h
  obtain ⟨_, _, h⟩ := Except.of_bind_ok h
  obtain ⟨_, _, h⟩ := Except.of_bind_ok h
  obtain ⟨_, _, h⟩ := Except.of_bind_ok h
  obtain ⟨_, named, h⟩ := Except.of_bind_ok h
  cases h
  exact eq_of_beq (of_require named)

theorem sortKey_operation {a b : Message} (h : sortKey a = sortKey b) :
    a.get "operation_id" = b.get "operation_id" := by
  simp only [sortKey, EmbeddingLike.apply_eq_iff_eq, Prod.mk.injEq] at h
  exact h.2.2.2.2.2.2

theorem perm_sort (registrations : List Message) :
    (registrations.insertionSort fun a b => sortKey a ≤ sortKey b).Perm registrations :=
  List.perm_insertionSort _ registrations

theorem pairwise_sort (registrations : List Message) :
    (registrations.insertionSort fun a b => sortKey a ≤ sortKey b).Pairwise
      fun a b => sortKey a ≤ sortKey b :=
  have : Std.Total fun a b : Message => sortKey a ≤ sortKey b := ⟨fun _ _ => le_total _ _⟩
  have : IsTrans Message fun a b => sortKey a ≤ sortKey b := ⟨fun _ _ _ h k => le_trans h k⟩
  List.pairwise_insertionSort _ registrations

/-- Registrations with the same sort key are one record. -/
theorem scan_distinct {directory : Directory} {s : Scan}
    (h : directory.files.foldlM (scanEntry codec) ⟨0, 0, []⟩ = .ok s) :
    ∀ a ∈ s.records, ∀ b ∈ s.records, sortKey a.registration = sortKey b.registration →
      a.registration = b.registration := by
  intro a left b right same
  obtain ⟨file, listed, named, payload, read, decoded⟩ := scan_origin h a left
  obtain ⟨file', listed', named', payload', read', decoded'⟩ := scan_origin h b right
  have names : file.name = file'.name := by
    rw [← decodeRecord_name decoded, ← decodeRecord_name decoded', recordName, recordName,
      sortKey_operation same]
  obtain rfl : file = file' := List.inj_on_of_nodup_map directory.distinct listed listed' names
  obtain rfl : payload = payload' := Except.ok.inj (read.symm.trans read')
  exact Except.ok.inj (decoded.symm.trans decoded')

/-- The registrations that are loaded do not depend on the order of the directory. -/
theorem loadRegistrations_perm {directory directory' : Directory} {registrations : List Message}
    (order : directory.files.Perm directory'.files) (complete : directory'.complete = directory.complete)
    (h : loadRegistrations codec (some directory) = .ok registrations) :
    loadRegistrations codec (some directory') = .ok registrations := by
  obtain ⟨records, scanned, h⟩ := Except.of_bind_ok h
  cases h
  obtain ⟨s, run, scanned⟩ := Except.of_bind_ok scanned
  obtain ⟨_, ended, scanned⟩ := Except.of_bind_ok scanned
  cases scanned
  obtain ⟨s', run', same⟩ := scan_counts.perm (by simp [Within, Scan.view]) order run
  have permuted : s'.records.Perm s.records := by
    simp only [Scan.view, Prod.mk.injEq, Multiset.coe_eq_coe] at same
    exact same.2.2
  have loaded : loadRegistrations codec (some directory') =
      .ok ((s'.records.map (·.registration)).insertionSort fun a b => sortKey a ≤ sortKey b) := by
    simp [loadRegistrations, scan, run', complete, ended, bind, Except.bind, pure, Except.pure]
  rw [loaded]
  congr 1
  refine ((perm_sort _).trans ((permuted.map _).trans (perm_sort _).symm)).eq_of_pairwise ?_
    (pairwise_sort _) (pairwise_sort _)
  intro a b left right below above
  obtain ⟨r, listed, rfl⟩ := List.mem_map.mp ((perm_sort _).mem_iff.mp left)
  obtain ⟨r', listed', rfl⟩ := List.mem_map.mp ((perm_sort _).mem_iff.mp right)
  exact scan_distinct run r (permuted.mem_iff.mp listed) r' listed' (le_antisymm below above)

end

end Consent.Offline
