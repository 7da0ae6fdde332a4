import Consent.Guarantees.Canonical
import Consent.Library.Paging
import Consent.Protocol.Envelopes
import Consent.Repository.Epochs
import Consent.Repository.Listing

/-!
One sweep over the pages of `cleanup_list` lists every artifact that awaits its deletion all
along exactly once, whatever happens between the pages.
-/
namespace Consent

/-! ### The cursor -/

namespace CleanupCursor
open Canonical (kIdentitySize kScopeSize hex)
open Wire (octets latin)

/-- A hexadecimal field of this length. -/
def hexField (value : List Char) (size : Nat) : Bool :=
  value.length == size && value.all fun c => asciiDigit c || ('a' ≤ c && c ≤ 'f')

theorem ascii_of_hexField {value : String} {size : Nat} (h : hexField value.toList size = true) :
    ∀ c ∈ value.toList, c.toNat < 128 := by
  intro c member
  simp only [hexField, Bool.and_eq_true, List.all_eq_true] at h
  have digit := h.2 c member
  simp only [asciiDigit, Bool.or_eq_true, Bool.and_eq_true, decide_eq_true_eq, Char.le_def,
    UInt32.le_iff_toNat_le] at digit
  change c.val.toNat < 128
  have nine : ('9' : Char).val.toNat = 57 := rfl
  have last : ('f' : Char).val.toNat = 102 := rfl
  omega

theorem hex_octets {value : String} {size : Nat} (h : hexField value.toList size = true) :
    hex (octets value) size = true := by
  have ascii := ascii_of_hexField h
  rw [RegistryText.octets_ascii ascii]
  simp only [hexField, hex, Bool.and_eq_true, beq_iff_eq, List.all_eq_true, List.length_map,
    List.mem_map, forall_exists_index, and_imp, forall_apply_eq_imp_iff₂] at h ⊢
  refine ⟨h.1, fun c member => ?_⟩
  have digit := h.2 c member
  have small := ascii c member
  simp only [asciiDigit, Bool.or_eq_true, Bool.and_eq_true, decide_eq_true_eq, Char.le_def,
    UInt32.le_iff_toNat_le, UInt8.le_iff_toNat_le, UInt8.toNat_ofNat'] at digit ⊢
  rw [Nat.mod_eq_of_lt (by omega)]
  exact digit

/-- The octets of hexadecimal fields are ordered as the fields are. -/
theorem octets_lt {a b : String} {size : Nat} (first : hexField a.toList size = true)
    (second : hexField b.toList size = true) (less : a < b) : octets a < octets b := by
  have small := ascii_of_hexField first
  have small' := ascii_of_hexField second
  rw [RegistryText.octets_ascii small, RegistryText.octets_ascii small']
  rw [String.lt_iff_toList_lt] at less
  generalize a.toList = l, b.toList = r at small small' less
  induction less with
  | nil => exact .nil
  | cons _ ih =>
    exact .cons (ih (fun c member => small c (.tail _ member)) fun c member => small' c (.tail _ member))
  | @rel c _ d _ less =>
    have bound := small c (.head _)
    have bound' := small' d (.head _)
    refine .rel ?_
    rw [UInt8.lt_iff_toNat_lt, UInt8.toNat_ofNat', UInt8.toNat_ofNat', Nat.mod_eq_of_lt (by omega),
      Nat.mod_eq_of_lt (by omega)]
    exact less

/-- A position that a reply may return. -/
structure Valid (cursor : CleanupCursor) : Prop where
  incarnation : hexField cursor.incarnation.toList kIdentitySize = true
  scope : hexField cursor.scope.toList kScopeSize = true
  last : hexField cursor.last.toList kIdentitySize = true
  upper : hexField cursor.upper.toList kIdentitySize = true
  ascending : cursor.last < cursor.upper

theorem parse_encode {cursor : CleanupCursor} (valid : cursor.Valid) :
    parse cursor.encode = some cursor := by
  have text : octets cursor.encode = Canonical.Cursor.encode ⟨octets cursor.incarnation,
      octets cursor.scope, octets cursor.last, octets cursor.upper⟩ := by
    have separator : String.utf8EncodeChar ':' = [Canonical.colon] := by decide
    simp [encode, Canonical.Cursor.encode, Wire.octets_eq, separator]
  have read := (Canonical.parse_iff _ _).mpr ⟨⟨hex_octets valid.incarnation, hex_octets valid.scope,
    hex_octets valid.last, hex_octets valid.upper⟩,
    octets_lt valid.last valid.upper valid.ascending, text⟩
  have same : ∀ {value : String} {size : Nat}, hexField value.toList size = true →
      latin (octets value) = value := fun h => RegistryText.latin_octets (ascii_of_hexField h)
  rw [parse, read, Option.map_some, same valid.incarnation, same valid.scope, same valid.last,
    same valid.upper]

theorem encode_ne (cursor : CleanupCursor) : cursor.encode ≠ "" := by
  intro empty
  have text := congrArg String.toList empty
  simp [encode] at text

end CleanupCursor

namespace Repository
open Profile
open Act (Returns)

variable {σ ε : Type} [Host σ ε]

/-! ### The scope of a caller -/

structure Scope where
  identity : String
  «instance» : String
  subject : String
  profile : String
  reconcile : Bool
  deriving DecidableEq, Repr

def Scope.text (s : Scope) : String :=
  cleanupScopeInput s.identity s.instance s.subject s.profile s.reconcile

theorem Scope.octets_text (s : Scope) : Wire.octets s.text = Canonical.scopeInput
    ⟨Wire.octets s.identity, Wire.octets s.instance, Wire.octets s.subject, Wire.octets s.profile,
      s.reconcile⟩ := by
  have separator : String.utf8EncodeChar ':' = [RegistryText.colon] := by decide
  have size : ∀ value : String,
      (value.toList.flatMap String.utf8EncodeChar).length = value.utf8ByteSize := fun value => by
    rw [← Wire.octets_eq, Wire.length_octets]
  cases flag : s.reconcile <;>
    simp [text, cleanupScopeInput, appendTo, Canonical.scopeInput, RegistryText.part, Wire.octets_eq,
      separator, size, flag]

theorem Scope.text_injective : Function.Injective Scope.text := by
  intro s t same
  have inputs := congrArg Wire.octets same
  rw [octets_text, octets_text] at inputs
  have fields := Canonical.scopeInput_injective inputs
  simp only [Canonical.Context.mk.injEq] at fields
  obtain ⟨identity, «instance», subject, profile, reconcile⟩ := fields
  cases s
  cases t
  simp only [Scope.mk.injEq]
  exact ⟨Wire.octets_inj identity, Wire.octets_inj «instance», Wire.octets_inj subject,
    Wire.octets_inj profile, reconcile⟩

/-- The scope of a call. -/
def scopeOf (peer : Peer) (request : Message) (reconcile : Bool) : Scope :=
  ⟨peer.identity, peer.instance, request.get "subject", request.get "profile", reconcile⟩

/-- The artifacts of the scope that await their deletion. -/
def Scope.awaiting (s : Scope) (d : Database) : List Artifact :=
  d.artifacts.filter fun a =>
    decide (a.holder = s.identity) &&
      (decide (a.instance = s.instance) || s.reconcile) &&
      decide (a.state = .cleanupPending ∨ a.state = .cleanupFailed) &&
      (d.findSession a.session).any fun session =>
        decide (session.subject = s.subject) && decide (session.profile = s.profile)

theorem awaiting_scopeOf (d : Database) (peer : Peer) (request : Message) (reconcile : Bool) :
    (scopeOf peer request reconcile).awaiting d = cleanupRows d peer request reconcile := rfl

theorem maximumId_spec (rows : List Artifact) :
    (∀ a ∈ rows, a.id ≤ maximumId rows) ∧
      (maximumId rows = "" ∨ ∃ a ∈ rows, a.id = maximumId rows) := by
  have fold : ∀ (rows : List Artifact) (upper : String),
      upper ≤ rows.foldl (fun upper a => if upper < a.id then a.id else upper) upper ∧
      (∀ a ∈ rows, a.id ≤ rows.foldl (fun upper a => if upper < a.id then a.id else upper) upper) ∧
      (rows.foldl (fun upper a => if upper < a.id then a.id else upper) upper = upper ∨
        ∃ a ∈ rows, a.id = rows.foldl (fun upper a => if upper < a.id then a.id else upper) upper) := by
    intro rows
    induction rows with
    | nil => simp
    | cons a rows ih =>
      intro upper
      obtain ⟨grows, bounds, attained⟩ := ih (if upper < a.id then a.id else upper)
      have step : upper ≤ (if upper < a.id then a.id else upper) ∧
          a.id ≤ (if upper < a.id then a.id else upper) := by
        split
        · rename_i less
          exact ⟨less.le, le_refl _⟩
        · rename_i notLess
          exact ⟨le_refl _, not_lt.mp notLess⟩
      refine ⟨step.1.trans grows, List.forall_mem_cons.mpr ⟨step.2.trans grows, bounds⟩, ?_⟩
      rw [List.foldl_cons]
      rcases attained with same | ⟨b, member, same⟩
      · rw [same]
        split
        · exact .inr ⟨a, List.mem_cons_self, rfl⟩
        · exact .inl rfl
      · exact .inr ⟨b, List.mem_cons_of_mem _ member, same⟩
  exact ⟨(fold rows "").2.1, (fold rows "").2.2⟩

/-! ### One page -/

def entryKey (i : Nat) (name : String) : String := "a" ++ toString i ++ "." ++ name

/-- The artifacts that a reply lists. -/
def listedIn (reply : Message) : List String :=
  (List.range (reply.number "count" 0).toNat).map fun i => reply.get (entryKey i "artifact")

theorem entryKey_toList (i : Nat) (name : String) :
    (entryKey i name).toList = 'a' :: ((toString i).toList ++ '.' :: name.toList) := by
  simp [entryKey]

theorem entryKey_inj {i j : Nat} {a b : String} : entryKey i a = entryKey j b ↔ i = j ∧ a = b := by
  constructor
  · intro same
    have lists := congrArg String.toList same
    rw [entryKey_toList, entryKey_toList, List.cons.injEq] at lists
    obtain ⟨indices, names⟩ := Codes.number_unique (by decide) lists.2
    exact ⟨indices, String.toList_inj.mp names⟩
  · rintro ⟨rfl, rfl⟩
    rfl

/-- The fields of a reply by which a sweep goes on. -/
structure Shows (reply : Message) (page : List Artifact) (next : String) : Prop where
  count : reply["count"]? = some (toString page.length)
  entries : ∀ i (inside : i < page.length), reply[entryKey i "artifact"]? = some (page[i]).id
  next : reply["next_cursor"]? = some next

theorem Shows.insertAll {reply : Message} {page : List Artifact} {next : String}
    (h : Shows reply page next) (metadata : Message) : Shows (reply.insertAll metadata) page next where
  count := by rw [Message.getElem?_insertAll, h.count, Option.some_or]
  entries i inside := by rw [Message.getElem?_insertAll, h.entries i inside, Option.some_or]
  next := by rw [Message.getElem?_insertAll, h.next, Option.some_or]

theorem Shows.listed {reply : Message} {page : List Artifact} {next : String}
    (h : Shows reply page next) (few : page.length ≤ 48) : listedIn reply = page.map (·.id) := by
  have count : reply.number "count" 0 = page.length := by
    rw [Message.number, Message.get_eq, h.count, Option.getD_some,
      Wire.parseNumber_toString_nat (by omega), Option.getD_some]
  rw [listedIn, count, Int.toNat_natCast]
  refine List.ext_getElem (by simp) fun i inside _ => ?_
  have here : i < page.length := by simpa using inside
  simp [Message.get_eq, h.entries i here]

theorem Shows.get_next {reply : Message} {page : List Artifact} {next : String}
    (h : Shows reply page next) : reply.get "next_cursor" = next := by
  rw [Message.get_eq, h.next, Option.getD_some]

theorem getElem?_cleanupEntry (reply : Message) (a : Artifact) (i j : Nat) :
    (cleanupEntry reply (a, j))[entryKey i "artifact"]? =
      if i = j then some a.id else reply[entryKey i "artifact"]? := by
  have step : ∀ (m : Message) (name value : String), name ≠ "artifact" →
      (m.insert (entryKey j name) value)[entryKey i "artifact"]? = m[entryKey i "artifact"]? := by
    intro m name value other
    rw [Std.ExtTreeMap.getElem?_insert, if_neg]
    rw [Std.LawfulEqCmp.compare_eq_iff_eq, entryKey_inj]
    exact fun same => other same.2
  have unfolded : cleanupEntry reply (a, j) =
      (((reply.insert (entryKey j "artifact") a.id).insert (entryKey j "session") a.session).insert
        (entryKey j "state") a.state.name).insert (entryKey j "error") a.cleanupError := rfl
  rw [unfolded, step _ _ _ (by decide), step _ _ _ (by decide), step _ _ _ (by decide),
    Std.ExtTreeMap.getElem?_insert]
  simp only [Std.LawfulEqCmp.compare_eq_iff_eq, entryKey_inj, and_true, @eq_comm _ j i]

/-- The reply of `cleanup_list` to a call at a position. -/
def pageReply (rows : List Artifact) (cursor : CleanupCursor) : Message :=
  let page := rows.take 48
  let last := (page.getLast?.map (·.id)).getD cursor.last
  (((page.zipIdx.foldl cleanupEntry ∅).insert "count" (toString page.length)).insert "more"
    (if 48 < rows.length then "1" else "0")).insert "next_cursor"
      (if 48 < rows.length then { cursor with last }.encode else "")

theorem pageReply_shows (rows : List Artifact) (cursor : CleanupCursor) :
    Shows (pageReply rows cursor) (rows.take 48) (if 48 < rows.length then
      { cursor with last := Paging.advance cursor.last ((rows.take 48).map Artifact.id) }.encode else "") := by
  have apart : ∀ (i : Nat) (other : String), '.' ∉ other.toList → entryKey i "artifact" ≠ other := by
    rintro i _ plain rfl
    exact plain (by simp [entryKey_toList])
  have skip : ∀ (m : Message) (key other value : String), key ≠ other →
      (m.insert other value)[key]? = m[key]? := by
    intro m key other value ne
    rw [Std.ExtTreeMap.getElem?_insert, if_neg]
    rw [Std.LawfulEqCmp.compare_eq_iff_eq]
    exact Ne.symm ne
  refine ⟨?_, fun i inside => ?_, ?_⟩
  · rw [pageReply]
    rw [skip _ _ _ _ (by decide), skip _ _ _ _ (by decide), Std.ExtTreeMap.getElem?_insert_self]
  · rw [pageReply]
    rw [skip _ _ _ _ (apart i _ (by decide)), skip _ _ _ _ (apart i _ (by decide)),
      skip _ _ _ _ (apart i _ (by decide)), Maps.getElem?_foldl_zipIdx cleanupEntry
        (entryKey · "artifact") (fun a => some a.id) getElem?_cleanupEntry]
    simp [List.getElem?_eq_getElem inside]
  · rw [pageReply]
    rw [Std.ExtTreeMap.getElem?_insert_self, Paging.advance, List.getLast?_map]

/-- The rows of a page: those behind the position, in order. -/
def inRange (rows : List Artifact) (cursor : CleanupCursor) : List Artifact :=
  (rows.filter fun a => decide (cursor.last < a.id) && decide (a.id ≤ cursor.upper)).mergeSort
    fun a b => decide (a.id ≤ b.id)

theorem inRange_ids (rows : List Artifact) (cursor : CleanupCursor) :
    (inRange rows cursor).map Artifact.id = Paging.range (rows.map Artifact.id) cursor.last cursor.upper := by
  rw [inRange, Paging.range, List.filter_map]
  exact List.map_mergeSort fun a _ b _ => rfl

section
variable {c : Context ε} {lo hi : Progress σ ε} {d : Database} {peer : Peer} {request : Message}
  {incarnation : String}

theorem cleanupList_returns {outcome : Outcome}
    (h : Returns c lo (cleanupList d peer request incarnation) outcome hi) :
    ∃ cursor, Returns c lo (cleanupCursor d peer request (request.getD "reconcile" "0" == "1")
        incarnation) cursor hi ∧
      outcome.commit = .plain ∧ outcome.reply = pageReply (inRange
        (cleanupRows d peer request (request.getD "reconcile" "0" == "1")) cursor) cursor := by
  obtain ⟨_, h⟩ := h.skip
  obtain ⟨_, h⟩ := h.guard
  obtain ⟨cursor, found, h⟩ := h.bind
  obtain rfl := h.of_pure
  exact ⟨cursor, found, rfl, rfl⟩

/-- The first page starts below all ids and fixes the bound. -/
theorem cleanupCursor_first {reconcile : Bool} {cursor : CleanupCursor}
    (h : Returns c lo (cleanupCursor d peer request reconcile incarnation) cursor hi)
    (first : request.get "cursor" = "") :
    cursor = ⟨incarnation, c.platform.hash (scopeOf peer request reconcile).text, "",
      maximumId (cleanupRows d peer request reconcile)⟩ := by
  obtain ⟨scope, hashed, h⟩ := h.bind
  dsimp only at h
  rw [if_pos first] at h
  rw [← h.of_pure, hash_returns hashed]
  rfl

/-- A later page continues from the position that it is given. -/
theorem cleanupCursor_next {reconcile : Bool} {cursor result : CleanupCursor}
    (valid : cursor.Valid) (named : request.get "cursor" = cursor.encode)
    (h : Returns c lo (cleanupCursor d peer request reconcile incarnation) result hi) :
    result = cursor ∧ cursor.incarnation = incarnation ∧
      cursor.scope = c.platform.hash (scopeOf peer request reconcile).text := by
  obtain ⟨scope, hashed, h⟩ := h.bind
  dsimp only at h
  rw [named, if_neg cursor.encode_ne, CleanupCursor.parse_encode valid] at h
  obtain ⟨same, h⟩ := h.guard
  obtain ⟨own, h⟩ := h.guard
  exact ⟨h.of_pure.symm, same, own.trans (hash_returns hashed)⟩

/-- A position that was returned is accepted in its scope and incarnation, and only there. -/
theorem cleanupCursor_accepts {reconcile : Bool} {cursor : CleanupCursor} {q : Progress σ ε}
    (valid : cursor.Valid) (named : request.get "cursor" = cursor.encode) :
    (∃ result q', (cleanupCursor d peer request reconcile incarnation).run c q = (.ok result, q')) ↔
      cursor.incarnation = incarnation ∧
        cursor.scope = c.platform.hash (scopeOf peer request reconcile).text := by
  constructor
  · rintro ⟨result, q', run⟩
    exact (cleanupCursor_next valid named ⟨q, q', le_refl _, run, le_refl _⟩).2
  · rintro ⟨same, own⟩
    refine ⟨cursor, q, ?_⟩
    unfold cleanupCursor
    rw [Act.run_bind]
    dsimp only [hash]
    rw [named, if_neg cursor.encode_ne, CleanupCursor.parse_encode valid]
    have here : cursor.scope = c.platform.hash (cleanupScopeInput peer.identity peer.instance
      (request.get "subject") (request.get "profile") reconcile) := own
    simp only [Act.run_bind, run_require, if_pos same, if_pos here, Act.run_pure]

end

/-! ### One call -/

/-- A call and the world in which it is made. -/
structure PageCall (σ ε : Type) where
  before : World σ ε
  peer : Peer
  request : Message
  environment : Environment ε

namespace PageCall

variable (P : Platform) (call : PageCall σ ε)

def step : Step σ := .execute call.peer call.request

def reply : Message := (call.step.run P call.environment call.before).1.fields

def answered : Prop := (call.step.run P call.environment call.before).1.status = none

def after : World σ ε := (call.step.run P call.environment call.before).2

/-- The world in which the list is read: that behind the checks of every operation. -/
def reading : World σ ε :=
  ((prepare call.peer).run ⟨P, call.environment⟩ (call.step.enter call.before)).2

def tables : Database := (call.reading P).members.tables

def incarnation : String := (call.reading P).members.expected.incarnation

def next : String := (call.reply P).get "next_cursor"

/-- A page of the list of the scope, from a position on. -/
structure Lists (s : Scope) (cursor : String) : Prop where
  method : call.request.get "method" = "cleanup_list"
  scope : scopeOf call.peer call.request (call.request.getD "reconcile" "0" == "1") = s
  cursor : call.request.get "cursor" = cursor

end PageCall

theorem dispatch_cleanup_list {peer : Peer} {request : Message}
    (method : request.get "method" = "cleanup_list") : (dispatch peer request : Process σ ε Message) =
      members >>= fun m => perform (.data peer request m.expected.incarnation) := by
  have starting : starts "cleanup_list" "session_" = false := by decide
  simp [dispatch, method, starting]

theorem data_cleanup_list {c : Context ε} {lo hi : Progress σ ε} {d : Database} {peer : Peer}
    {request : Message} {incarnation : String} {outcome : Outcome}
    (method : request.get "method" = "cleanup_list")
    (h : Returns c lo (Repository.data d peer request incarnation) outcome hi) :
    Returns c lo (cleanupList d peer request incarnation) outcome hi := by
  obtain ⟨_, h⟩ := h.guard
  obtain ⟨_, _, h⟩ := h.bind
  obtain ⟨_, h⟩ := h.skip
  rw [method, if_pos rfl] at h
  exact h

/-- What a page shows, and where it was read. -/
structure Page (P : Platform) (call : PageCall σ ε) (s : Scope) (cursor : CleanupCursor) : Prop where
  sound : ∃ n, n ≤ (call.after P).progress.nextId ∧ Sound P n (call.tables P)
  incarnation : P.Drawn 0 (call.after P).progress.nextId (call.incarnation P)
  returned : ∃ lo hi : Progress σ ε, Returns ⟨P, call.environment⟩ lo
    (cleanupCursor (call.tables P) call.peer call.request s.reconcile (call.incarnation P)) cursor hi
  shows : Shows (call.reply P) ((inRange (s.awaiting (call.tables P)) cursor).take 48)
    (if 48 < (inRange (s.awaiting (call.tables P)) cursor).length then { cursor with
      last := Paging.advance cursor.last
        (((inRange (s.awaiting (call.tables P)) cursor).take 48).map Artifact.id) }.encode else "")

theorem le_of_run {α : Type} {c : Context ε} {x : Process σ ε α} {u v : World σ ε}
    {result : Except Failure α} (run : x.run c u = (result, v)) : u ≤ v := by
  have grown := x.grows c u
  rw [run] at grown
  exact grown

/-- The reply to a list is what the list found, and the metadata of the snapshot. -/
theorem executeChecked_cleanup_list {c : Context ε} {w v : World σ ε} {peer : Peer}
    {request fields : Message} (method : request.get "method" = "cleanup_list")
    (run : (executeChecked peer request).run c w = (.ok fields, v)) :
    ∃ prior u result metadata, (prepare peer).run c w = (.ok prior, u) ∧ u ≤ v ∧
      (∃ t, (dispatch peer request).run c u = (.ok result, t)) ∧ fields = result.insertAll metadata := by
  obtain ⟨⟨epoch, generation⟩, u, prepared, run⟩ := Act.of_run_bind run
  have grown : u ≤ v := le_of_run run
  obtain ⟨result, t, dispatched, run⟩ := Act.of_run_bind run
  obtain ⟨_, _, _, run⟩ := Act.of_run_bind run
  rw [run_members_bind] at run
  obtain ⟨_, _, _, run⟩ := Act.of_run_bind run
  obtain ⟨_, _, _, run⟩ := Act.of_run_bind run
  obtain ⟨metadata, _, _, run⟩ := Act.of_run_bind run
  obtain ⟨_, _, _, run⟩ := Act.of_run_bind run
  obtain ⟨stamped, _, checked, run⟩ := Act.of_run_bind run
  have plain : sensitive request result = false := by simp [sensitive, method]
  unfold checkProfile at checked
  rw [plain, if_neg (by decide)] at checked
  obtain rfl := (of_run_query checked).1.of_pure
  cases run
  exact ⟨_, u, result, metadata, prepared, grown, ⟨t, dispatched⟩, rfl⟩

theorem dispatch_cleanup_list_replies {c : Context ε} {u t : World σ ε} {peer : Peer}
    {request result : Message} (method : request.get "method" = "cleanup_list")
    (run : (dispatch peer request).run c u = (.ok result, t)) :
    ∃ (outcome : Outcome) (q : Progress σ ε), result = outcome.reply ∧
      Returns c u.progress (cleanupList u.members.tables peer request u.members.expected.incarnation)
        outcome q := by
  rw [dispatch_cleanup_list method, run_members_bind, perform_run] at run
  rcases worked : ((Call.data peer request u.members.expected.incarnation).work u.members.tables).run c
    u.progress with ⟨e | outcome, q⟩
  · rw [worked] at run
    cases run
  · rw [worked] at run
    have returned := data_cleanup_list method ⟨u.progress, q, le_refl _, worked, le_refl _⟩
    refine ⟨outcome, q, ?_, returned⟩
    obtain ⟨_, _, commit, _⟩ := cleanupList_returns returned
    dsimp only [conclude] at run
    rw [commit] at run
    obtain ⟨_, _, _, run⟩ := Act.of_run_bind run
    obtain ⟨_, _, _, run⟩ := Act.of_run_bind run
    cases run
    rfl

theorem PageCall.page {P : Platform} {call : PageCall σ ε} {s : Scope} {text : String}
    (attained : Attained P call.before) (lists : call.Lists s text) (answered : call.answered P) :
    ∃ cursor, Page P call s cursor := by
  obtain ⟨before, peer, request, environment⟩ := call
  obtain ⟨method, rfl, rfl⟩ := lists
  obtain ⟨runs, recorded, rest⟩ := attained.runs
  have rested : Rest ((Step.execute peer request : Step σ).enter before).view :=
    (Step.execute peer request : Step σ).enter_entered rest
  rcases ran : (execute peer request).run ⟨P, environment⟩
    ((Step.execute peer request).enter before) with ⟨e | reply, v⟩
  · simp only [PageCall.answered, PageCall.step, Step.run, Step.act, ran, replyOr] at answered
    cases answered
  have whole : (Step.execute peer request).run P environment before = (reply, v) := by
    simp only [Step.run, Step.act, ran, replyOr]
  have succeeds : reply.status = none := by
    simpa only [PageCall.answered, PageCall.step, whole] using answered
  obtain ⟨prior, u, result, metadata, prepared, grown, ⟨t, dispatched⟩, fields⟩ :=
    executeChecked_cleanup_list method (execute_replies ran succeeds)
  obtain ⟨outcome, q, rfl, returned⟩ := dispatch_cleanup_list_replies method dispatched
  obtain ⟨here, _, clear⟩ := (runs.enter _).conducts (K := fun _ _ => False) rfl (prepare_clear peer)
    rested prepared
  obtain ⟨cursor, found, _, replied⟩ := cleanupList_returns returned
  have reading : PageCall.reading P ⟨before, peer, request, environment⟩ = u := by
    simp only [PageCall.reading, PageCall.step, prepared]
  have after : PageCall.after P ⟨before, peer, request, environment⟩ = v := by
    simp only [PageCall.after, PageCall.step, whole]
  refine ⟨cursor, ?_, ?_, ?_, ?_⟩
  · obtain ⟨n, below, run⟩ := here.chronicled.run
    rw [after, PageCall.tables, reading]
    exact ⟨n, below.trans grown.ids, Commits.sound run⟩
  · rw [after, PageCall.incarnation, reading]
    obtain ⟨_, _, same, named⟩ := clear
    rw [show u.members.expected.incarnation = u.members.tables.incarnation from same.symm]
    exact (here.recorded.tables.resolve_left named).mono (le_refl _) grown.ids
  · rw [PageCall.tables, PageCall.incarnation, reading]
    exact ⟨_, _, found⟩
  · rw [PageCall.reply, PageCall.step, whole, PageCall.tables, reading]
    dsimp only
    rw [fields, replied, awaiting_scopeOf]
    exact (pageReply_shows _ _).insertAll _

/-! ### Sweeps -/

/-- The ids issued so far have the width of `Id()`. -/
def Platform.Wide (P : Platform) (n : Nat) : Prop :=
  ∀ id, P.Drawn 0 n id → CleanupCursor.hexField id.toList Canonical.kIdentitySize = true

/-- The pages of a sweep, the latest one first. Between two of them the repository does
anything, restarts included. -/
inductive Sweep (P : Platform) (s : Scope) : List (PageCall σ ε) → Prop
  | first {call : PageCall σ ε} (attained : Attained P call.before) (lists : call.Lists s "")
      (answered : call.answered P) : Sweep P s [call]
  | next {call last : PageCall σ ε} {calls : List (PageCall σ ε)} (sweep : Sweep P s (last :: calls))
      (more : last.next P ≠ "") (later : Continues P (fun _ _ => True) (last.after P) call.before)
      (lists : call.Lists s (last.next P)) (answered : call.answered P) :
      Sweep P s (call :: last :: calls)

/-- All that a sweep lists, in order. -/
def swept (P : Platform) : List (PageCall σ ε) → List String
  | [] => []
  | call :: calls => swept P calls ++ listedIn (call.reply P)

/-- A call as a turn of a pagination. -/
def PageCall.turn (P : Platform) (s : Scope) (call : PageCall σ ε) : Paging.Turn String where
  rows := (s.awaiting (call.tables P)).map Artifact.id
  page := listedIn (call.reply P)
  more := call.next P != ""

theorem swept_eq (P : Platform) (s : Scope) (calls : List (PageCall σ ε)) :
    swept P calls = Paging.listed (calls.map (PageCall.turn P s)) := by
  induction calls with
  | nil => rfl
  | cons call calls ih =>
    rw [swept, ih]
    rfl

section
variable {P : Platform} {s : Scope} {call : PageCall σ ε} {cursor : CleanupCursor}

theorem Page.next_eq (h : Page P call s cursor) : call.next P =
    if 48 < (inRange (s.awaiting (call.tables P)) cursor).length then { cursor with
      last := Paging.advance cursor.last
        (((inRange (s.awaiting (call.tables P)) cursor).take 48).map Artifact.id) }.encode else "" :=
  h.shows.get_next

/-- A page with room for all is the last one. -/
theorem PageCall.next_of_few {text : String} (attained : Attained P call.before)
    (lists : call.Lists s text) (answered : call.answered P)
    (few : (s.awaiting (call.tables P)).length ≤ 48) : call.next P = "" := by
  obtain ⟨cursor, page⟩ := PageCall.page attained lists answered
  rw [page.next_eq, if_neg]
  rw [inRange, List.length_mergeSort]
  exact Nat.not_lt.mpr ((List.length_filter_le _ _).trans few)

theorem Page.listed (h : Page P call s cursor) : (call.turn P s).page =
    (Paging.range (call.turn P s).rows cursor.last cursor.upper).take 48 := by
  rw [PageCall.turn, h.shows.listed (by rw [List.length_take]; omega), List.map_take, inRange_ids]

theorem Page.more (h : Page P call s cursor) : ((call.turn P s).more = true) =
    (48 < (Paging.range (call.turn P s).rows cursor.last cursor.upper).length) := by
  have length := congrArg List.length (inRange_ids (s.awaiting (call.tables P)) cursor)
  rw [List.length_map] at length
  dsimp only [PageCall.turn]
  rw [← length, h.next_eq]
  split
  · rename_i more
    simp [more, CleanupCursor.encode_ne]
  · rename_i last
    simp [last]

theorem Page.isPage (h : Page P call s cursor) : Paging.IsPage 48 cursor.last cursor.upper
    (call.turn P s).rows (call.turn P s).page ((call.turn P s).more = true) := by
  obtain ⟨n, _, sound⟩ := h.sound
  rw [h.listed, h.more]
  exact Paging.isPage_take (sound.keyed.artifacts.sublist (List.filter_sublist.map _)) _ _

theorem Page.wide (h : Page P call s cursor) (wide : P.Wide (call.after P).progress.nextId)
    {id : String} (member : id ∈ (call.turn P s).rows) :
    "" < id ∧ CleanupCursor.hexField id.toList Canonical.kIdentitySize = true := by
  obtain ⟨n, below, sound⟩ := h.sound
  obtain ⟨a, awaiting, rfl⟩ := List.mem_map.mp member
  have drawn := (sound.known.artifacts a (List.mem_filter.mp awaiting).1).mono (le_refl _) below
  refine ⟨?_, wide _ drawn⟩
  obtain ⟨k, _, _, same⟩ := drawn
  rw [same, String.lt_iff]
  rcases text : (P.ids.id k).toList with _ | ⟨first, rest⟩
  · exact absurd (String.toList_eq_nil_iff.mp text) (P.ids.nonempty k)
  · exact List.nil_lt_cons _ _

/-- The position behind a page that is not the last one. -/
theorem Page.advances (h : Page P call s cursor) (wide : P.Wide (call.after P).progress.nextId)
    (more : call.next P ≠ "") :
    call.next P = { cursor with last := Paging.advance cursor.last (call.turn P s).page }.encode ∧
      CleanupCursor.hexField (Paging.advance cursor.last (call.turn P s).page).toList
        Canonical.kIdentitySize = true ∧
      Paging.advance cursor.last (call.turn P s).page < cursor.upper := by
  have holds : (call.turn P s).more = true := by simpa [PageCall.turn] using more
  refine ⟨?_, ?_, h.isPage.advance_lt holds⟩
  · have eq := h.next_eq
    split at eq
    · rw [eq, h.listed, List.map_take, inRange_ids]
      rfl
    · exact absurd eq more
  · rcases Paging.advance_cases cursor.last (call.turn P s).page with ⟨empty, _⟩ | member
    · have full := h.isPage.full holds
      rw [empty] at full
      cases full
    · exact (h.wide wide (h.isPage.listed _ member).1).2

/-- Where a sweep stands behind its latest page. -/
structure Reached (P : Platform) (s : Scope) (call : PageCall σ ε) (calls : List (PageCall σ ε))
    (cursor : CleanupCursor) : Prop where
  sweep : Paging.Sweep 48 "" cursor.upper ((call :: calls).map (PageCall.turn P s)) cursor.last
  bound : ∃ first ∈ call :: calls, ∀ a ∈ s.awaiting (first.tables P), a.id ≤ cursor.upper
  named : ∀ each ∈ call :: calls, ∀ id ∈ (each.turn P s).rows, "" < id
  unfinished : ∀ earlier ∈ calls, earlier.next P ≠ ""
  incarnation : cursor.incarnation = call.incarnation P
  scope : cursor.scope = P.hash s.text
  next : call.next P ≠ "" → call.next P = cursor.encode ∧ cursor.Valid

variable {calls : List (PageCall σ ε)}

theorem Sweep.attained (h : Sweep P s (call :: calls)) : Attained P call.before := by
  generalize all : call :: calls = turns at h
  induction h generalizing call calls with
  | first attained _ _ =>
    cases all
    exact attained
  | @next _ last _ sweep _ later _ _ ih =>
    cases all
    refine Attained.continues ?_ later
    exact .step (last.step) last.environment (ih rfl)

omit [Host σ ε] in
theorem reconcile_of_lists {text : String} (lists : call.Lists s text) :
    scopeOf call.peer call.request s.reconcile = s := by
  obtain ⟨_, rfl, _⟩ := lists
  rfl

theorem Reached.first (digest : CleanupCursor.hexField (P.hash s.text).toList Canonical.kScopeSize = true)
    (attained : Attained P call.before) (lists : call.Lists s "") (answered : call.answered P)
    (wide : P.Wide (call.after P).progress.nextId) : ∃ cursor, Reached P s call [] cursor := by
  obtain ⟨cursor, page⟩ := PageCall.page attained lists answered
  obtain ⟨lo, hi, returned⟩ := page.returned
  have start := cleanupCursor_first returned lists.cursor
  rw [reconcile_of_lists lists, ← awaiting_scopeOf, reconcile_of_lists lists] at start
  have bounds := maximumId_spec (s.awaiting (call.tables P))
  have first : cursor.last = "" := by rw [start]
  have upper : cursor.upper = maximumId (s.awaiting (call.tables P)) := by rw [start]
  have own : cursor.incarnation = call.incarnation P := by rw [start]
  have scope : cursor.scope = P.hash s.text := by rw [start]
  clear start
  refine ⟨{ cursor with last := Paging.advance cursor.last (call.turn P s).page }, ?_, ?_, ?_, ?_, own,
    scope, fun more => ?_⟩
  · dsimp only
    refine .turn (t := call.turn P s) ?_ ?_ page.isPage
    · rw [first]
      exact .start
    · intro turn member
      cases member
  · refine ⟨call, List.mem_cons_self, ?_⟩
    dsimp only
    rw [upper]
    exact bounds.1
  · intro each member id stored
    rw [List.mem_singleton.mp member] at stored
    exact (page.wide wide stored).1
  · intro earlier member
    cases member
  · obtain ⟨encoded, hex, less⟩ := page.advances wide more
    obtain ⟨b, stored, above, below, _⟩ := page.isPage.left (by simpa [PageCall.turn] using more)
    have inside : maximumId (s.awaiting (call.tables P)) ∈ (call.turn P s).rows := by
      rcases bounds.2 with none | ⟨a, awaiting, same⟩
      · rw [upper, none] at below
        rw [first] at above
        exact absurd (above.trans_le below) (lt_irrefl _)
      · rw [← same]
        exact List.mem_map_of_mem awaiting
    refine ⟨encoded, ?_, ?_, ?_, ?_, ?_⟩
    · dsimp only
      rw [own]
      exact wide _ page.incarnation
    · dsimp only
      rw [scope]
      exact digest
    · dsimp only
      exact hex
    · dsimp only
      rw [upper]
      exact (page.wide wide inside).2
    · dsimp only
      exact less

theorem Reached.next_page {last : PageCall σ ε} {cursor : CleanupCursor}
    (reached : Reached P s last calls cursor) (more : last.next P ≠ "")
    (attained : Attained P call.before) (lists : call.Lists s (last.next P)) (answered : call.answered P)
    (wide : P.Wide (call.after P).progress.nextId) :
    ∃ cursor, Reached P s call (last :: calls) cursor := by
  obtain ⟨encoded, valid⟩ := reached.next more
  obtain ⟨cursor', page⟩ := PageCall.page attained lists answered
  obtain ⟨lo, hi, returned⟩ := page.returned
  obtain ⟨rfl, same, _⟩ := cleanupCursor_next valid (lists.cursor.trans encoded) returned
  refine ⟨{ cursor' with last := Paging.advance cursor'.last (call.turn P s).page }, ?_, ?_, ?_, ?_, same,
    reached.scope, fun more => ?_⟩
  · dsimp only
    refine .turn (t := call.turn P s) reached.sweep ?_ page.isPage
    intro turn member
    obtain ⟨each, among, rfl⟩ := List.mem_map.mp member
    rcases List.mem_cons.mp among with rfl | among
    · simpa [PageCall.turn] using more
    · simpa [PageCall.turn] using reached.unfinished each among
  · obtain ⟨first, member, bounds⟩ := reached.bound
    exact ⟨first, List.mem_cons_of_mem _ member, bounds⟩
  · exact List.forall_mem_cons.mpr ⟨fun id stored => (page.wide wide stored).1, reached.named⟩
  · exact List.forall_mem_cons.mpr ⟨more, reached.unfinished⟩
  · obtain ⟨encoded, hex, less⟩ := page.advances wide more
    refine ⟨encoded, valid.incarnation, valid.scope, ?_, valid.upper, ?_⟩
    · dsimp only
      exact hex
    · dsimp only
      exact less

theorem Sweep.reached (digest : CleanupCursor.hexField (P.hash s.text).toList Canonical.kScopeSize = true)
    (h : Sweep P s (call :: calls))
    (wide : ∀ each ∈ call :: calls, P.Wide (each.after P).progress.nextId) :
    ∃ cursor, Reached P s call calls cursor := by
  generalize all : call :: calls = turns at h
  induction h generalizing call calls with
  | first attained lists answered =>
    cases all
    exact Reached.first digest attained lists answered (wide _ List.mem_cons_self)
  | @next _ last _ sweep more later lists answered ih =>
    cases all
    obtain ⟨cursor, reached⟩ := ih (fun each member => wide each (List.mem_cons_of_mem _ member)) rfl
    have attained := Attained.continues (.step last.step last.environment sweep.attained) later
    exact reached.next_page more attained lists answered (wide _ List.mem_cons_self)

/-- The position that a page of a sweep returns. -/
theorem Sweep.position (digest : CleanupCursor.hexField (P.hash s.text).toList Canonical.kScopeSize = true)
    (h : Sweep P s calls) (wide : ∀ each ∈ calls, P.Wide (each.after P).progress.nextId)
    (member : call ∈ calls) (more : call.next P ≠ "") :
    ∃ cursor : CleanupCursor, call.next P = cursor.encode ∧ cursor.Valid ∧
      cursor.incarnation = call.incarnation P ∧ cursor.scope = P.hash s.text := by
  have head : ∀ {call : PageCall σ ε} {calls : List (PageCall σ ε)}, Sweep P s (call :: calls) →
      (∀ each ∈ call :: calls, P.Wide (each.after P).progress.nextId) → call.next P ≠ "" →
      ∃ cursor : CleanupCursor, call.next P = cursor.encode ∧ cursor.Valid ∧
        cursor.incarnation = call.incarnation P ∧ cursor.scope = P.hash s.text := by
    intro call calls sweep wide more
    obtain ⟨cursor, reached⟩ := sweep.reached digest wide
    exact ⟨cursor, (reached.next more).1, (reached.next more).2, reached.incarnation, reached.scope⟩
  induction h with
  | first attained lists answered =>
    obtain rfl := List.mem_singleton.mp member
    exact head (.first attained lists answered) wide more
  | next sweep more' later lists answered ih =>
    rcases List.mem_cons.mp member with rfl | member
    · exact head (.next sweep more' later lists answered) wide more
    · exact ih (fun each among => wide each (List.mem_cons_of_mem _ among)) member

/-- One sweep over the list, with anything between its pages. The listed ids ascend; they
belong to artifacts of the scope that await their deletion; what awaits it on every page is
listed once when the sweep ends; the position that a page returns is accepted in its scope
and incarnation and nowhere else; and while nothing new becomes due, every page but the last
takes 48 artifacts off a fixed number. -/
theorem cleanup_sweep (sweep : Sweep P s (call :: calls))
    (wide : ∀ each ∈ call :: calls, P.Wide (each.after P).progress.nextId)
    (digest : CleanupCursor.hexField (P.hash s.text).toList Canonical.kScopeSize = true)
    (unique : ∀ text, P.hash text = P.hash s.text → text = s.text) :
    (swept P (call :: calls)).Pairwise (· < ·) ∧
    (∀ each ∈ call :: calls, ∀ id ∈ listedIn (each.reply P),
      ∃ a ∈ s.awaiting (each.tables P), a.id = id) ∧
    (call.next P = "" → ∀ id,
      (∀ each ∈ call :: calls, ∃ a ∈ s.awaiting (each.tables P), a.id = id) →
      (swept P (call :: calls)).count id = 1) ∧
    (∀ each ∈ call :: calls, each.next P ≠ "" →
      ∀ (c : Context ε) (q : Progress σ ε) (d : Database) (peer : Peer) (request : Message)
        (reconcile : Bool) (incarnation : String), c.platform = P →
        request.get "cursor" = each.next P →
        ((∃ cursor q', (cleanupCursor d peer request reconcile incarnation).run c q =
            (.ok cursor, q')) ↔
          scopeOf peer request reconcile = s ∧ incarnation = each.incarnation P)) ∧
    ∀ later each earlier, call :: calls = later ++ each :: earlier →
      (∀ other ∈ later, ∀ a ∈ s.awaiting (other.tables P),
        ∃ b ∈ s.awaiting (each.tables P), b.id = a.id) →
      48 * later.length ≤ (s.awaiting (each.tables P)).length := by
  obtain ⟨cursor, reached⟩ := sweep.reached digest wide
  have ascending : (swept P (call :: calls)).Pairwise (· < ·) := by
    rw [swept_eq P s]
    exact reached.sweep.ascending
  refine ⟨ascending, fun each member id listed => ?_, fun last id stays => ?_,
    fun each member more c q d peer request reconcile incarnation platform named => ?_,
    fun later each earlier split dwindles => ?_⟩
  · obtain ⟨_, page⟩ := reached.sweep.page (List.mem_map_of_mem (f := PageCall.turn P s) member)
    exact List.mem_map.mp (page.listed id listed).1
  · obtain ⟨first, member, bounds⟩ := reached.bound
    obtain ⟨a, awaiting, rfl⟩ := stays first member
    have nonempty : "" < a.id := reached.named first member _ (List.mem_map_of_mem awaiting)
    have there : ∀ turn ∈ (call :: calls).map (PageCall.turn P s), a.id ∈ turn.rows := by
      intro turn among
      obtain ⟨each, here, rfl⟩ := List.mem_map.mp among
      exact List.mem_map.mpr (stays each here)
    have distinct : (swept P (call :: calls)).Nodup := ascending.imp fun less => ne_of_lt less
    refine List.count_eq_one_of_mem distinct ?_
    rw [swept_eq P s]
    rcases reached.sweep.reaches nonempty (bounds a awaiting) there with listed | ⟨_, more⟩
    · exact listed
    · have unfinished := more (call.turn P s) (by simp)
      simp [PageCall.turn, last] at unfinished
  · obtain ⟨position, encoded, valid, own, scope⟩ := sweep.position digest wide member more
    rw [cleanupCursor_accepts valid (named.trans encoded), own, scope, platform]
    constructor
    · rintro ⟨same, digests⟩
      exact ⟨Scope.text_injective (unique _ digests.symm), same.symm⟩
    · rintro ⟨rfl, rfl⟩
      exact ⟨rfl, rfl⟩
  · have turns := reached.sweep
    rw [split, List.map_append, List.map_cons] at turns
    have bound := turns.bounded fun turn among id stored => ?_
    · simpa [PageCall.turn] using bound
    · obtain ⟨other, here, rfl⟩ := List.mem_map.mp among
      obtain ⟨a, awaiting, rfl⟩ := List.mem_map.mp stored
      exact List.mem_map.mpr (dwindles other here a awaiting)

end

/-! ### A sweep of the sample -/

namespace Sample

def holderScope : Scope := ⟨"cm", "1", "s", "p", false⟩

/-- Ids of 48 digits and digests of 64. -/
def widePlatform : Platform where
  ids :=
    { id := fun n => platform.ids.id (10 ^ 47 + n)
      number := fun text => (platform.ids.number text).bind fun n =>
        if 10 ^ 47 ≤ n then some (n - 10 ^ 47) else none
      numbered := fun text n => by
        simp only [Option.bind_eq_some_iff, platform.ids.numbered, Option.ite_none_right_eq_some,
          Option.some.injEq]
        constructor
        · rintro ⟨k, rfl, large, rfl⟩
          rw [Nat.add_sub_cancel' large]
        · rintro rfl
          exact ⟨_, rfl, Nat.le_add_right _ _, Nat.add_sub_cancel_left _ _⟩
      nonempty := fun n => platform.ids.nonempty (10 ^ 47 + n)
      hexadecimal := fun n => platform.ids.hexadecimal (10 ^ 47 + n) }
  hash text := String.ofList (List.replicate 64 (if text = holderScope.text then 'a' else 'b'))
  digest text empty := by simp [String.ext_iff] at empty

def wideId (n : Nat) : String := widePlatform.ids.id n

def wideSession : List (String × String) := context ++ [("session", wideId 4), ("generation", "1")]

def wideRequirement : List (String × String) :=
  wideSession ++ [("count", "1"), ("operation_id", "op"), ("step_id", "st"),
    (row 0 "definition", "loc"), (row 0 "scope", "x"), (row 0 "operation", "read"),
    (row 0 "purpose", "map"), (row 0 "recipient", "r"), (row 0 "holder", "cm")]

def wideUse : List (String × String) :=
  wideSession ++ [("scope", "x"), ("purpose", "map"), ("recipient", "r")]

/-- Data is registered and twice derived from, its approval is revoked, and one of the three
artifacts is deleted. -/
def wideSteps : List (Step ProfileState) :=
  [.restart ProfileState.initial false false,
    call "session_open" context,
    call "request" (("client_request_id", "c") :: wideRequirement),
    call "get_prompt" [("request_id", wideId 6), ("locale", "en")],
    call "respond" [("request_id", wideId 6), ("prompt_token", wideId 7), ("decision", "ALLOWED"),
      ("grant_mode", "ONCE")],
    call "check" (("mode", "AUTHORIZE") :: wideRequirement),
    call "data_register" (("receipt", wideId 9) :: wideUse),
    call "data_register_derived" (("count", "1") :: ("parent0", wideId 10) :: wideUse),
    call "data_register_derived" (("count", "1") :: ("parent0", wideId 11) :: wideUse),
    call "revoke" (("definition", "loc") :: context),
    call "cleanup_ack" [("artifact", wideId 11)]]

def wideWorld : World ProfileState ProfileStep :=
  wideSteps.foldl (fun w step => (step.run widePlatform (environment 1000) w).2)
    (World.start 1 (some registry) ProfileState.initial)

theorem wideWorld_reachable : Reachable widePlatform wideWorld :=
  List.foldlRecOn (motive := Reachable widePlatform) wideSteps _ (.start _ _ _) fun _ reached step _ =>
    .step step (environment 1000) reached

def listCall : PageCall ProfileState ProfileStep :=
  ⟨wideWorld, peer, Message.of (("method", "cleanup_list") :: context), environment 1000⟩

theorem listCall_lists : listCall.Lists holderScope "" :=
  ⟨by decide, by decide, by decide⟩

theorem listCall_attained : Attained widePlatform listCall.before := by
  dsimp only [listCall]
  exact wideWorld_reachable.attained

theorem listCall_finds :
    (listCall.step.run widePlatform listCall.environment listCall.before).1.status = none ∧
    (holderScope.awaiting (listCall.tables widePlatform)).map Artifact.id = [wideId 10, wideId 12] ∧
    (listCall.after widePlatform).progress.nextId ≤ 20 := by
  decide +kernel

theorem widePlatform_wide : widePlatform.Wide 20 := by
  have each : ∀ k < 20, CleanupCursor.hexField (widePlatform.ids.id k).toList
      Canonical.kIdentitySize = true := by decide
  rintro id ⟨k, _, below, rfl⟩
  exact each k below

theorem widePlatform_unique (text : String)
    (same : widePlatform.hash text = widePlatform.hash holderScope.text) : text = holderScope.text := by
  by_contra other
  simp [widePlatform, other] at same

end Sample

/-- Of the artifacts of the sample the two that are left are listed once each. -/
theorem cleanup_sweep_in_sample :
    ∃ call : PageCall ProfileState ProfileStep, call = Sample.listCall ∧
      call.next Sample.widePlatform = "" ∧
      ∀ id ∈ [Sample.wideId 10, Sample.wideId 12], (swept Sample.widePlatform [call]).count id = 1 := by
  obtain ⟨call, attained, lists, answered, awaits, few, same⟩ :
      ∃ call : PageCall ProfileState ProfileStep, Attained Sample.widePlatform call.before ∧
        call.Lists Sample.holderScope "" ∧ call.answered Sample.widePlatform ∧
        (Sample.holderScope.awaiting (call.tables Sample.widePlatform)).map Artifact.id =
          [Sample.wideId 10, Sample.wideId 12] ∧
        (call.after Sample.widePlatform).progress.nextId ≤ 20 ∧ call = Sample.listCall :=
    ⟨Sample.listCall, Sample.listCall_attained, Sample.listCall_lists, Sample.listCall_finds.1,
      Sample.listCall_finds.2.1, Sample.listCall_finds.2.2, rfl⟩
  have two := congrArg List.length awaits
  rw [List.length_map] at two
  have last := call.next_of_few attained lists answered (two.trans_le (by decide))
  have wide : ∀ each ∈ [call],
      Sample.widePlatform.Wide (each.after Sample.widePlatform).progress.nextId := by
    intro each member id drawn
    rw [List.mem_singleton.mp member] at drawn
    exact Sample.widePlatform_wide id (drawn.mono (le_refl _) few)
  have holds := cleanup_sweep (.first attained lists answered) wide (by decide)
    Sample.widePlatform_unique
  refine ⟨call, same, last, fun id listed => holds.2.2.1 last _ ?_⟩
  intro each member
  rw [List.mem_singleton.mp member]
  rw [← awaits] at listed
  exact List.mem_map.mp listed

end Repository

end Consent
