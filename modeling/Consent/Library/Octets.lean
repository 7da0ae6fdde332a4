import Mathlib

/-!
Readers over a borrowed buffer, and what they read.

A reader moves a cursor and may fail; it remembers how far it has ever looked, so that a
reader that stays inside the buffer can be told from one that does not. `Reads x R` says
that `x` accepts exactly the encodings described by `R`, a relation between values and
octets; relations compose as readers do, and no encoding extends another one.
-/
namespace Octets

/-- Octets from `size` on belong to somebody else. -/
structure Buffer where
  data : Nat → UInt8
  size : Nat

/-- Where the next octet is read, and one past the last octet that was ever read. -/
structure Cursor where
  position : Nat
  touched : Nat

def Buffer.rest (b : Buffer) (position : Nat) : List UInt8 :=
  (List.range' position (b.size - position)).map b.data

/-- The content of the buffer. -/
def Buffer.octets (b : Buffer) : List UInt8 := b.rest 0

/-- A buffer with this content and `beyond` behind it. -/
def Buffer.of (octets : List UInt8) (beyond : Nat → UInt8) : Buffer where
  data i := octets.getD i (beyond i)
  size := octets.length

def Reader (α : Type) := Buffer → Cursor → Option α × Cursor

variable {α β : Type}

instance : Monad Reader where
  pure a := fun _ c => (some a, c)
  bind x f := fun b c =>
    match x b c with
    | (some a, c') => f a b c'
    | (none, c') => (none, c')

def check (condition : Bool) : Reader Unit := fun _ c => (if condition then some () else none, c)

/-- At least `n` octets are left. -/
def remaining (n : Nat) : Reader Unit := fun b c =>
  (if c.position ≤ b.size ∧ n ≤ b.size - c.position then some () else none, c)

/-- There is room for `count` items of at least `minimum` octets. -/
def enough (count minimum : Nat) : Reader Unit := fun b c =>
  (if c.position ≤ b.size ∧ count ≤ (b.size - c.position) / minimum then some () else none, c)

theorem enough_eq (count : Nat) {minimum : Nat} (positive : 0 < minimum) :
    enough count minimum = remaining (count * minimum) := by
  funext b c
  simp only [enough, remaining, Nat.le_div_iff_mul_le positive]

/-- The next `n` octets, wherever they are. -/
def fetch (n : Nat) : Reader (List UInt8) := fun b c =>
  (some ((List.range' c.position n).map b.data), ⟨c.position + n, max c.touched (c.position + n)⟩)

/-- The next `n` octets, if there are so many. -/
def take (n : Nat) : Reader (List UInt8) := do
  remaining n
  fetch n

/-- `n` values in a row. -/
def replicate (x : Reader α) : Nat → Reader (List α)
  | 0 => pure []
  | n + 1 => do
    let a ← x
    let rest ← replicate x n
    pure (a :: rest)

theorem bind_eq (x : Reader α) (f : α → Reader β) (b : Buffer) (c : Cursor) :
    (x >>= f) b c = match x b c with
      | (some a, c') => f a b c'
      | (none, c') => (none, c') := rfl

theorem of_bind {x : Reader α} {f : α → Reader β} {b : Buffer} {c c' : Cursor} {r : β}
    (h : (x >>= f) b c = (some r, c')) : ∃ a d, x b c = (some a, d) ∧ f a b d = (some r, c') := by
  rw [bind_eq] at h
  rcases run : x b c with ⟨_ | a, d⟩
  · rw [run] at h
    cases h
  · rw [run] at h
    exact ⟨a, d, rfl, h⟩

theorem bind_of {x : Reader α} {f : α → Reader β} {b : Buffer} {c d : Cursor} {a : α}
    (h : x b c = (some a, d)) : (x >>= f) b c = f a b d := by
  rw [bind_eq, h]

/-! ### Staying inside the buffer -/

/-- Whatever comes of it, the reader looks at no octet behind the buffer. -/
def Safe (x : Reader α) : Prop := ∀ b c, c.touched ≤ b.size → (x b c).2.touched ≤ b.size

theorem Safe.pure (a : α) : Safe (pure a : Reader α) := fun _ _ inside => inside

theorem Safe.bind {x : Reader α} {f : α → Reader β} (h : Safe x) (k : ∀ a, Safe (f a)) :
    Safe (x >>= f) := by
  intro b c inside
  have first := h b c inside
  rw [bind_eq]
  rcases run : x b c with ⟨_ | a, d⟩
  · rw [run] at first
    exact first
  · rw [run] at first
    exact k a b d first

theorem Safe.check (condition : Bool) : Safe (check condition) := fun _ _ inside => inside

theorem Safe.take (n : Nat) : Safe (take n) := by
  intro b c inside
  unfold Octets.take
  rw [bind_eq, Octets.remaining]
  split
  · rename_i c' enough
    simp only [Prod.mk.injEq] at enough
    obtain ⟨enough, rfl⟩ := enough
    split at enough
    · simp only [fetch]
      omega
    · cases enough
  · rename_i c' _
    simp_all

theorem Safe.replicate {x : Reader α} (h : Safe x) (n : Nat) : Safe (replicate x n) := by
  induction n with
  | zero => exact .pure []
  | succ n ih => exact h.bind fun a => ih.bind fun rest => .pure (a :: rest)

/-! ### What is read -/

@[simp] theorem rest_self (b : Buffer) : b.rest b.size = [] := by simp [Buffer.rest]

theorem length_rest (b : Buffer) (position : Nat) : (b.rest position).length = b.size - position := by
  simp [Buffer.rest]

theorem rest_split (b : Buffer) {position n : Nat} (enough : position + n ≤ b.size) :
    b.rest position = (List.range' position n).map b.data ++ b.rest (position + n) := by
  unfold Buffer.rest
  rw [← List.map_append, List.range'_append_1]
  congr 2
  omega

@[simp] theorem octets_of (octets : List UInt8) (beyond : Nat → UInt8) :
    (Buffer.of octets beyond).octets = octets := by
  apply List.ext_getElem
  · simp [Buffer.octets, length_rest, Buffer.of]
  · intro i _ inside
    simp [Buffer.octets, Buffer.rest, Buffer.of, inside]

/-- The reader accepts exactly the encodings `R`. -/
structure Reads (x : Reader α) (R : α → List UInt8 → Prop) : Prop where
  returns : ∀ {b c a d}, c.position ≤ b.size → x b c = (some a, d) →
    ∃ l, R a l ∧ b.rest c.position = l ++ b.rest d.position ∧ d.position ≤ b.size
  accepts : ∀ {b c a l m}, c.position ≤ b.size → R a l → b.rest c.position = l ++ m →
    ∃ d, x b c = (some a, d) ∧ b.rest d.position = m ∧ d.position ≤ b.size

namespace Reads

variable {x : Reader α} {R : α → List UInt8 → Prop}

theorem pure (a : α) : Reads (pure a : Reader α) fun r l => r = a ∧ l = [] where
  returns inside run := by
    cases run
    exact ⟨[], ⟨rfl, rfl⟩, rfl, inside⟩
  accepts := by
    rintro b c r l m inside ⟨rfl, rfl⟩ here
    exact ⟨c, rfl, here, inside⟩

theorem bind {f : α → Reader β} {S : α → β → List UInt8 → Prop} (h : Reads x R)
    (k : ∀ a, Reads (f a) (S a)) :
    Reads (x >>= f) fun r l => ∃ a l₁ l₂, R a l₁ ∧ S a r l₂ ∧ l = l₁ ++ l₂ where
  returns inside run := by
    obtain ⟨a, d, first, second⟩ := of_bind run
    obtain ⟨l₁, holds₁, split₁, inside₁⟩ := h.returns inside first
    obtain ⟨l₂, holds₂, split₂, inside₂⟩ := (k a).returns inside₁ second
    refine ⟨l₁ ++ l₂, ⟨a, l₁, l₂, holds₁, holds₂, rfl⟩, ?_, inside₂⟩
    rw [split₁, split₂, List.append_assoc]
  accepts := by
    rintro b c r l m inside ⟨a, l₁, l₂, holds₁, holds₂, rfl⟩ here
    rw [List.append_assoc] at here
    obtain ⟨d, first, rest, inside₁⟩ := h.accepts inside holds₁ here
    obtain ⟨d', second, rest', inside₂⟩ := (k a).accepts inside₁ holds₂ rest
    exact ⟨d', (bind_of first).trans second, rest', inside₂⟩

theorem mono {S : α → List UInt8 → Prop} (h : Reads x R) (same : ∀ a l, R a l ↔ S a l) :
    Reads x S where
  returns inside run := by
    obtain ⟨l, holds, found⟩ := h.returns inside run
    exact ⟨l, (same _ l).mp holds, found⟩
  accepts inside holds := h.accepts inside ((same _ _).mpr holds)

theorem check (condition : Bool) : Reads (check condition) fun _ l => condition = true ∧ l = [] where
  returns inside run := by
    unfold Octets.check at run
    split at run
    · cases run
      exact ⟨[], ⟨‹_›, rfl⟩, rfl, inside⟩
    · cases run
  accepts := by
    rintro b c r l m inside ⟨holds, rfl⟩ here
    exact ⟨c, by simp [Octets.check, holds], here, inside⟩

theorem take (n : Nat) : Reads (take n) fun bytes l => l = bytes ∧ l.length = n where
  returns inside run := by
    obtain ⟨_, d, first, second⟩ := of_bind run
    unfold remaining at first
    split at first
    · rename_i enough
      cases first
      cases second
      refine ⟨_, ⟨rfl, by simp⟩, ?_, ?_⟩
      · exact rest_split _ (by omega)
      · dsimp only
        omega
    · cases first
  accepts := by
    rintro b c r l m inside ⟨rfl, rfl⟩ here
    have room : l.length ≤ b.size - c.position := by
      rw [← length_rest, here, List.length_append]
      omega
    rw [rest_split b (n := l.length) (by omega)] at here
    obtain ⟨found, left⟩ := List.append_inj here (by simp)
    refine ⟨⟨c.position + l.length, max c.touched (c.position + l.length)⟩, ?_, left, by
      dsimp only
      omega⟩
    unfold Octets.take
    rw [bind_of (d := c) (a := ()) (by simp [remaining, inside, room]), fetch, found]

/-- An early check for room changes nothing where the encodings are long enough. -/
theorem room {n : Nat} (h : Reads x R) (long : ∀ a l, R a l → n ≤ l.length) :
    Reads (remaining n >>= fun _ => x) R where
  returns inside run := by
    obtain ⟨_, d, first, second⟩ := of_bind run
    unfold remaining at first
    split at first
    · cases first
      exact h.returns inside second
    · cases first
  accepts := by
    intro b c a l m inside holds here
    have enough : n ≤ b.size - c.position := by
      have whole := length_rest b c.position
      rw [here, List.length_append] at whole
      have := long a l holds
      omega
    rw [bind_of (d := c) (a := ()) (by simp [remaining, inside, enough])]
    exact h.accepts inside holds here

theorem replicate {write : α → List UInt8} {valid : α → Prop}
    (h : Reads x fun a l => l = write a ∧ valid a) (n : Nat) :
    Reads (replicate x n) fun as l => l = as.flatMap write ∧ (∀ a ∈ as, valid a) ∧ as.length = n := by
  induction n with
  | zero =>
    refine (Reads.pure []).mono fun as l => ?_
    constructor
    · rintro ⟨rfl, rfl⟩
      simp
    · rintro ⟨rfl, _, empty⟩
      simp [List.length_eq_zero_iff.mp empty]
  | succ n ih =>
    refine (h.bind fun a => ih.bind fun rest => Reads.pure (a :: rest)).mono fun as l => ?_
    constructor
    · rintro ⟨a, _, _, ⟨rfl, first⟩, ⟨rest, _, _, ⟨rfl, others, rfl⟩, ⟨rfl, rfl⟩, rfl⟩, rfl⟩
      simp only [List.append_nil, List.flatMap_cons, List.mem_cons, forall_eq_or_imp, List.length_cons,
        and_true, true_and]
      exact ⟨first, others⟩
    · rintro ⟨rfl, all, length⟩
      cases as with
      | nil => simp at length
      | cons a rest =>
        simp only [List.mem_cons, forall_eq_or_imp] at all
        exact ⟨a, write a, rest.flatMap write, ⟨rfl, all.1⟩,
          ⟨rest, _, [], ⟨rfl, all.2, by simpa using length⟩, ⟨rfl, rfl⟩, by simp⟩, by simp⟩

/-- The value of an encoding is known, and no encoding extends another one. -/
theorem unique (h : Reads x R) {a a' : α} {l l' m m' : List UInt8} (left : R a l) (right : R a' l')
    (same : l ++ m = l' ++ m') : a = a' ∧ l = l' := by
  let b := Buffer.of (l ++ m) fun _ => 0
  have start : b.rest 0 = l ++ m := octets_of _ _
  obtain ⟨d, run, rest, _⟩ := h.accepts (b := b) (c := ⟨0, 0⟩) (Nat.zero_le _) left start
  obtain ⟨d', run', rest', _⟩ :=
    h.accepts (b := b) (c := ⟨0, 0⟩) (Nat.zero_le _) right (start.trans same)
  rw [run] at run'
  obtain ⟨found, rfl⟩ := Prod.mk.inj run'
  refine ⟨Option.some.inj found, ?_⟩
  rw [← rest, ← rest'] at same
  exact List.append_cancel_right same

end Reads

/-! ### Numbers -/

/-- The last `n` octets of a number, the highest one first. -/
def bigEndian : Nat → Nat → List UInt8
  | 0, _ => []
  | n + 1, value => bigEndian n (value / 256) ++ [UInt8.ofNat (value % 256)]

def value (octets : List UInt8) : Nat := octets.foldl (fun total o => total * 256 + o.toNat) 0

@[simp] theorem length_bigEndian (n number : Nat) : (bigEndian n number).length = n := by
  induction n generalizing number with
  | zero => rfl
  | succ n ih => simp [bigEndian, ih]

theorem value_append (octets : List UInt8) (o : UInt8) :
    value (octets ++ [o]) = value octets * 256 + o.toNat := by
  simp [value]

theorem value_bigEndian {n number : Nat} (fits : number < 256 ^ n) :
    value (bigEndian n number) = number := by
  induction n generalizing number with
  | zero => simpa [bigEndian, value, eq_comm] using fits
  | succ n ih =>
    have last : (UInt8.ofNat (number % 256)).toNat = number % 256 := by simp
    rw [bigEndian, value_append, ih (by rw [pow_succ] at fits; omega), last]
    omega

theorem bigEndian_value (octets : List UInt8) :
    bigEndian octets.length (value octets) = octets ∧ value octets < 256 ^ octets.length := by
  induction octets using List.reverseRecOn with
  | nil => simp [bigEndian, value]
  | append_singleton octets o ih =>
    obtain ⟨same, fits⟩ := ih
    have small := o.toNat_lt
    rw [value_append, List.length_append, List.length_singleton, bigEndian]
    refine ⟨?_, ?_⟩
    · rw [show (value octets * 256 + o.toNat) / 256 = value octets by omega, same,
        show (value octets * 256 + o.toNat) % 256 = o.toNat by omega]
      simp
    · rw [pow_succ]
      omega

/-- A number of `n` octets. -/
def number (n : Nat) : Reader Nat := do
  let octets ← take n
  pure (value octets)

theorem Reads.number (n : Nat) :
    Reads (number n) fun v l => l = bigEndian n v ∧ v < 256 ^ n := by
  refine ((Reads.take n).bind fun octets => Reads.pure (value octets)).mono fun v l => ?_
  constructor
  · rintro ⟨_, octets, _, ⟨rfl, rfl⟩, ⟨rfl, rfl⟩, rfl⟩
    rw [List.append_nil]
    exact ⟨(bigEndian_value octets).1.symm, (bigEndian_value octets).2⟩
  · rintro ⟨rfl, fits⟩
    exact ⟨_, _, [], ⟨rfl, length_bigEndian n v⟩, ⟨(value_bigEndian fits).symm, rfl⟩, by simp⟩

theorem Safe.number (n : Nat) : Safe (number n) := (Safe.take n).bind fun octets => .pure (value octets)

/-! ### The octets of a text -/

theorem toList_loop (bytes : ByteArray) (n i : Nat) (r : List UInt8) (left : bytes.size - i = n) :
    ByteArray.toList.loop bytes i r = r.reverse ++ bytes.data.toList.drop i := by
  induction n generalizing i r with
  | zero =>
    rw [ByteArray.toList.loop.eq_1, if_neg (by omega), List.drop_eq_nil_of_le, List.append_nil]
    rw [Array.length_toList]
    exact Nat.le_of_sub_eq_zero left
  | succ n ih =>
    have below : i < bytes.size := by omega
    have here : bytes.get! i = bytes.data.toList[i] := by
      simp [ByteArray.get!, getElem!_pos bytes.data i below]
    rw [ByteArray.toList.loop.eq_1, if_pos below, ih (i + 1) _ (by omega), here, List.reverse_cons,
      List.append_assoc, List.singleton_append, List.getElem_cons_drop]

theorem toUTF8_injective {a b : String} (h : a.toUTF8.toList = b.toUTF8.toList) : a = b := by
  rw [ByteArray.toList, ByteArray.toList, toList_loop _ _ _ _ rfl, toList_loop _ _ _ _ rfl] at h
  refine String.toByteArray_inj.mp (ByteArray.ext (Array.toList_inj.mp ?_))
  simpa using h

end Octets
