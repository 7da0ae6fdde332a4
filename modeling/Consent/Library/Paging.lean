import Mathlib

/-!
Keyset pagination over rows that change between the pages. A page holds the least keys above
the position that the sweep has reached, up to a bound that stays fixed. Whatever happens to
the rows, the keys of a sweep ascend, and a key that is there on every page is listed.
-/
namespace Paging

variable {α : Type} [LinearOrder α]

/-- The keys above `last` and up to `upper`, in order. -/
def range (rows : List α) (last upper : α) : List α :=
  (rows.filter fun a => decide (last < a) && decide (a ≤ upper)).mergeSort fun a b => decide (a ≤ b)

theorem mem_range {rows : List α} {last upper a : α} :
    a ∈ range rows last upper ↔ a ∈ rows ∧ last < a ∧ a ≤ upper := by
  simp [range]

theorem range_ascending {rows : List α} (distinct : rows.Nodup) (last upper : α) :
    (range rows last upper).Pairwise (· < ·) := by
  have sorted : (range rows last upper).Pairwise (· ≤ ·) :=
    (@List.pairwise_mergeSort _ (fun a b : α => decide (a ≤ b))
      (fun a b c => by simpa using le_trans) (fun a b => by simpa using le_total a b) _).imp
      fun le => of_decide_eq_true le
  have unlike : (range rows last upper).Pairwise (· ≠ ·) :=
    (List.mergeSort_perm _ _).nodup_iff.mpr (distinct.filter _)
  exact sorted.imp₂ (fun _ _ le ne => lt_of_le_of_ne le ne) unlike

/-- At most `limit` of the keys above `last`; `more` tells that keys are left. -/
structure IsPage (limit : Nat) (last upper : α) (rows page : List α) (more : Prop) : Prop where
  ascending : page.Pairwise (· < ·)
  listed : ∀ a ∈ page, a ∈ rows ∧ last < a ∧ a ≤ upper
  complete : ∀ a ∈ rows, last < a → a ≤ upper → a ∈ page ∨ more ∧ ∀ b ∈ page, b < a
  full : more → page.length = limit
  left : more → ∃ b ∈ rows, last < b ∧ b ≤ upper ∧ ∀ a ∈ page, a < b

theorem isPage_take {limit : Nat} {rows : List α} (distinct : rows.Nodup) (last upper : α) :
    IsPage limit last upper rows ((range rows last upper).take limit)
      (limit < (range rows last upper).length) := by
  have ascending := range_ascending distinct last upper
  refine ⟨ascending.sublist (List.take_sublist _ _),
    fun a member => mem_range.mp (List.mem_of_mem_take member), fun a stored above below => ?_,
    fun more => by rw [List.length_take]; omega, fun more => ?_⟩
  swap
  · rw [← List.take_append_drop limit (range rows last upper), List.pairwise_append] at ascending
    obtain ⟨b, member⟩ := List.exists_mem_of_length_pos (l := (range rows last upper).drop limit)
      (by rw [List.length_drop]; omega)
    obtain ⟨stored, above, below⟩ := mem_range.mp (List.mem_of_mem_drop member)
    exact ⟨b, stored, above, below, fun a earlier => ascending.2.2 a earlier b member⟩
  have member : a ∈ (range rows last upper).take limit ++ (range rows last upper).drop limit := by
    rw [List.take_append_drop]
    exact mem_range.mpr ⟨stored, above, below⟩
  rcases List.mem_append.mp member with first | rest
  · exact .inl first
  · refine .inr ⟨?_, fun b earlier => ?_⟩
    · have left := List.length_pos_of_mem rest
      rw [List.length_drop] at left
      omega
    · rw [← List.take_append_drop limit (range rows last upper)] at ascending
      exact (List.pairwise_append.mp ascending).2.2 b earlier a rest

/-- The last key of a page, or the position before it. -/
def advance (last : α) (page : List α) : α := page.getLast?.getD last

theorem le_advance {last a : α} {page : List α} (ascending : page.Pairwise (· < ·))
    (member : a ∈ page) : a ≤ advance last page := by
  rcases List.eq_nil_or_concat page with rfl | ⟨front, b, rfl⟩
  · cases member
  · rw [List.concat_eq_append] at ascending member ⊢
    rw [advance, List.getLast?_concat, Option.getD_some]
    rcases List.mem_append.mp member with early | late
    · exact ((List.pairwise_append.mp ascending).2.2 a early b (by simp)).le
    · exact (List.mem_singleton.mp late).le

omit [LinearOrder α] in
theorem advance_cases (last : α) (page : List α) :
    page = [] ∧ advance last page = last ∨ advance last page ∈ page := by
  rcases List.eq_nil_or_concat page with rfl | ⟨front, b, rfl⟩
  · exact .inl ⟨rfl, rfl⟩
  · rw [List.concat_eq_append, advance, List.getLast?_concat, Option.getD_some]
    exact .inr (by simp)

/-! ### Sweeps -/

/-- A page and the rows at its time. -/
structure Turn (α : Type) where
  rows : List α
  page : List α
  more : Bool

def listed : List (Turn α) → List α
  | [] => []
  | t :: turns => listed turns ++ t.page

/-- The turns of a sweep, the latest one first, and the position that they reach. -/
inductive Sweep (limit : Nat) (first upper : α) : List (Turn α) → α → Prop
  | start : Sweep limit first upper [] first
  | turn {turns : List (Turn α)} {last : α} {t : Turn α} (sweep : Sweep limit first upper turns last)
      (unfinished : ∀ u ∈ turns, u.more = true)
      (page : IsPage limit last upper t.rows t.page (t.more = true)) :
      Sweep limit first upper (t :: turns) (advance last t.page)

section
variable {limit : Nat} {first upper last : α} {turns : List (Turn α)}

theorem IsPage.le_advance {rows page : List α} {more : Prop} (h : IsPage limit last upper rows page more) :
    last ≤ advance last page := by
  rcases advance_cases last page with ⟨_, same⟩ | member
  · exact same.ge
  · exact (h.listed _ member).2.1.le

theorem IsPage.advance_lt {rows page : List α} {more : Prop} (h : IsPage limit last upper rows page more)
    (holds : more) : advance last page < upper := by
  obtain ⟨b, _, above, below, beyond⟩ := h.left holds
  rcases advance_cases last page with ⟨_, same⟩ | member
  · rw [same]
    exact above.trans_le below
  · exact (beyond _ member).trans_le below

omit [LinearOrder α] in
theorem mem_listed {a : α} : a ∈ listed turns ↔ ∃ t ∈ turns, a ∈ t.page := by
  induction turns with
  | nil => simp [listed]
  | cons t turns ih =>
    rw [listed, List.mem_append, ih]
    simp [or_comm]

/-- What was listed lies before the position. -/
theorem Sweep.within (h : Sweep limit first upper turns last) :
    first ≤ last ∧ ∀ a ∈ listed turns, first < a ∧ a ≤ last := by
  induction h with
  | start =>
    refine ⟨le_refl _, fun a member => ?_⟩
    cases member
  | turn _ _ page ih =>
    refine ⟨ih.1.trans page.le_advance, fun a member => ?_⟩
    rcases List.mem_append.mp member with old | new
    · exact ⟨(ih.2 a old).1, (ih.2 a old).2.trans page.le_advance⟩
    · exact ⟨ih.1.trans_lt (page.listed a new).2.1, Paging.le_advance page.ascending new⟩

theorem Sweep.ascending (h : Sweep limit first upper turns last) :
    (listed turns).Pairwise (· < ·) := by
  induction h with
  | start => exact .nil
  | turn earlier _ page ih =>
    refine List.pairwise_append.mpr ⟨ih, page.ascending, fun a old b new => ?_⟩
    exact ((earlier.within.2 a old).2).trans_lt (page.listed b new).2.1

/-- A key that is there on every page was listed, or lies ahead. -/
theorem Sweep.reaches (h : Sweep limit first upper turns last) {a : α} (above : first < a)
    (below : a ≤ upper) (stays : ∀ t ∈ turns, a ∈ t.rows) :
    a ∈ listed turns ∨ last < a ∧ ∀ t ∈ turns, t.more = true := by
  induction h with
  | start => exact .inr ⟨above, by simp⟩
  | @turn turns last t _ unfinished page ih =>
    rcases ih fun u member => stays u (List.mem_cons_of_mem _ member) with old | ⟨ahead, more⟩
    · exact .inl (List.mem_append_left _ old)
    · rcases page.complete a (stays t List.mem_cons_self) ahead below with new | ⟨left, beyond⟩
      · exact .inl (List.mem_append_right _ new)
      · refine .inr ⟨?_, List.forall_mem_cons.mpr ⟨left, more⟩⟩
        rcases advance_cases last t.page with ⟨_, same⟩ | member
        · rw [same]
          exact ahead
        · exact beyond _ member

omit [LinearOrder α] in
theorem length_listed (full : ∀ t ∈ turns, t.page.length = limit) :
    (listed turns).length = limit * turns.length := by
  induction turns with
  | nil => rfl
  | cons t turns ih =>
    rw [listed, List.length_append, ih fun u member => full u (List.mem_cons_of_mem _ member),
      full t List.mem_cons_self, List.length_cons, Nat.mul_succ]

theorem Sweep.page (h : Sweep limit first upper turns last) {t : Turn α} (member : t ∈ turns) :
    ∃ position, IsPage limit position upper t.rows t.page (t.more = true) := by
  induction h with
  | start => cases member
  | turn _ _ page ih =>
    rcases List.mem_cons.mp member with rfl | member
    · exact ⟨_, page⟩
    · exact ih member

omit [LinearOrder α] in
theorem listed_append (later turns : List (Turn α)) :
    listed (later ++ turns) = listed turns ++ listed later := by
  induction later with
  | nil => simp [listed]
  | cons u later ih => rw [List.cons_append, listed, ih, listed, List.append_assoc]

/-- All pages but the latest are full: if from some page on no key appears, those that were
there bound the number of pages. -/
theorem Sweep.bounded {t : Turn α} {later earlier : List (Turn α)}
    (h : Sweep limit first upper (later ++ t :: earlier) last)
    (dwindles : ∀ u ∈ later, ∀ a ∈ u.rows, a ∈ t.rows) : limit * later.length ≤ t.rows.length := by
  have pages : ∀ u ∈ later ++ [t], ∃ position, IsPage limit position upper u.rows u.page (u.more = true) := by
    intro u member
    refine h.page ?_
    rw [List.append_cons]
    exact List.mem_append_left _ member
  have kept : listed (later ++ [t]) ⊆ t.rows := by
    intro a member
    obtain ⟨u, turn, page⟩ := mem_listed.mp member
    obtain ⟨_, isPage⟩ := pages u turn
    have stored := (isPage.listed a page).1
    rcases List.mem_append.mp turn with late | here
    · exact dwindles u late a stored
    · exact List.mem_singleton.mp here ▸ stored
  have distinct : (listed (later ++ [t])).Nodup := by
    have all := h.ascending
    rw [List.append_cons, listed_append] at all
    exact (List.pairwise_append.mp all).2.1.imp fun less => less.ne
  have count : limit * later.length ≤ (listed (later ++ [t])).length := by
    cases later with
    | nil => simp
    | cons u later =>
      cases h with
      | turn _ unfinished _ =>
        have full : ∀ v ∈ later ++ [t], v.page.length = limit := by
          intro v member
          obtain ⟨_, isPage⟩ := pages v (List.mem_cons_of_mem _ member)
          refine isPage.full (unfinished v ?_)
          rw [List.append_eq, List.append_cons]
          exact List.mem_append_left _ member
        rw [List.cons_append, listed, List.length_append, length_listed full]
        simp
  exact count.trans (distinct.subperm kept).length_le

end

end Paging
