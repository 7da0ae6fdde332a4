import Consent.Library.Act

/-!
Loops that add up what their items contribute and stop at the first item that is refused or
that exceeds a limit.

The state of such a loop is seen through `view`, as a total in a commutative monoid. A part of
a total within the limits is within them as well, so it makes no difference that they are
checked after each item: the loop ends normally exactly if no item is refused and the whole is
within the limits. Nothing that `view` shows depends on the order of the items.
-/
namespace Tally

variable {α ρ S M : Type}

/-- What each turn keeps, a loop that ends normally keeps. -/
theorem invariant {turn : S → α → Except ρ S} {items : List α} {s t : S} {I : S → Prop} (start : I s)
    (keeps : ∀ a ∈ items, ∀ s s', I s → turn s a = .ok s' → I s')
    (run : items.foldlM turn s = .ok t) : I t := by
  induction items generalizing s with
  | nil =>
    cases run
    exact start
  | cons a rest ih =>
    rw [List.foldlM_cons] at run
    obtain ⟨s', first, run⟩ := Except.of_bind_ok run
    exact ih (keeps a List.mem_cons_self s s' start first)
      (fun b member => keeps b (List.mem_cons_of_mem _ member)) run

variable [AddCommMonoid M]

/-- Each turn adds the worth of its item, which is `⊤` for one that is refused. -/
structure Counts (view : S → M) (within : M → Prop) (worth : α → WithTop M)
    (turn : S → α → Except ρ S) : Prop where
  lower : ∀ x y, within (x + y) → within x
  adds : ∀ s a s', within (view s) → turn s a = .ok s' →
    (view s' : WithTop M) = view s + worth a ∧ within (view s')
  accepts : ∀ s a (x : M), worth a = (x : WithTop M) → within (view s + x) → ∃ s', turn s a = .ok s'

namespace Counts

variable {view : S → M} {within : M → Prop} {worth : α → WithTop M} {turn : S → α → Except ρ S}
  {items items' : List α} {s t : S}

theorem total (h : Counts view within worth turn) (start : within (view s))
    (run : items.foldlM turn s = .ok t) :
    (view t : WithTop M) = view s + (items.map worth).sum ∧ within (view t) := by
  induction items generalizing s with
  | nil =>
    cases run
    simpa using start
  | cons a rest ih =>
    rw [List.foldlM_cons] at run
    obtain ⟨s', first, run⟩ := Except.of_bind_ok run
    obtain ⟨added, fits⟩ := h.adds s a s' start first
    obtain ⟨whole, final⟩ := ih fits run
    refine ⟨?_, final⟩
    rw [whole, added, List.map_cons, List.sum_cons, add_assoc]

theorem completes (h : Counts view within worth turn) (start : within (view s)) {x : M}
    (sum : (items.map worth).sum = (x : WithTop M)) (fits : within (view s + x)) :
    ∃ t, items.foldlM turn s = .ok t := by
  induction items generalizing s x with
  | nil => exact ⟨s, rfl⟩
  | cons a rest ih =>
    rw [List.map_cons, List.sum_cons] at sum
    obtain ⟨y, z, head, tail, rfl⟩ := WithTop.add_eq_coe.mp sum
    have within_head : within (view s + y) := h.lower _ z (by rw [add_assoc]; exact fits)
    obtain ⟨s', first⟩ := h.accepts s a y head.symm within_head
    obtain ⟨added, fits'⟩ := h.adds s a s' start first
    have here : view s' = view s + y := by
      rw [← head] at added
      exact_mod_cast added
    obtain ⟨t, run⟩ := ih fits' tail.symm (by rw [here, add_assoc]; exact fits)
    refine ⟨t, ?_⟩
    rw [List.foldlM_cons, first]
    exact run

/-- The order of the items matters neither to the end of the loop nor to its total. -/
theorem perm (h : Counts view within worth turn) (start : within (view s))
    (order : items.Perm items') (run : items.foldlM turn s = .ok t) :
    ∃ t', items'.foldlM turn s = .ok t' ∧ view t' = view t := by
  obtain ⟨whole, fits⟩ := h.total start run
  have same : (items'.map worth).sum = (items.map worth).sum := ((order.map worth).sum_eq).symm
  rw [← same] at whole
  obtain ⟨x, y, start_eq, sum, total_eq⟩ := WithTop.add_eq_coe.mp whole.symm
  have began : x = view s := WithTop.coe_injective start_eq
  subst began
  obtain ⟨t', run'⟩ : ∃ t', items'.foldlM turn s = .ok t' :=
    h.completes start sum.symm (by rw [total_eq]; exact fits)
  refine ⟨t', run', WithTop.coe_injective ?_⟩
  rw [(h.total start run').1, whole]

end Counts

end Tally
