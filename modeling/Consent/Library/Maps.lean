import Mathlib

/-!
Maps that are filled in a loop.

A loop inserts the items of a list one after the other, so the last item of a key stays. When
the items come from another map and the keys are renamed injectively, what is found under a
key is what the other map had for it.
-/
namespace Maps

open Std (ExtTreeMap)

variable {ι α β κ ν : Type} {order : α → α → Ordering} [Std.TransCmp order] [Std.LawfulEqCmp order]
  {cmp : κ → κ → Ordering} [Std.TransCmp cmp] [Std.LawfulEqCmp cmp]

/-- Keys that no item has are left alone. -/
theorem getElem?_foldl_insert_of_ne {f : ι → κ} {g : ι → ν} {items : List ι} {k : κ}
    (other : ∀ i ∈ items, f i ≠ k) (m : ExtTreeMap κ ν cmp) :
    (items.foldl (fun m i => m.insert (f i) (g i)) m)[k]? = m[k]? := by
  induction items generalizing m with
  | nil => rfl
  | cons i items ih =>
    rw [List.foldl_cons, ih fun j member => other j (List.mem_cons_of_mem _ member),
      ExtTreeMap.getElem?_insert, if_neg]
    intro same
    exact other i List.mem_cons_self (Std.LawfulEqCmp.eq_of_compare same)

/-- An item whose key is its own is found. -/
theorem getElem?_foldl_insert_of_mem {f : ι → κ} {g : ι → ν} {items : List ι} {i : ι}
    (distinct : items.Pairwise fun i j => f i ≠ f j) (member : i ∈ items)
    (m : ExtTreeMap κ ν cmp) :
    (items.foldl (fun m i => m.insert (f i) (g i)) m)[f i]? = some (g i) := by
  induction items generalizing m with
  | nil => cases member
  | cons j items ih =>
    obtain ⟨apart, distinct⟩ := List.pairwise_cons.mp distinct
    rw [List.foldl_cons]
    rcases List.mem_cons.mp member with rfl | member
    · rw [getElem?_foldl_insert_of_ne fun j inside => (apart j inside).symm]
      exact ExtTreeMap.getElem?_insert_self
    · exact ih distinct member _

omit [Std.LawfulEqCmp cmp] in
/-- A loop over numbered items, each of which sets fields under its own number. -/
theorem getElem?_foldl_zipIdx (step : ExtTreeMap κ ν cmp → ι × Nat → ExtTreeMap κ ν cmp)
    (key : Nat → κ) (g : ι → Option ν)
    (each : ∀ m a i j, (step m (a, j))[key i]? = if i = j then (g a).or m[key i]? else m[key i]?)
    (items : List ι) (start : Nat) (m : ExtTreeMap κ ν cmp) (i : Nat) :
    ((items.zipIdx start).foldl step m)[key i]? =
      if start ≤ i then (items[i - start]?.bind g).or m[key i]? else m[key i]? := by
  induction items generalizing start m with
  | nil => simp
  | cons a items ih =>
    rw [List.zipIdx_cons, List.foldl_cons, ih, each]
    rcases lt_trichotomy i start with less | rfl | more
    · rw [if_neg (by omega), if_neg (by omega), if_neg (by omega)]
    · simp
    · obtain ⟨n, rfl⟩ := Nat.exists_eq_add_of_lt more
      rw [if_pos (by omega), if_neg (by omega), if_pos (by omega),
        show start + n + 1 - start = n + 1 by omega,
        show start + n + 1 - (start + 1) = n by omega, List.getElem?_cons_succ]

section
variable (source : ExtTreeMap α β order)

omit [Std.LawfulEqCmp order] in
theorem toList_keys_apart : source.toList.Pairwise fun p q => p.1 ≠ q.1 := by
  have keys : (source.toList.map Prod.fst).Nodup := by
    rw [ExtTreeMap.map_fst_toList_eq_keys]
    exact ExtTreeMap.nodup_keys
  exact List.pairwise_map.mp keys

variable {r : α → κ} (distinct : Function.Injective r) (convert : β → ν)
  (m : ExtTreeMap κ ν cmp)

include distinct in
/-- What is found under a renamed key. -/
theorem getElem?_foldl_rename (a : α) :
    (source.toList.foldl (fun m item => m.insert (r item.1) (convert item.2)) m)[r a]? =
      (source[a]?.map convert).or m[r a]? := by
  have apart : source.toList.Pairwise fun p q : α × β => r p.1 ≠ r q.1 :=
    (toList_keys_apart source).imp fun differ same => differ (distinct same)
  rcases stored : source[a]? with _ | b
  · refine getElem?_foldl_insert_of_ne (f := fun item : α × β => r item.1)
      (g := fun item : α × β => convert item.2) (fun item member same => ?_) m
    have found := ExtTreeMap.mem_toList_iff_getElem?_eq_some.mp member
    rw [distinct same, stored] at found
    cases found
  · exact getElem?_foldl_insert_of_mem (f := fun item : α × β => r item.1)
      (g := fun item : α × β => convert item.2) (i := (a, b)) apart
      (ExtTreeMap.mem_toList_iff_getElem?_eq_some.mpr stored) m

omit [Std.LawfulEqCmp order] in
/-- What is found under a key that is no renamed one. -/
theorem getElem?_foldl_rename_of_ne {k : κ} (other : ∀ a, r a ≠ k) :
    (source.toList.foldl (fun m item => m.insert (r item.1) (convert item.2)) m)[k]? = m[k]? :=
  getElem?_foldl_insert_of_ne (f := fun item : α × β => r item.1)
    (g := fun item : α × β => convert item.2) (fun item _ => other item.1) m

end

end Maps
