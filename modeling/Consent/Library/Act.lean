import Mathlib

/-!
Computations that read a context, move a state forward and may stop with an error.
The state reached before an error is kept, as the members of a C++ object are
after an exception. A computation carries the proof that its state only grows, so
whatever is built from growing steps grows without further argument.

`Returns` bounds the states of a run from both sides and forgets the rest of them:
the bounds of a whole run are bounds of each of its parts. `Spec` gives the steps that a
run is made of together with pre- and postconditions.
-/

/-- Both halves of a sequence succeed. -/
theorem Except.of_bind_ok {ε α β : Type} {x : Except ε α} {f : α → Except ε β} {b : β}
    (h : (x >>= f) = .ok b) : ∃ a, x = .ok a ∧ f a = .ok b := by
  cases x with
  | error e => cases h
  | ok a => exact ⟨a, rfl, h⟩

theorem Except.of_isOk {ε α : Type} {x : Except ε α} (h : x.isOk = true) : ∃ a, x = .ok a := by
  cases x with
  | error e => cases h
  | ok a => exact ⟨a, rfl⟩

/-- A check that does not stop has passed. -/
theorem Except.of_guard_ok {ε α : Type} {p : Prop} [Decidable p] {e : ε} {x : Except ε α} {a : α}
    (h : (if p then throw e else x) = .ok a) : ¬ p ∧ x = .ok a := by
  split at h
  · cases h
  · exact ⟨‹_›, h⟩

/-- A computation over a context `ρ` and a growing state `σ` that returns an `α`
or throws an `ε`; either way it leaves a state. -/
structure Act (ρ σ ε : Type) [Preorder σ] (α : Type) where
  run : ρ → σ → Except ε α × σ
  grows : ∀ r s, s ≤ (run r s).2

namespace Act

variable {ρ σ ε α β γ : Type} [Preorder σ]

def bind (x : Act ρ σ ε α) (f : α → Act ρ σ ε β) : Act ρ σ ε β where
  run r s :=
    match x.run r s with
    | (.ok a, t) => (f a).run r t
    | (.error e, t) => (.error e, t)
  grows r s := by
    have first := x.grows r s
    rcases run : x.run r s with ⟨e | a, t⟩
    · simpa [run] using first
    · rw [run] at first
      exact le_trans first ((f a).grows r t)

instance : Monad (Act ρ σ ε) where
  pure a := ⟨fun _ s => (.ok a, s), fun _ s => le_refl s⟩
  bind := bind

instance : MonadExceptOf ε (Act ρ σ ε) where
  throw e := ⟨fun _ s => (.error e, s), fun _ s => le_refl s⟩
  tryCatch x handler :=
    { run := fun r s =>
        match x.run r s with
        | (.ok a, t) => (.ok a, t)
        | (.error e, t) => (handler e).run r t
      grows := fun r s => by
        have first := x.grows r s
        rcases run : x.run r s with ⟨e | a, t⟩
        · rw [run] at first
          exact le_trans first ((handler e).grows r t)
        · simpa [run] using first }

instance : MonadReaderOf ρ (Act ρ σ ε) where
  read := ⟨fun r s => (.ok r, s), fun _ s => le_refl s⟩

instance : MonadLift (Except ε) (Act ρ σ ε) where
  monadLift x := ⟨fun _ s => (x, s), fun _ s => le_refl s⟩

/-- Stop with `e` unless the condition holds. -/
def require (condition : Prop) [Decidable condition] (e : ε) : Act ρ σ ε Unit :=
  if condition then pure () else throw e

/-- Run `x` only under the condition. -/
def when (condition : Prop) [Decidable condition] (x : Act ρ σ ε Unit) : Act ρ σ ε Unit :=
  if condition then x else pure ()

/-- The values of `f` on the items, in order. -/
def collect (f : α → Act ρ σ ε β) : List α → Act ρ σ ε (List β)
  | [] => pure []
  | item :: rest => do
    let value ← f item
    let values ← collect f rest
    pure (value :: values)

/-! ### Running -/

theorem run_bind (x : Act ρ σ ε α) (f : α → Act ρ σ ε β) (r : ρ) (s : σ) :
    (x >>= f).run r s =
      match x.run r s with
      | (.ok a, t) => (f a).run r t
      | (.error e, t) => (.error e, t) := rfl

/-- Both halves of a sequence that returns. -/
theorem of_run_bind {x : Act ρ σ ε α} {f : α → Act ρ σ ε β} {r : ρ} {s t : σ} {b : β}
    (h : (x >>= f).run r s = (.ok b, t)) :
    ∃ a u, x.run r s = (.ok a, u) ∧ (f a).run r u = (.ok b, t) := by
  rw [run_bind] at h
  rcases first : x.run r s with ⟨e | a, u⟩
  · simp [first] at h
  · rw [first] at h
    exact ⟨a, u, rfl, h⟩

theorem run_tryCatch (x : Act ρ σ ε α) (handler : ε → Act ρ σ ε α) (r : ρ) (s : σ) :
    (MonadExcept.tryCatch x handler).run r s =
      match x.run r s with
      | (.ok a, t) => (.ok a, t)
      | (.error e, t) => (handler e).run r t := rfl

@[simp] theorem run_pure (a : α) (r : ρ) (s : σ) :
    (pure a : Act ρ σ ε α).run r s = (.ok a, s) := rfl

@[simp] theorem run_throw (e : ε) (r : ρ) (s : σ) :
    (throw e : Act ρ σ ε α).run r s = (.error e, s) := rfl

@[simp] theorem run_lift (x : Except ε α) (r : ρ) (s : σ) :
    (MonadLift.monadLift x : Act ρ σ ε α).run r s = (x, s) := rfl

@[simp] theorem run_read (r : ρ) (s : σ) : (read : Act ρ σ ε ρ).run r s = (.ok r, s) := rfl

/-! ### Values a computation can return -/

/-- In context `r`, from some state above `lo`, `x` returns `a` in a state below `hi`. -/
def Returns (r : ρ) (lo : σ) (x : Act ρ σ ε α) (a : α) (hi : σ) : Prop :=
  ∃ s t, lo ≤ s ∧ x.run r s = (.ok a, t) ∧ t ≤ hi

section
variable {r : ρ} {lo hi : σ}

variable {x : Act ρ σ ε α}

theorem Returns.le {a : α} (h : Returns r lo x a hi) : lo ≤ hi := by
  obtain ⟨s, t, below, run, above⟩ := h
  have step := x.grows r s
  rw [run] at step
  exact le_trans below (le_trans step above)

/-- The two halves of a sequence, with a state between them. -/
theorem Returns.split {f : α → Act ρ σ ε β} {b : β} (h : Returns r lo (x >>= f) b hi) :
    ∃ a mid, Returns r lo x a mid ∧ Returns r mid (f a) b hi := by
  obtain ⟨s, u, below, run, above⟩ := h
  rw [run_bind] at run
  rcases first : x.run r s with ⟨e | a, t⟩
  · simp [first] at run
  · rw [first] at run
    exact ⟨a, t, ⟨s, t, below, first, le_refl t⟩, ⟨t, u, le_refl t, run, above⟩⟩

theorem Returns.mono {a : α} {lo' hi' : σ} (h : Returns r lo x a hi) (low : lo' ≤ lo)
    (high : hi ≤ hi') : Returns r lo' x a hi' := by
  obtain ⟨s, t, below, run, above⟩ := h
  exact ⟨s, t, le_trans low below, run, le_trans above high⟩

/-- The bounds of a sequence bound both of its halves. -/
theorem Returns.bind {f : α → Act ρ σ ε β} {b : β} (h : Returns r lo (x >>= f) b hi) :
    ∃ a, Returns r lo x a hi ∧ Returns r lo (f a) b hi := by
  obtain ⟨a, mid, first, rest⟩ := h.split
  exact ⟨a, first.mono (le_refl lo) rest.le, rest.mono first.le (le_refl hi)⟩

theorem Returns.of_pure {a b : α} (h : Returns r lo (pure a : Act ρ σ ε α) b hi) : a = b := by
  obtain ⟨s, t, below, run, above⟩ := h
  exact Except.ok.inj (congrArg Prod.fst run)

/-- Reading the context gives the context. -/
theorem Returns.read {f : ρ → Act ρ σ ε β} {b : β}
    (h : Returns r lo ((read : Act ρ σ ε ρ) >>= f) b hi) : Returns r lo (f r) b hi := by
  obtain ⟨_, ⟨s, t, below, run, above⟩, rest⟩ := h.bind
  cases run
  exact rest

@[simp] theorem not_returns_throw {e : ε} {a : α} :
    ¬ Returns r lo (throw e : Act ρ σ ε α) a hi := by
  rintro ⟨s, t, below, run, above⟩
  cases congrArg Prod.fst run

theorem Returns.of_lift {x : Except ε α} {a : α}
    (h : Returns r lo (MonadLift.monadLift x : Act ρ σ ε α) a hi) : x = .ok a := by
  obtain ⟨s, t, below, run, above⟩ := h
  exact congrArg Prod.fst run

theorem Returns.of_require {condition : Prop} [Decidable condition] {e : ε} {u : Unit}
    (h : Returns r lo (require condition e : Act ρ σ ε Unit) u hi) : condition := by
  by_contra absent
  simp [require, absent] at h

/-- A guard in front of a continuation holds whenever the whole returns. -/
theorem Returns.guard {condition : Prop} [Decidable condition] {e : ε}
    {f : Unit → Act ρ σ ε β} {b : β} (h : Returns r lo (require condition e >>= f) b hi) :
    condition ∧ Returns r lo (f ()) b hi := by
  obtain ⟨_, first, rest⟩ := h.bind
  exact ⟨first.of_require, rest⟩

/-- A step whose value is not used. -/
theorem Returns.skip {x : Act ρ σ ε Unit} {f : Unit → Act ρ σ ε β} {b : β}
    (h : Returns r lo (x >>= f) b hi) : Returns r lo x () hi ∧ Returns r lo (f ()) b hi := by
  obtain ⟨⟨⟩, first, rest⟩ := h.bind
  exact ⟨first, rest⟩

theorem Returns.ite {condition : Prop} [Decidable condition] {x y : Act ρ σ ε α} {a : α}
    (h : Returns r lo (if condition then x else y) a hi) :
    (condition ∧ Returns r lo x a hi) ∨ (¬ condition ∧ Returns r lo y a hi) := by
  by_cases holds : condition
  · exact Or.inl ⟨holds, by simpa [holds] using h⟩
  · exact Or.inr ⟨holds, by simpa [holds] using h⟩

theorem Returns.collect {f : α → Act ρ σ ε β} {items : List α} {values : List β}
    (h : Returns r lo (collect f items) values hi) :
    List.Forall₂ (fun item value => Returns r lo (f item) value hi) items values := by
  induction items generalizing values with
  | nil =>
    obtain rfl := h.of_pure
    exact .nil
  | cons item rest ih =>
    obtain ⟨value, first, h⟩ := h.bind
    obtain ⟨tail, others, h⟩ := h.bind
    obtain rfl := h.of_pure
    exact .cons first (ih others)

/-- Whatever a loop over a list returns satisfies an invariant that holds at its
start and that one turn of the loop keeps. The state bound moves with the loop. -/
theorem Returns.foldlM {body : β → α → Act ρ σ ε β} {items : List α} {start final : β}
    (Inv : List α → β → σ → Prop) (init : Inv [] start lo)
    (turn : ∀ done item before after low high, done ++ [item] <+: items → lo ≤ low → high ≤ hi →
      Inv done before low → Returns r low (body before item) after high →
      Inv (done ++ [item]) after high)
    (lift : ∀ done value low high, low ≤ high → Inv done value low → Inv done value high)
    (h : Returns r lo (items.foldlM body start) final hi) : Inv items final hi := by
  suffices general : ∀ (rest done : List α) (before : β) (low : σ), done ++ rest = items →
      lo ≤ low → Inv done before low → Returns r low (rest.foldlM body before) final hi →
      Inv items final hi from
    general items [] start lo rfl (le_refl lo) init h
  intro rest
  induction rest with
  | nil =>
    intro done before low whole _ holds returned
    rw [List.append_nil] at whole
    have last := Returns.of_pure returned
    exact whole ▸ last ▸ lift done before low hi returned.le holds
  | cons item rest ih =>
    intro done before low whole above holds returned
    rw [List.foldlM_cons] at returned
    obtain ⟨after, mid, first, others⟩ := returned.split
    have joined : done ++ [item] ++ rest = items := by simpa using whole
    exact ih (done ++ [item]) after mid joined (le_trans above first.le)
      (turn done item before after low mid ⟨rest, joined⟩ above others.le holds first) others

end

/-! ### Errors a computation can throw -/

/-- In context `r` the computation throws only errors with the property. -/
def Throws (r : ρ) (x : Act ρ σ ε α) (Q : ε → Prop) : Prop :=
  ∀ s e t, x.run r s = (.error e, t) → Q e

section
variable {r : ρ} {Q : ε → Prop}

theorem Throws.pure {a : α} : Throws r (pure a : Act ρ σ ε α) Q := by
  intro s e t run
  cases run

theorem Throws.throw {e : ε} (allowed : Q e) : Throws r (throw e : Act ρ σ ε α) Q := by
  intro s e' t run
  cases run
  exact allowed

theorem Throws.lift {x : Except ε α} (allowed : ∀ e, x = .error e → Q e) :
    Throws r (MonadLift.monadLift x : Act ρ σ ε α) Q :=
  fun _ e _ run => allowed e (congrArg Prod.fst run)

theorem Throws.bind {x : Act ρ σ ε α} {f : α → Act ρ σ ε β} (first : Throws r x Q)
    (rest : ∀ a, Throws r (f a) Q) : Throws r (x >>= f) Q := by
  intro s e t run
  rw [run_bind] at run
  rcases here : x.run r s with ⟨e' | a, u⟩
  · rw [here] at run
    cases run
    exact first s e t here
  · rw [here] at run
    exact rest a u e t run

theorem Throws.ite {condition : Prop} [Decidable condition] {x y : Act ρ σ ε α}
    (yes : Throws r x Q) (no : Throws r y Q) : Throws r (if condition then x else y) Q := by
  split
  · exact yes
  · exact no

theorem Throws.require {condition : Prop} [Decidable condition] {e : ε} (allowed : Q e) :
    Throws r (require condition e : Act ρ σ ε Unit) Q :=
  .ite .pure (.throw allowed)

/-- An invariant of the loop and the items of the list may be used. -/
theorem Throws.foldlM_inv {body : β → α → Act ρ σ ε β} (Inv : β → Prop) {items : List α}
    (turn : ∀ b, ∀ a ∈ items, Inv b → Throws r (body b a) Q)
    (keeps : ∀ b a s b' t, Inv b → (body b a).run r s = (.ok b', t) → Inv b') {start : β}
    (init : Inv start) : Throws r (items.foldlM body start) Q := by
  induction items generalizing start with
  | nil => exact .pure
  | cons item rest ih =>
    intro s e t run
    rw [List.foldlM_cons, run_bind] at run
    rcases here : (body start item).run r s with ⟨e' | b, u⟩
    · rw [here] at run
      cases run
      exact turn start item List.mem_cons_self init s e t here
    · rw [here] at run
      exact ih (fun b a member => turn b a (List.mem_cons_of_mem _ member))
        (keeps start item s b u init here) u e t run

theorem Throws.foldlM {body : β → α → Act ρ σ ε β} (turn : ∀ b a, Throws r (body b a) Q)
    (items : List α) (start : β) : Throws r (items.foldlM body start) Q :=
  .foldlM_inv (fun _ => True) (fun b a _ _ => turn b a) (fun _ _ _ _ _ _ _ => trivial) trivial

end

/-! ### Properties of what a computation returns -/

/-- In context `r` the computation returns only values with the property. -/
def Yields (r : ρ) (x : Act ρ σ ε α) (Q : α → Prop) : Prop :=
  ∀ s a t, x.run r s = (.ok a, t) → Q a

section
variable {r : ρ} {Q : α → Prop}

theorem Yields.pure {a : α} (holds : Q a) : Yields r (pure a : Act ρ σ ε α) Q := by
  intro s b t run
  cases run
  exact holds

theorem Yields.throw {e : ε} : Yields r (throw e : Act ρ σ ε α) Q := by
  intro s a t run
  cases run

/-- The second half may use what is known of the values of the first. -/
theorem Yields.seq {x : Act ρ σ ε β} {f : β → Act ρ σ ε α} {P : β → Prop} (first : Yields r x P)
    (rest : ∀ b, P b → Yields r (f b) Q) : Yields r (x >>= f) Q := by
  intro s a t run
  obtain ⟨b, u, here, run⟩ := of_run_bind run
  exact rest b (first s b u here) u a t run

theorem Yields.bind {x : Act ρ σ ε β} {f : β → Act ρ σ ε α} (rest : ∀ b, Yields r (f b) Q) :
    Yields r (x >>= f) Q :=
  .seq (P := fun _ => True) (fun _ _ _ _ => trivial) fun b _ => rest b

theorem Yields.ite {condition : Prop} [Decidable condition] {x y : Act ρ σ ε α}
    (yes : Yields r x Q) (no : Yields r y Q) : Yields r (if condition then x else y) Q := by
  split
  · exact yes
  · exact no

theorem Yields.foldlM {body : α → β → Act ρ σ ε α} (turn : ∀ a b, Q a → Yields r (body a b) Q)
    (items : List β) {start : α} (init : Q start) : Yields r (items.foldlM body start) Q := by
  induction items generalizing start with
  | nil => exact .pure init
  | cons item rest ih => exact .seq (turn start item init) fun _ holds => ih holds

end

/-! ### Specifications -/

/-- The steps a computation may take, and what each of them keeps. -/
structure Law (σ : Type) where
  Step : σ → σ → Prop
  Inv : σ → Prop
  keeps : ∀ {s t}, Step s t → Inv s → Inv t

/-- Some number of steps. -/
abbrev Law.Reaches (L : Law σ) : σ → σ → Prop := Relation.ReflTransGen L.Step

/-- The law that allows every step: plain pre- and postconditions. -/
def Law.free : Law σ := ⟨fun _ _ => True, fun _ => True, fun _ _ => trivial⟩

omit [Preorder σ] in
/-- What every step keeps, a sequence of steps keeps. -/
theorem Law.Reaches.stable {L : Law σ} {I : σ → Prop} (step : ∀ {s t}, L.Step s t → I s → I t)
    {s t : σ} (h : L.Reaches s t) (holds : I s) : I t := by
  induction h with
  | refl => exact holds
  | tail _ last ih => exact step last ih

/-- How a run ends: `Post` holds of what it returns, `Fail` of what it throws, each with
the state left behind. -/
inductive Ends (Post : α → σ → Prop) (Fail : ε → σ → Prop) : Except ε α × σ → Prop where
  | ok {a : α} {t : σ} (post : Post a t) : Ends Post Fail (.ok a, t)
  | error {e : ε} {t : σ} (fail : Fail e t) : Ends Post Fail (.error e, t)

/-- In context `r`, from a lawful state with `Pre`, `x` takes lawful steps to an end with
`Post` or `Fail`. -/
def Spec (r : ρ) (L : Law σ) (Pre : σ → Prop) (x : Act ρ σ ε α) (Post : α → σ → Prop)
    (Fail : ε → σ → Prop) : Prop :=
  ∀ s, L.Inv s → Pre s → L.Reaches s (x.run r s).2 ∧ Ends Post Fail (x.run r s)

section
variable {r : ρ} {L : Law σ} {Pre : σ → Prop} {Post : α → σ → Prop} {M : β → σ → Prop}
  {Fail : ε → σ → Prop}

variable {x : Act ρ σ ε α}

theorem Spec.weaken {Pre' : σ → Prop} {Post' : α → σ → Prop} {Fail' : ε → σ → Prop}
    (h : Spec r L Pre x Post Fail) (pre : ∀ s, Pre' s → Pre s) (post : ∀ a s, Post a s → Post' a s)
    (fail : ∀ e s, Fail e s → Fail' e s) :
    Spec r L Pre' x Post' Fail' := by
  intro s lawful holds
  obtain ⟨reaches, ends⟩ := h s lawful (pre s holds)
  refine ⟨reaches, ?_⟩
  rcases run : x.run r s with ⟨e | a, t⟩
  · rw [run] at ends
    cases ends with
    | error failed => exact .error (fail e t failed)
  · rw [run] at ends
    cases ends with
    | ok returned => exact .ok (post a t returned)

/-- A weaker account of how `x` fails. -/
theorem Spec.fails {Fail' : ε → σ → Prop} (h : Spec r L Pre x Post Fail)
    (fail : ∀ e s, Fail e s → Fail' e s) : Spec r L Pre x Post Fail' :=
  h.weaken (fun _ holds => holds) (fun _ _ post => post) fail

/-- Without a law only the end of the run counts. -/
theorem Spec.of_ends (h : ∀ s, Pre s → Ends Post Fail (x.run r s)) :
    Spec r Law.free Pre x Post Fail :=
  fun s _ holds => ⟨.single trivial, h s holds⟩

/-- What every step keeps can be added on both sides. -/
theorem Spec.frame {J : σ → Prop} (h : Spec r L Pre x Post Fail)
    (keeps : ∀ {s t}, L.Step s t → J s → J t) :
    Spec r L (fun s => J s ∧ Pre s) x (fun a s => J s ∧ Post a s) fun e s => J s ∧ Fail e s := by
  intro s lawful holds
  obtain ⟨reaches, ends⟩ := h s lawful holds.2
  have kept := reaches.stable keeps holds.1
  refine ⟨reaches, ?_⟩
  rcases run : x.run r s with ⟨e | a, t⟩
  · rw [run] at ends kept
    cases ends with
    | error failed => exact .error ⟨kept, failed⟩
  · rw [run] at ends kept
    cases ends with
    | ok returned => exact .ok ⟨kept, returned⟩

theorem Spec.pure {a : α} (post : ∀ s, Pre s → Post a s) :
    Spec r L Pre (pure a : Act ρ σ ε α) Post Fail :=
  fun s _ holds => ⟨.refl, .ok (post s holds)⟩

theorem Spec.throw {e : ε} (fail : ∀ s, Pre s → Fail e s) :
    Spec r L Pre (throw e : Act ρ σ ε α) Post Fail :=
  fun s _ holds => ⟨.refl, .error (fail s holds)⟩

theorem Spec.read : Spec r L Pre (read : Act ρ σ ε ρ) (fun context s => context = r ∧ Pre s) Fail :=
  fun _ _ holds => ⟨.refl, .ok ⟨rfl, holds⟩⟩

theorem Spec.bind {x : Act ρ σ ε β} {f : β → Act ρ σ ε α} (first : Spec r L Pre x M Fail)
    (rest : ∀ b, Spec r L (M b) (f b) Post Fail) : Spec r L Pre (x >>= f) Post Fail := by
  intro s lawful holds
  obtain ⟨reaches, ends⟩ := first s lawful holds
  rw [run_bind]
  rcases run : x.run r s with ⟨e | b, t⟩
  · rw [run] at reaches ends
    cases ends with
    | error failed => exact ⟨reaches, .error failed⟩
  · rw [run] at reaches ends
    cases ends with
    | ok middle =>
      have again := rest b t (reaches.stable L.keeps lawful) middle
      exact ⟨reaches.trans again.1, again.2⟩

/-- What does not depend on the state can be taken out of a precondition. -/
theorem Spec.of_pre {p : Prop} (h : p → Spec r L Pre x Post Fail) :
    Spec r L (fun s => p ∧ Pre s) x Post Fail :=
  fun s lawful holds => h holds.1 s lawful holds.2

/-- A consequence of the precondition may be used. -/
theorem Spec.assume {p : Prop} (implied : ∀ s, Pre s → p) (h : p → Spec r L Pre x Post Fail) :
    Spec r L Pre x Post Fail :=
  fun s lawful holds => h (implied s holds) s lawful holds

theorem Spec.ite {condition : Prop} [Decidable condition] {x y : Act ρ σ ε α}
    (yes : condition → Spec r L Pre x Post Fail) (no : ¬ condition → Spec r L Pre y Post Fail) :
    Spec r L Pre (if condition then x else y) Post Fail := by
  by_cases h : condition
  · simpa [h] using yes h
  · simpa [h] using no h

theorem Spec.when {condition : Prop} [Decidable condition] {x : Act ρ σ ε Unit}
    {Done : Unit → σ → Prop} (yes : condition → Spec r L Pre x Done Fail)
    (no : ¬ condition → ∀ s, Pre s → Done () s) : Spec r L Pre (when condition x) Done Fail :=
  Spec.ite yes fun h => Spec.pure (no h)

/-- The condition does not hold. -/
theorem Spec.not_when {condition : Prop} [Decidable condition] {x : Act ρ σ ε Unit}
    (absent : ¬ condition) : Spec r L Pre (Act.when condition x) (fun _ => Pre) Fail :=
  .when (fun holds => absurd holds absent) fun _ _ holds => holds

theorem Spec.tryCatch {handler : ε → Act ρ σ ε α} {C : ε → σ → Prop} (first : Spec r L Pre x Post C)
    (rest : ∀ e, Spec r L (C e) (handler e) Post Fail) :
    Spec r L Pre (MonadExcept.tryCatch x handler) Post Fail := by
  intro s lawful holds
  obtain ⟨reaches, ends⟩ := first s lawful holds
  rw [run_tryCatch]
  rcases run : x.run r s with ⟨e | a, t⟩
  · rw [run] at reaches ends
    cases ends with
    | error failed =>
      have again := rest e t (reaches.stable L.keeps lawful) failed
      exact ⟨reaches.trans again.1, again.2⟩
  · rw [run] at reaches ends
    cases ends with
    | ok returned => exact ⟨reaches, .ok returned⟩

end

end Act
