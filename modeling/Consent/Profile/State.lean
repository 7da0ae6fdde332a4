import Consent.Registration

/-!
The profile state shared by the main context and the database executor
(`consentd/profile_state.cc`). Each method holds the lock for its whole body, so a
method is one step. `Configure` accepts only distinct bindings, which the structure carries.
-/
namespace Consent.Profile

structure Binding where
  subject : String
  user : String
  profile : String
  deriving DecidableEq, Repr

/-- The generation is a 64-bit counter of the source, which each fence raises by one. A value
that a frame or an operation was checked against would return only if 2 ^ 64 fences fell into
the time for which that frame waits, so it is a `Nat`. -/
structure ProfileState where
  bindings : List Binding
  activeUser : String
  ready : Bool
  enabled : Bool
  generation : Nat
  distinctProfiles : (bindings.map fun b => (b.subject, b.profile)).Nodup
  distinctUsers : (bindings.map fun b => (b.subject, b.user)).Nodup

namespace ProfileState

def initial : ProfileState :=
  ⟨[], "", false, false, 0, List.nodup_nil, List.nodup_nil⟩

def fence (state : ProfileState) : ProfileState :=
  { state with ready := false, generation := state.generation + 1 }

def known (state : ProfileState) (user : String) : Bool :=
  state.bindings.any fun binding => binding.user == user

def activate (state : ProfileState) (generation : Nat) (user : String) : Option ProfileState :=
  if !state.enabled || generation != state.generation || !state.known user then none
  else some { state with activeUser := user, ready := true }

/-- `none` is status 0. -/
def check (state : ProfileState) (subject profile : String) : Option Status :=
  if !state.enabled then none
  else
    match state.bindings.find? fun b => b.subject == subject && b.profile == profile with
    | none => some .eacces
    | some binding =>
      if !state.ready then some .ebusy
      else if binding.user == state.activeUser then none
      else some .eacces

theorem activate_some {state after : ProfileState} {generation : Nat} {user : String}
    (h : state.activate generation user = some after) :
    state.enabled = true ∧ generation = state.generation ∧ state.known user = true ∧
      after = { state with activeUser := user, ready := true } := by
  unfold activate at h
  split at h
  · cases h
  · rename_i accepted
    simp only [Bool.or_eq_true, Bool.not_eq_eq_eq_not, Bool.not_true, bne_iff_ne, ne_eq,
      not_or, Bool.not_eq_false, not_not] at accepted
    exact ⟨accepted.1.1, accepted.1.2, accepted.2, (Option.some.inj h).symm⟩

end ProfileState

/-- The other threads of the daemon: a state that holds the profile state and the
events that move it. Bindings are configured before anything is served, and the profile
generation never decreases. -/
class Host (σ : Type) (ε : outParam Type) where
  profiles : σ → ProfileState
  step : ε → σ → σ
  grows : ∀ e s, (profiles s).generation ≤ (profiles (step e s)).generation
  enabled : ∀ e s, (profiles (step e s)).enabled = (profiles s).enabled

/-- The two methods through which the authority writes the shared state. -/
inductive ProfileStep where
  | fence
  | activate (generation : Nat) (user : String)
  deriving DecidableEq, Repr

def ProfileStep.apply : ProfileStep → ProfileState → ProfileState
  | .fence, state => state.fence
  | .activate generation user, state => (state.activate generation user).getD state

/-- A method call fences the state or at most makes it ready. -/
theorem ProfileStep.apply_cases (e : ProfileStep) (s : ProfileState) :
    e.apply s = s.fence ∨ e.apply s = s ∨
      ∃ user, e.apply s = { s with activeUser := user, ready := true } := by
  cases e with
  | fence => exact Or.inl rfl
  | activate generation user =>
    rcases h : s.activate generation user with _ | after
    · exact Or.inr (Or.inl (by simp [apply, h]))
    · exact Or.inr (Or.inr ⟨user, by simp [apply, h, (ProfileState.activate_some h).2.2.2]⟩)

/-- The least host: the profile state itself, written by arbitrary method calls. -/
instance : Host ProfileState ProfileStep where
  profiles state := state
  step := ProfileStep.apply
  grows e s := by rcases e.apply_cases s with h | h | ⟨_, h⟩ <;> simp [h, ProfileState.fence]
  enabled e s := by rcases e.apply_cases s with h | h | ⟨_, h⟩ <;> simp [h, ProfileState.fence]

end Consent.Profile
