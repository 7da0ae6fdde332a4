import Consent.Offline
import Consent.Repository.Execute

/-!
The first job of the database executor (`Server::Run`): the spool of offline registrations
is loaded, the repository opened, and each registration imported in turn.
-/
namespace Consent.Server
open Profile Repository

variable {σ ε : Type} [Host σ ε]

/-- A record without a current installation is left for later; any other failure ends the
start. The calls read the environments from number `n` on. -/
def importRegistrations (P : Platform) (environments : Nat → Environment ε) :
    List Message → Nat → World σ ε → Bool × World σ ε
  | [], _, w => (true, w)
  | seed :: rest, n, w =>
    let imported := (Step.importOfflineRegistration seed).run P (environments n) w
    match imported.1.status with
    | none => importRegistrations P environments rest (n + 1) imported.2
    | some .estale => importRegistrations P environments rest (n + 1) imported.2
    | some _ => (false, imported.2)

/-- The repository is opened and served the registrations; strict authority checks last until
the final snapshot. -/
def openAndImport (P : Platform) (environments : Nat → Environment ε) (main : σ)
    (powerLoss : Bool) (registrations : List Message) (w : World σ ε) : Bool × World σ ε :=
  let opened := (Step.restart main (!registrations.isEmpty) powerLoss).run P (environments 0) w
  if opened.1.fields.get "open" ≠ "1" then (false, opened.2)
  else
    let imported := importRegistrations P environments registrations 3 opened.2
    if imported.1 then
      let shot := Step.snapshot.run P (environments 1) imported.2
      let ended := (Step.offlineReconciliation false).run P (environments 2) shot.2
      (shot.1.status.isNone, ended.2)
    else (false, imported.2)

/-- Whether the process is ready, and the world it leaves. `authority` is the answer of
`CheckOfflineAuthority`, which is asked only if there are registrations. A process that
cannot load the spool does not open the repository. -/
def start (P : Platform) (codec : Offline.Codec) (spool : Option Offline.Directory)
    (authority : Int) (environments : Nat → Environment ε) (main : σ) (powerLoss : Bool)
    (w : World σ ε) : Bool × World σ ε :=
  match Offline.loadRegistrations codec spool with
  | .error _ => (false, w)
  | .ok registrations =>
    if registrations ≠ [] ∧ authorityStatus authority ≠ none ∧
        authorityStatus authority ≠ some .estale then (false, w)
    else openAndImport P environments main powerLoss registrations w

/-- The order in which the spool is listed does not matter to a start. -/
theorem start_perm (P : Platform) (codec : Offline.Codec) {directory directory' : Offline.Directory}
    (order : directory.files.Perm directory'.files)
    (complete : directory'.complete = directory.complete) (authority : Int)
    (environments : Nat → Environment ε) (main : σ) (powerLoss : Bool) (w : World σ ε) :
    start P codec (some directory') authority environments main powerLoss w =
      start P codec (some directory) authority environments main powerLoss w := by
  unfold start
  rcases loaded : Offline.loadRegistrations codec (some directory) with failure | registrations
  · rcases loaded' : Offline.loadRegistrations codec (some directory') with failure' | registrations'
    · rfl
    · rw [Offline.loadRegistrations_perm order.symm complete.symm loaded'] at loaded
      cases loaded
  · rw [Offline.loadRegistrations_perm order complete loaded]

end Consent.Server
