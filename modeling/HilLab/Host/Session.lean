import HilLab.Host.BeagleBonePru

namespace HilLab.Host.Session

open Host.Core PruProtocol Rpmsg BeagleBonePru Lib.Effect

/-- The state a session works on: the links, the place it leased and the file
lock it holds. -/
structure Bench where
  links : Links
  leaseAcquired : Bool
  lockHeld : Bool

/-- What the outside raises while a session is taken down: the labgrid client,
and the unlocking of the file. -/
structure Teardown where
  lease : Option HostError := none
  lock : Option HostError := none

structure ServoHilSession where
  backend : BeagleBonePruBackend
  labgridLease : Bool

def raises : Option HostError → Except HostError Unit
  | none => .ok ()
  | some e => .error e

def lockRelease (t : Teardown) : Eff Bench HostError Unit := do
  let bench ← get
  if bench.lockHeld then
    liftExcept (raises t.lock)
    set { bench with lockHeld := false }
  else pure ()

def leaseRelease (t : Teardown) : Eff Bench HostError Unit := do
  let bench ← get
  if bench.leaseAcquired then
    set { bench with leaseAcquired := false }
    liftExcept (raises t.lease)
  else pure ()

def ServoHilSession.release (s : ServoHilSession) (t : Teardown) : Eff Bench HostError Unit :=
  if s.labgridLease then do
    let released ← attempt (leaseRelease t)
    lockRelease t
    liftExcept released
  else lockRelease t

/-- ServoHilSession.__exit__; exc tells whether the body raised. -/
def ServoHilSession.exit (wires : Wires) (s : ServoHilSession) (t : Teardown) (exc : Bool) :
    Eff Bench HostError Unit := do
  let safety ← attempt (zoom Bench.links (fun links bench => { bench with links })
    (s.backend.forceSafe wires true))
  s.release t
  match safety with
  | .error e => if exc then pure () else throw e
  | .ok () => pure ()

section Release

variable (t : Teardown)

theorem lockRelease_keeps : Keeps Bench.links (lockRelease t) := by
  refine keeps_get_bind (fun bench => ?_)
  cases bench.lockHeld with
  | false => rfl
  | true => cases hr : t.lock <;> simp [exec_bind, raises]

theorem leaseRelease_keeps : Keeps Bench.links (leaseRelease t) := by
  refine keeps_get_bind (fun bench => ?_)
  cases bench.leaseAcquired with
  | false => rfl
  | true => cases hr : t.lease <;> simp [exec_bind, raises]

theorem release_keeps (s : ServoHilSession) : Keeps Bench.links (s.release t) := by
  rw [ServoHilSession.release]
  split
  · exact keeps_bind (keeps_attempt (leaseRelease_keeps t)) (fun released =>
      keeps_bind (lockRelease_keeps t) (fun _ => keeps_liftExcept released))
  · exact lockRelease_keeps t

end Release

/-- Taking a session down sends what force_safe sends, and nothing else. -/
theorem exit_links (wires : Wires) (s : ServoHilSession) (t : Teardown) (exc : Bool) (bench : Bench) :
    (exec (s.exit wires t exc) bench).2.links =
      (exec (s.backend.forceSafe wires true) bench.links).2 := by
  rw [ServoHilSession.exit, exec_bind_ok (exec_attempt _ _)]
  refine (keeps_bind (release_keeps t s) (fun _ => ?_) _).trans rfl
  cases (exec (zoom Bench.links (fun links bench => { bench with links })
    (s.backend.forceSafe wires true)) bench).1 with
  | error e =>
      cases exc with
      | false => exact keeps_throw e
      | true => exact keeps_pure ()
  | ok _ => exact keeps_pure ()

end HilLab.Host.Session
