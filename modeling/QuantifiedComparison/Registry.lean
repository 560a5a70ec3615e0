import QuantifiedComparison.Probe

/-!
# The registry of open results

Every probe of a statement is registered under a label, and released when its guard is dropped. The
registry knows which guards are alive, but does not own their probes. Guards are numbered in the
order of registration.
-/

namespace QuantifiedComparison

structure Registry where
  /-- The number and label of each guard that is alive, the oldest first. -/
  alive : List (Nat × String) := []
  /-- The number of registrations so far, which is also the next guard's number. -/
  registered : Nat := 0
deriving DecidableEq, Repr

/-- A registered probe. -/
structure Guard where
  id : Nat
  probe : Probe

namespace Registry

def register (r : Registry) (label : String) (probe : Probe) : Guard × Registry :=
  (⟨r.registered, probe⟩, ⟨r.alive ++ [(r.registered, label)], r.registered + 1⟩)

def release (r : Registry) (id : Nat) : Registry :=
  { r with alive := r.alive.filter (·.1 ≠ id) }

def openCount (r : Registry) : Nat :=
  r.alive.length

/-- The labels of the guards that are alive, in order. -/
def openLabels (r : Registry) : List String :=
  (r.alive.map (·.2)).mergeSort fun a b => compare a b != .gt

end Registry

/-- Closes the probe and releases the guard; a fault of the closing is passed over. -/
def Guard.drop (g : Guard) (r : Registry) : Probe × Registry :=
  (g.probe.close.2, r.release g.id)

end QuantifiedComparison
