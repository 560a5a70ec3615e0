import QuantifiedComparison.ResultTable

/-!
# Probes

A probe reads the result of one run of a query: from first to last by a cursor, and by lookups
among the distinct rows. The two do not affect each other. A closed probe refuses both, but still
tells its number of rows and their types.

Reading and closing may meet faults. A read that meets one leaves the cursor where it is, and a
close that meets one closes the probe all the same. The probe keeps a tally of what was asked of
it.
-/

namespace QuantifiedComparison

/-- The faults of a probe, by the number of calls made before. -/
structure Faults where
  onNext : Nat → Option Error := fun _ => none
  onClose : Nat → Option Error := fun _ => none

/-- What a run gives: a table, and the faults that reading and closing it will meet. -/
structure Response where
  table : ResultTable
  faults : Faults := {}

/-- What was asked of the runs of a plan. -/
structure Usage where
  runs : Nat := 0
  /-- The reads that gave a row. -/
  rowsRead : Nat := 0
  /-- The lookups, also those that failed. -/
  lookups : Nat := 0
  closes : Nat := 0
deriving DecidableEq, Repr

def Usage.add (u v : Usage) : Usage :=
  { runs := u.runs + v.runs
    rowsRead := u.rowsRead + v.rowsRead
    lookups := u.lookups + v.lookups
    closes := u.closes + v.closes }

structure Probe where
  table : ResultTable
  faults : Faults
  /-- The rows that the cursor has not read. -/
  pending : List Row
  closed : Bool := false
  /-- The calls of `next`, also those that failed or found no row. -/
  reads : Nat := 0
  usage : Usage

namespace Probe

/-- A probe that nothing has been asked of. -/
def start (r : Response) : Probe :=
  { table := r.table, faults := r.faults, pending := r.table.rows, usage := { runs := 1 } }

def rowCount (p : Probe) : Nat :=
  p.table.rows.length

def columnType (p : Probe) (index : Nat) : ColumnType :=
  p.table.columnType index

/-- The next row of the cursor, or nothing after the last. -/
def next (p : Probe) : Except Error (Option Row) × Probe :=
  let called := { p with reads := p.reads + 1 }
  match p.faults.onNext p.reads with
  | some e => (.error e, called)
  | none =>
    if p.closed then (.error .resultClosed, called)
    else
      match p.pending with
      | [] => (.ok none, called)
      | row :: rest =>
        (.ok (some row),
          { called with
            pending := rest
            usage := { p.usage with rowsRead := p.usage.rowsRead + 1 } })

def contains (p : Probe) (key : Row) : Except Error Bool × Probe :=
  (if p.closed then .error .resultClosed else p.table.contains key,
    { p with usage := { p.usage with lookups := p.usage.lookups + 1 } })

def close (p : Probe) : Except Error Unit × Probe :=
  let after :=
    { p with
      closed := true
      usage := { p.usage with closes := p.usage.closes + 1 } }
  match p.faults.onClose p.usage.closes with
  | some e => (.error e, after)
  | none => (.ok (), after)

theorem pending_next_lt {p q : Probe} {row : Row} (h : p.next = (.ok (some row), q)) :
    q.pending.length < p.pending.length := by
  unfold next at h
  split at h
  · simp at h
  · split at h
    · simp at h
    · split at h
      · simp at h
      · rename_i hp
        simp only [Prod.mk.injEq] at h
        obtain ⟨-, rfl⟩ := h
        simp [hp]

/-- Reads rows until `step` is done, or until there are no more. -/
def consume {σ : Type} (step : σ → Row → Except Error (ForInStep σ)) (s : σ) (p : Probe) :
    Except Error σ × Probe :=
  match _h : p.next with
  | (.error e, q) => (.error e, q)
  | (.ok none, q) => (.ok s, q)
  | (.ok (some row), q) =>
    match step s row with
    | .error e => (.error e, q)
    | .ok (.done t) => (.ok t, q)
    | .ok (.yield t) => consume step t q
termination_by p.pending.length
decreasing_by exact pending_next_lt _h

/-- Every row that is left. -/
def toRows (p : Probe) : Except Error (List Row) × Probe :=
  p.consume (fun rows row => .ok (.yield (rows ++ [row]))) []

end Probe

end QuantifiedComparison
