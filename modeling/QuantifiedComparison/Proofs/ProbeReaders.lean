import QuantifiedComparison.Proofs.ProbeValues

/-!
# Readers of a probe

What evaluates a predicate or collects the values for an index reads the probe it is given, and
leaves its closing to the guard. It does the same on a probe that will meet other faults when it is
closed, or was closed more often (`reader_answer`, `reader_consume`), so it neither learns of these
nor changes them (`Reader.closes`).
-/

namespace QuantifiedComparison

namespace Probe

/-- The probe with other faults of closing, and other counts of its runs and closes. -/
def withClosing (p : Probe) (onClose : Nat → Option Error) (runs closes : Nat) : Probe :=
  { p with
    faults := { p.faults with onClose }
    usage := { p.usage with runs, closes } }

/-- A use of a probe on which its closing has no bearing. -/
def Reader {α : Type} (use : Probe → Except Error α × Probe) : Prop :=
  ∀ (p : Probe) (onClose : Nat → Option Error) (runs closes : Nat),
    use (p.withClosing onClose runs closes)
      = ((use p).1, (use p).2.withClosing onClose runs closes)

section Reader

variable {α : Type} {use : Probe → Except Error α × Probe} (h : Reader use) (p : Probe)
include h

/-- A reader leaves closing as it finds it: it does the same where nothing is replaced. -/
theorem Reader.snd_eq :
    (use p).2 = (use p).2.withClosing p.faults.onClose p.usage.runs p.usage.closes :=
  congrArg Prod.snd (h p p.faults.onClose p.usage.runs p.usage.closes)

theorem Reader.runs : (use p).2.usage.runs = p.usage.runs := by
  rw [h.snd_eq p]
  rfl

theorem Reader.closes : (use p).2.usage.closes = p.usage.closes := by
  rw [h.snd_eq p]
  rfl

end Reader

theorem reader_next : Reader next := by
  rintro ⟨table, faults, pending, closed, reads, usage⟩ onClose runs closes
  unfold next withClosing
  dsimp only
  cases faults.onNext reads with
  | some e => rfl
  | none =>
    cases closed with
    | true => rfl
    | false => cases pending <;> rfl

theorem contains_withClosing (p : Probe) (key : Row) (onClose : Nat → Option Error)
    (runs closes : Nat) :
    (p.withClosing onClose runs closes).contains key
      = ((p.contains key).1, (p.contains key).2.withClosing onClose runs closes) :=
  rfl

section Consume

variable {σ : Type} (step : σ → Row → Except Error (ForInStep σ))

theorem consume_error (s : σ) {p q : Probe} {e : Error} (h : p.next = (.error e, q)) :
    p.consume step s = (.error e, q) := by
  rw [consume]
  split <;> (rename_i heq; rw [h] at heq; cases heq)
  rfl

theorem reader_consume (s : σ) : Reader (consume step s) := by
  intro p onClose runs closes
  have hnext := fun p : Probe => reader_next p onClose runs closes
  induction s, p using consume.induct step with
  | case1 s p e q h =>
    have h' := hnext p
    rw [h] at h'
    rw [consume_error step s h, consume_error step s h']
  | case2 s p q h =>
    have h' := hnext p
    rw [h] at h'
    rw [consume_none step s h, consume_none step s h']
  | case3 s p row q h e hstep =>
    have h' := hnext p
    rw [h] at h'
    rw [consume_some step s h, consume_some step s h', hstep]
  | case4 s p row q h t hstep =>
    have h' := hnext p
    rw [h] at h'
    rw [consume_some step s h, consume_some step s h', hstep]
  | case5 s p row q h t hstep ih =>
    have h' := hnext p
    rw [h] at h'
    rw [consume_some step s h, consume_some step s h', hstep]
    exact ih

end Consume

end Probe

namespace Predicate

open Probe

theorem reader_scan (p : Predicate) (policy : NullRowPolicy) (left : Value) :
    Reader (p.scan policy left) := by
  intro probe onClose runs closes
  have htype : (probe.withClosing onClose runs closes).columnType 0 = probe.columnType 0 := rfl
  unfold scan
  rw [htype]
  split
  · rfl
  · rw [reader_consume]

theorem reader_lookupNull : Reader lookupNull :=
  fun _ _ _ _ => rfl

theorem reader_lookup (left : Value) : Reader (lookup left) := by
  intro probe onClose runs closes
  have htype : (probe.withClosing onClose runs closes).columnType 0 = probe.columnType 0 := rfl
  unfold lookup
  rw [htype]
  split_ifs
  · rfl
  · split
    · rfl
    · exact reader_lookupNull probe onClose runs closes
    · rename_i key _
      rw [contains_withClosing]
      rcases probe.contains [key] with ⟨e | found, q⟩
      · rfl
      · cases found
        · exact reader_lookupNull q onClose runs closes
        · rfl

/-- Evaluating a predicate reads its probe, on whichever way. -/
theorem reader_answer (p : Predicate) (ctx : Context) : Reader (p.answer ctx) := by
  intro probe onClose runs closes
  have hcount : (probe.withClosing onClose runs closes).rowCount = probe.rowCount := rfl
  unfold answer
  rw [hcount]
  split
  · rfl
  · split_ifs
    · rfl
    · rfl
    · cases p.strategy ctx.settings
      · dsimp only
        rw [reader_scan]
      · dsimp only
        rw [reader_lookup]

end Predicate

end QuantifiedComparison
