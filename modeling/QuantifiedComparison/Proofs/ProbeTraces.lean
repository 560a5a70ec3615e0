import QuantifiedComparison.Probe.Call
import QuantifiedComparison.Proofs.RowEquality

/-!
# Probes as lists of rows

What a probe replies to a call depends on its table and on little of what was called before: whether
it was closed, and how often it was asked for the next row (`ResultTable.Replies`). Calls in any
order get these replies (`Probe.After.trace`).

An `IndexedProbe` goes about it another way. It keeps its place by a number, files the distinct rows
at the first lookup, and uses that index for all later ones. Both reply alike to the same calls
(`IndexedProbe.Represents.calls`), since the index holds a row equal to a key whenever the table
does. The two facts together are `probe_refines_table`.
-/

namespace QuantifiedComparison

namespace Probe.Call

def isNext : Call → Bool
  | next => true
  | _ => false

def isClose : Call → Bool
  | close => true
  | _ => false

end Probe.Call

namespace ResultTable

open Probe (Call Reply)

/-- The table has a row as wide as the key that is like it value by value. -/
def Holds (t : ResultTable) (key : Row) : Prop :=
  ∃ row ∈ t.rows, List.Forall₂ Value.Alike row key

/-- What the table replies to a call, after the calls in `past`. -/
inductive Replies (t : ResultTable) (past : List Call) : Call → Reply → Prop
  | next (hopen : past.any Call.isClose = false) :
    Replies t past .next (.row t.rows[past.countP Call.isNext]?)
  | found {key : Row} (hopen : past.any Call.isClose = false) (haccess : t.randomAccess = true)
      (h : t.Holds key) : Replies t past (.contains key) (.flag true)
  | notFound {key : Row} (hopen : past.any Call.isClose = false) (haccess : t.randomAccess = true)
      (h : ¬t.Holds key) : Replies t past (.contains key) (.flag false)
  | noRandomAccess (key : Row) (hopen : past.any Call.isClose = false)
      (haccess : t.randomAccess = false) :
    Replies t past (.contains key) (.failed .noRandomAccess)
  | nextClosed (hclosed : past.any Call.isClose = true) :
    Replies t past .next (.failed .resultClosed)
  | containsClosed (key : Row) (hclosed : past.any Call.isClose = true) :
    Replies t past (.contains key) (.failed .resultClosed)
  | rowCount : Replies t past .rowCount (.count t.rows.length)
  | columnType (index : Nat) : Replies t past (.columnType index) (.type (t.columnType index))
  | close : Replies t past .close .done
  | isClosed : Replies t past .isClosed (.flag (past.any Call.isClose))

/-- One reply after the other to calls that follow those in `past`. -/
inductive Trace (t : ResultTable) : List Call → List Call → List Reply → Prop
  | nil (past : List Call) : Trace t past [] []
  | cons {past calls : List Call} {replies : List Reply} {c : Call} {reply : Reply}
      (h : t.Replies past c reply) (hrest : Trace t (past ++ [c]) calls replies) :
    Trace t past (c :: calls) (reply :: replies)

theorem holds_iff {t : ResultTable} {key : Row} :
    Row.isAmong key t.rows = true ↔ t.Holds key := by
  rw [Row.isAmong_iff, Holds]
  simp only [Row.equals_iff_forall₂, Value.equals_iff_alike]

end ResultTable

namespace Probe

/-- A probe of the table, without faults, that has been asked the calls in `past`. -/
structure After (t : ResultTable) (past : List Call) (p : Probe) : Prop where
  table : p.table = t
  onNext : ∀ n, p.faults.onNext n = none
  onClose : ∀ n, p.faults.onClose n = none
  closed : p.closed = past.any Call.isClose
  pending : p.closed = false → p.pending = t.rows.drop (past.countP Call.isNext)

section After

variable {t : ResultTable} {past : List Call} {p : Probe}

theorem after_start (t : ResultTable) : After t [] (start { table := t }) :=
  ⟨rfl, fun _ => rfl, fun _ => rfl, rfl, fun _ => rfl⟩

theorem After.idle {c : Call} (h : After t past p) (hnext : c.isNext = false)
    (hclose : c.isClose = false) : After t (past ++ [c]) p where
  table := h.table
  onNext := h.onNext
  onClose := h.onClose
  closed := by simpa [hclose] using h.closed
  pending := by simpa [hnext] using h.pending

theorem After.call_next (h : After t past p) :
    t.Replies past .next (p.call .next).1 ∧ After t (past ++ [.next]) (p.call .next).2 := by
  obtain ⟨table, faults, pending, closed, reads, usage⟩ := p
  obtain ⟨rfl, hfaults, hclose, hclosed, hpending⟩ := h
  dsimp only at hfaults hclose hclosed hpending
  have hany : closed = (past ++ [Call.next]).any Call.isClose := by
    simpa [Call.isClose] using hclosed
  simp only [call, Probe.next, hfaults]
  cases closed with
  | true =>
    exact ⟨.nextClosed hclosed.symm, rfl, hfaults, hclose, hany, nofun⟩
  | false =>
    have hdrop := hpending rfl
    have hhead : table.rows[past.countP Call.isNext]? = pending.head? := by
      rw [hdrop, List.head?_drop]
    have htail : table.rows.drop ((past ++ [Call.next]).countP Call.isNext) = pending.tail := by
      rw [hdrop, List.tail_drop, List.countP_append]
      rfl
    have hreply := ResultTable.Replies.next (t := table) hclosed.symm
    rw [hhead] at hreply
    cases pending with
    | nil => exact ⟨hreply, rfl, hfaults, hclose, hany, fun _ => htail.symm⟩
    | cons row rest => exact ⟨hreply, rfl, hfaults, hclose, hany, fun _ => htail.symm⟩

theorem After.replies_contains (h : After t past p) (key : Row) :
    t.Replies past (.contains key) (p.call (.contains key)).1 := by
  have hclosed := h.closed
  simp only [call, Probe.contains, ResultTable.contains, h.table]
  split_ifs with hopen haccess
  · rw [hopen] at hclosed
    exact .containsClosed key hclosed.symm
  · rw [Bool.not_eq_true] at hopen
    rw [hopen] at hclosed
    cases hamong : Row.isAmong key t.rows with
    | true => exact .found hclosed.symm haccess (ResultTable.holds_iff.mp hamong)
    | false =>
      refine .notFound hclosed.symm haccess fun hholds => ?_
      rw [ResultTable.holds_iff.mpr hholds] at hamong
      cases hamong
  · rw [Bool.not_eq_true] at hopen haccess
    rw [hopen] at hclosed
    exact .noRandomAccess key hclosed.symm haccess

theorem After.call_close (h : After t past p) :
    (p.call .close).1 = .done ∧ After t (past ++ [.close]) (p.call .close).2 := by
  simp only [call, Probe.close, h.onClose]
  exact ⟨rfl, h.table, h.onNext, h.onClose, by simp [Call.isClose], nofun⟩

theorem After.step (h : After t past p) (c : Call) :
    t.Replies past c (p.call c).1 ∧ After t (past ++ [c]) (p.call c).2 := by
  cases c with
  | next => exact h.call_next
  | contains key =>
    have hkept : After t past (p.call (.contains key)).2 :=
      ⟨h.table, h.onNext, h.onClose, h.closed, h.pending⟩
    exact ⟨h.replies_contains key, hkept.idle rfl rfl⟩
  | rowCount =>
    refine ⟨?_, h.idle rfl rfl⟩
    rw [call, rowCount, h.table]
    exact .rowCount
  | columnType index =>
    refine ⟨?_, h.idle rfl rfl⟩
    rw [call, columnType, h.table]
    exact .columnType index
  | close =>
    refine ⟨?_, h.call_close.2⟩
    rw [h.call_close.1]
    exact .close
  | isClosed =>
    refine ⟨?_, h.idle rfl rfl⟩
    rw [call, h.closed]
    exact .isClosed

theorem After.trace : ∀ {cs past : List Call} {p : Probe}, After t past p →
    t.Trace past cs (p.calls cs).1
  | [], past, _, _ => .nil past
  | c :: _, _, _, h => .cons (h.step c).1 (h.step c).2.trace

end After

end Probe

/-- A probe that keeps its place among the rows by a number, and an index of the distinct rows from
the first lookup until it is closed. -/
structure IndexedProbe where
  table : ResultTable
  position : Nat := 0
  index : Option (List Row) := none
  closed : Bool := false

namespace IndexedProbe

open Probe (Call Reply)

/-- Files a row, unless a row equal to it is there. -/
def file (index : List Row) (row : Row) : List Row :=
  if Row.isAmong row index then index else index ++ [row]

def distinct (rows : List Row) : List Row :=
  rows.foldl file []

def call (p : IndexedProbe) : Call → Reply × IndexedProbe
  | .next =>
    if p.closed then (.failed .resultClosed, p)
    else
      match p.table.rows[p.position]? with
      | some row => (.row (some row), { p with position := p.position + 1 })
      | none => (.row none, p)
  | .contains key =>
    if p.closed then (.failed .resultClosed, p)
    else if p.table.randomAccess then
      let index := p.index.getD (distinct p.table.rows)
      (.flag (Row.isAmong key index), { p with index := some index })
    else (.failed .noRandomAccess, p)
  | .rowCount => (.count p.table.rows.length, p)
  | .columnType index => (.type (p.table.columnType index), p)
  | .close => (.done, { p with index := none, closed := true })
  | .isClosed => (.flag p.closed, p)

def calls (p : IndexedProbe) : List Call → List Reply × IndexedProbe
  | [] => ([], p)
  | c :: cs =>
    let (reply, p) := p.call c
    let (replies, p) := p.calls cs
    (reply :: replies, p)

section Index

theorem isAmong_file (key : Row) (index : List Row) (row : Row) :
    Row.isAmong key (file index row) = (Row.isAmong key index || row.equals key) := by
  unfold file
  split_ifs with hamong
  · cases hrow : row.equals key with
    | false => rw [Bool.or_false]
    | true =>
      obtain ⟨other, hother, he⟩ := Row.isAmong_iff.mp hamong
      rw [Row.isAmong_iff.mpr ⟨other, hother, Row.equals_trans he hrow⟩, Bool.or_true]
  · rw [Bool.eq_iff_iff, Bool.or_eq_true, Row.isAmong_iff, Row.isAmong_iff]
    simp only [List.mem_append, List.mem_singleton, or_and_right, exists_or, exists_eq_left]

theorem isAmong_foldl_file (key : Row) : ∀ (rows index : List Row),
    Row.isAmong key (rows.foldl file index) = (Row.isAmong key index || Row.isAmong key rows)
  | [], index => by simp [Row.isAmong]
  | row :: rows, index => by
    rw [List.foldl_cons, isAmong_foldl_file key rows, isAmong_file, Bool.or_assoc]
    congr 1
    rw [Bool.eq_iff_iff, Bool.or_eq_true, Row.isAmong_iff, Row.isAmong_iff]
    simp only [List.mem_cons, or_and_right, exists_or, exists_eq_left]

/-- The index has a row equal to the key if the rows have one. -/
theorem isAmong_distinct (key : Row) (rows : List Row) :
    Row.isAmong key (distinct rows) = Row.isAmong key rows := by
  rw [distinct, isAmong_foldl_file]
  rfl

end Index

/-- The two have come equally far, and the index, if there is one, is that of the table. -/
structure Represents (p : IndexedProbe) (q : Probe) : Prop where
  table : q.table = p.table
  onNext : ∀ n, q.faults.onNext n = none
  onClose : ∀ n, q.faults.onClose n = none
  closed : q.closed = p.closed
  pending : q.pending = p.table.rows.drop p.position
  index : ∀ index, p.index = some index → index = distinct p.table.rows

section Represents

variable {p : IndexedProbe} {q : Probe}

theorem represents_start (t : ResultTable) : Represents { table := t } (.start { table := t }) :=
  ⟨rfl, fun _ => rfl, fun _ => rfl, rfl, rfl, nofun⟩

theorem Represents.call_next (h : p.Represents q) :
    (p.call .next).1 = (q.call .next).1 ∧ (p.call .next).2.Represents (q.call .next).2 := by
  obtain ⟨_, position, index, _⟩ := p
  obtain ⟨table, faults, pending, closed, reads, usage⟩ := q
  obtain ⟨rfl, hnext, hclose, rfl, hpending, hindex⟩ := h
  dsimp only at hnext hclose hpending hindex
  have hrow : table.rows[position]? = pending.head? := by rw [hpending, List.head?_drop]
  have hrest : table.rows.drop (position + 1) = pending.tail := by rw [hpending, List.tail_drop]
  simp only [call, Probe.call, Probe.next, hnext, hrow]
  cases closed with
  | true => exact ⟨rfl, rfl, hnext, hclose, rfl, hpending, hindex⟩
  | false =>
    cases pending with
    | nil => exact ⟨rfl, rfl, hnext, hclose, rfl, hpending, hindex⟩
    | cons row rest => exact ⟨rfl, rfl, hnext, hclose, rfl, hrest.symm, hindex⟩

theorem Represents.call_contains (h : p.Represents q) (key : Row) :
    (p.call (.contains key)).1 = (q.call (.contains key)).1 ∧
      (p.call (.contains key)).2.Represents (q.call (.contains key)).2 := by
  have hdistinct : p.index.getD (distinct p.table.rows) = distinct p.table.rows := by
    cases hindex : p.index with
    | none => rfl
    | some index => exact h.index index hindex
  simp only [call, Probe.call, Probe.contains, ResultTable.contains, h.table, h.closed]
  split_ifs
  · exact ⟨rfl, rfl, h.onNext, h.onClose, rfl, h.pending, h.index⟩
  · refine ⟨?_, rfl, h.onNext, h.onClose, rfl, h.pending, ?_⟩
    · rw [hdistinct, isAmong_distinct]
      rfl
    · rintro index ⟨⟩
      exact hdistinct
  · exact ⟨rfl, rfl, h.onNext, h.onClose, rfl, h.pending, h.index⟩

theorem Represents.step (h : p.Represents q) (c : Call) :
    (p.call c).1 = (q.call c).1 ∧ (p.call c).2.Represents (q.call c).2 := by
  cases c with
  | next => exact h.call_next
  | contains key => exact h.call_contains key
  | rowCount =>
    refine ⟨?_, h⟩
    rw [call, Probe.call, Probe.rowCount, h.table]
  | columnType index =>
    refine ⟨?_, h⟩
    rw [call, Probe.call, Probe.columnType, h.table]
  | close =>
    simp only [call, Probe.call, Probe.close, h.onClose]
    refine ⟨rfl, h.table, h.onNext, h.onClose, rfl, h.pending, ?_⟩
    rintro index ⟨⟩
  | isClosed =>
    refine ⟨?_, h⟩
    rw [call, Probe.call, h.closed]

theorem Represents.calls : ∀ {cs : List Call} {p : IndexedProbe} {q : Probe}, p.Represents q →
    (p.calls cs).1 = (q.calls cs).1
  | [], _, _, _ => rfl
  | c :: _, _, _, h => List.cons_eq_cons.mpr ⟨(h.step c).1, (h.step c).2.calls⟩

end Represents

end IndexedProbe

/-- To any calls in any order a probe of a table replies as the list of its rows does, and so does
one that keeps an index of the distinct rows. -/
theorem probe_refines_table (t : ResultTable) (cs : List Probe.Call) :
    t.Trace [] cs ((Probe.start { table := t }).calls cs).1 ∧
      (IndexedProbe.calls { table := t } cs).1 = ((Probe.start { table := t }).calls cs).1 :=
  ⟨(Probe.after_start t).trace, (IndexedProbe.represents_start t).calls⟩

end QuantifiedComparison
