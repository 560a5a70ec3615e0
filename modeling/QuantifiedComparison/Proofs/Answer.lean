import QuantifiedComparison.Proofs.Scan

/-!
# The answer of a predicate

What comes of evaluating a predicate over a VALUES list: over no rows what its quantifier says,
for a NULL on the left NULL, and otherwise what its strategy makes of the left value and of the
values of the list (`evaluate_value`). Neither the registry nor the label of the run matters.
-/

namespace QuantifiedComparison

theorem Probe.contains_single {p : Probe} {t : ColumnType} (hp : p.closed = false)
    (h : p.table.SingleColumn t) (v : Value) :
    p.contains [v] = (.ok (v.isAmong p.table.firsts),
      { p with usage := { p.usage with lookups := p.usage.lookups + 1 } }) := by
  rw [contains, hp, h.contains]
  rfl

namespace Predicate

/-- What a lookup among the values says. -/
def lookupTruth (left : Value) (t : ColumnType) (ws : List Value) : Except Error Truth :=
  (lookupKey left t).map fun key => .ofSearch (key.any (·.isAmong ws)) (ws.any (·.isNull))

theorem lookupNull_fst {probe : Probe} {t : ColumnType} (hopen : probe.closed = false)
    (h : probe.table.SingleColumn t) :
    (lookupNull probe).1 = .ok (.ofSearch false (probe.table.firsts.any (·.isNull))) := by
  rw [lookupNull, Probe.contains_single hopen h, Value.isAmong_null]
  rfl

theorem lookup_fst (left : Value) {probe : Probe} {t : ColumnType} (hopen : probe.closed = false)
    (h : probe.table.SingleColumn t) (ht : t ≠ .null) :
    (lookup left probe).1 = lookupTruth left t probe.table.firsts := by
  unfold lookup lookupTruth
  rw [show probe.columnType 0 = t from h.columnType, if_neg ht]
  rcases lookupKey left t with e | _ | key
  · rfl
  · exact lookupNull_fst hopen h
  · dsimp only
    rw [Probe.contains_single hopen h]
    cases hkey : key.isAmong probe.table.firsts with
    | true =>
      rw [Except.map, Option.any_some, hkey]
      rfl
    | false =>
      rw [Except.map, Option.any_some, hkey]
      exact lookupNull_fst hopen h

/-- What the strategy makes of a value and the values of the query. -/
def truthOver (p : Predicate) (s : Settings) (left : Value) (t : ColumnType) (ws : List Value) :
    Except Error Truth :=
  match p.strategy s with
  | .scan => (operand left t).bind (p.scanTruth s.nullRows · ws)
  | .lookup => lookupTruth left t ws

section Evaluate

variable {p : Predicate} {q : ValuesPlan} {ctx : Context} {table : ResultTable}

theorem evaluate_of_run (registry : Registry) (h : q.run ctx = .ok table) :
    (p.evaluate (.values q) ctx registry).outcome = (p.answer ctx (.start { table })).1 := by
  rw [evaluate, Plan.withProbe, Plan.run, h]
  rfl

theorem evaluate_empty {v : Value} (registry : Registry) (h : q.run ctx = .ok table)
    (hleft : p.left.eval ctx = .ok v) (hrows : table.rows = []) :
    (p.evaluate (.values q) ctx registry).outcome = .ok (.boolean p.quantifier.vacuous) := by
  have hcount : (Probe.start { table }).rowCount = 0 := congrArg List.length hrows
  rw [evaluate_of_run registry h, answer, hleft]
  dsimp only
  rw [if_pos hcount]

theorem evaluate_null (registry : Registry) (h : q.run ctx = .ok table)
    (hleft : p.left.eval ctx = .ok .null) (hrows : table.rows ≠ []) :
    (p.evaluate (.values q) ctx registry).outcome = .ok .null := by
  have hcount : (Probe.start { table }).rowCount ≠ 0 :=
    fun h => hrows (List.length_eq_zero_iff.mp h)
  rw [evaluate_of_run registry h, answer, hleft]
  dsimp only
  rw [if_neg hcount]
  rfl

theorem evaluate_value {v : Value} {t : ColumnType} (registry : Registry)
    (h : q.run ctx = .ok table) (htable : table.SingleColumn t) (ht : t ≠ .null)
    (hleft : p.left.eval ctx = .ok v) (hv : v ≠ .null) (hrows : table.rows ≠ []) :
    (p.evaluate (.values q) ctx registry).outcome
      = (p.truthOver ctx.settings v t table.firsts).map Truth.toValue := by
  have hcount : (Probe.start { table }).rowCount ≠ 0 :=
    fun h => hrows (List.length_eq_zero_iff.mp h)
  rw [evaluate_of_run registry h, answer, hleft]
  dsimp only
  rw [if_neg hcount, Value.isNull_eq_false_iff.mpr hv, if_neg Bool.false_ne_true, truthOver]
  cases p.strategy ctx.settings with
  | scan =>
    dsimp only
    rw [scan_start p _ v htable]
  | lookup =>
    dsimp only
    rw [lookup_fst v rfl htable ht]
    rfl

end Evaluate

end Predicate

end QuantifiedComparison
