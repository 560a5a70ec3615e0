import QuantifiedComparison.Proofs.Optimized

/-!
# Results of one column

An optimized VALUES list under one declared type gives a table of one column, whose values are NULL
or of that type (`singleColumn_of_run`). Such a table is known by its list of values.
-/

namespace QuantifiedComparison

namespace ResultTable

/-- The first value of each row that has one. -/
def firsts (table : ResultTable) : List Value :=
  table.rows.filterMap List.head?

/-- One column under the type, which can be looked up. -/
structure SingleColumn (table : ResultTable) (t : ColumnType) : Prop where
  types : table.types = [t]
  randomAccess : table.randomAccess = true
  rows : table.rows = table.firsts.map ([·])
  fits : ∀ w ∈ table.firsts, w.Fits t

theorem SingleColumn.columnType {table : ResultTable} {t : ColumnType}
    (h : table.SingleColumn t) : table.columnType 0 = t := by
  rw [ResultTable.columnType, h.types]
  rfl

theorem SingleColumn.firsts_ne_nil {table : ResultTable} {t : ColumnType}
    (h : table.SingleColumn t) (hne : table.rows ≠ []) : table.firsts ≠ [] := by
  intro hnil
  rw [h.rows, hnil] at hne
  exact hne rfl

theorem SingleColumn.contains {table : ResultTable} {t : ColumnType} (h : table.SingleColumn t)
    (v : Value) : table.contains [v] = .ok (v.isAmong table.firsts) := by
  rw [ResultTable.contains, if_pos h.randomAccess]
  conv_lhs => rw [h.rows]
  rw [Row.isAmong_single]

end ResultTable

namespace ValuesPlan

theorem evalCell_ok_iff {ctx : Context} {cell : Expr} {type : ColumnType} {w : Value} :
    evalCell ctx cell type = .ok w ↔ ∃ v, cell.eval ctx = .ok v ∧ v.convert type = .ok w := by
  rw [evalCell]
  rcases cell.eval ctx with e | v
  · exact ⟨nofun, nofun⟩
  · exact ⟨fun h => ⟨v, rfl, h⟩, fun ⟨v, hv, h⟩ => by cases hv; exact h⟩

theorem evalRow_single {ctx : Context} {t : ColumnType} {cells : List Expr} {row : Row}
    (hcells : cells.length = 1) (h : evalRow ctx [t] cells = .ok row) :
    ∃ w : Value, w.Fits t ∧ row = [w] := by
  obtain ⟨cell, rfl⟩ := List.length_eq_one_iff.mp hcells
  obtain ⟨w, ws, hw, hnil, rfl⟩ := mapM_cons_ok_iff.mp h
  obtain rfl : [] = ws := Except.ok.inj hnil
  obtain ⟨v, -, hconvert⟩ := evalCell_ok_iff.mp hw
  exact ⟨w, Value.fits_of_convert hconvert, rfl⟩

theorem eq_map_head : ∀ {rows : List Row}, (∀ row ∈ rows, ∃ w, row = [w]) →
    rows = (rows.filterMap List.head?).map ([·])
  | [], _ => rfl
  | row :: rows, h => by
    obtain ⟨⟨w, rfl⟩, hrows⟩ := List.forall_mem_cons.mp h
    exact congrArg ([w] :: ·) (eq_map_head hrows)

theorem run_ok_iff {q : ValuesPlan} (h : q.prepared = true) {ctx : Context}
    {table : ResultTable} : q.run ctx = .ok table ↔
      q.rows.mapM (evalRow ctx q.types) = .ok table.rows ∧ table.types = q.types ∧
        table.randomAccess = q.randomAccess := by
  rw [run, h]
  rcases q.rows.mapM (evalRow ctx q.types) with e | rows
  · exact ⟨nofun, nofun⟩
  constructor
  · intro h
    cases h
    exact ⟨rfl, rfl, rfl⟩
  · obtain ⟨types, rows', access⟩ := table
    rintro ⟨hrows, rfl, rfl⟩
    cases hrows
    rfl

theorem Ready.run {q : ValuesPlan} {t : ColumnType} (h : q.Ready) (ht : q.types = [t])
    {ctx : Context} {table : ResultTable} (hrun : q.run ctx = .ok table) :
    table.SingleColumn t := by
  obtain ⟨hrows, htypes, haccess⟩ := (run_ok_iff h.prepared).mp hrun
  have hsingle : ∀ row ∈ table.rows, ∃ w : Value, w.Fits t ∧ row = [w] := by
    intro row hrow
    obtain ⟨cells, hcells, heval⟩ := mem_of_mapM_ok hrows hrow
    rw [ht] at heval
    exact evalRow_single (h.rows cells hcells) heval
  refine ⟨htypes.trans ht, haccess.trans h.randomAccess, ?_, ?_⟩
  · refine eq_map_head fun row hrow => ?_
    obtain ⟨w, -, hw⟩ := hsingle row hrow
    exact ⟨w, hw⟩
  · intro w hw
    obtain ⟨row, hrow, hhead⟩ := List.mem_filterMap.mp hw
    obtain ⟨v, hv, rfl⟩ := hsingle row hrow
    obtain rfl := Option.some.inj hhead
    exact hv

end ValuesPlan

/-- A run of an optimized VALUES list of one type gives one column of that type. -/
theorem Plan.Optimized.singleColumn_of_run {q : ValuesPlan} {t : ColumnType}
    (h : Optimized (.values q)) (ht : q.types = [t]) {ctx : Context} {table : ResultTable}
    (hrun : q.run ctx = .ok table) : table.SingleColumn t :=
  ValuesPlan.Ready.run h.ready ht hrun

namespace ValuesPlan

/-- One column of literals as an optimization leaves it. -/
def literals (name : String) (t : ColumnType) (ws : List Value) : ValuesPlan :=
  { ofValues name t ws with randomAccess := true, prepared := true }

theorem foldRows_literals (first : Nat) (ws : List Value) :
    foldRows 1 first (ws.map fun w => [.literal w]) = ⟨ws.map fun w => [.literal w], none⟩ := by
  induction ws generalizing first with
  | nil => rfl
  | cons w ws ih =>
    rw [List.map_cons, foldRows, if_neg (by simp)]
    dsimp only [Attempt.each, Expr.fold, Attempt.map]
    rw [ih]

theorem optimize_ofValues (name : String) (t : ColumnType) (ws : List Value) :
    (Predicate.isIn (.literal .null) 0).optimize (.values (ofValues name t ws))
      = ⟨(.isIn (.literal .null) 0, .values (literals name t ws)), none⟩ := by
  have hprepare : (Plan.setRandomAccess true (.values (ofValues name t ws))).prepare
      = ⟨.values (literals name t ws), none⟩ := by
    dsimp only [Plan.setRandomAccess, Plan.prepare, prepare, ofValues, List.length_singleton]
    rw [foldRows_literals]
    rfl
  simp only [Predicate.optimize, Predicate.isIn, Expr.fold, hprepare]
  rfl

theorem optimized_literals (name : String) (t : ColumnType) (ws : List Value) :
    Plan.Optimized (.values (literals name t ws)) := by
  have herror := congrArg Attempt.error (optimize_ofValues name t ws)
  have hoptimized := Plan.Optimized.optimize herror
  rw [optimize_ofValues] at hoptimized
  exact hoptimized

theorem run_literals (name : String) {t : ColumnType} {ws : List Value}
    (h : ∀ w ∈ ws, w.Fits t) (ctx : Context) :
    (literals name t ws).run ctx
      = .ok { types := [t], rows := ws.map ([·]), randomAccess := true } := by
  refine (run_ok_iff rfl).mpr ⟨?_, rfl, rfl⟩
  show (ws.map fun w => [Expr.literal w]).mapM (evalRow ctx [t]) = .ok (ws.map ([·]))
  rw [List.mapM_map]
  refine mapM_eq_map fun w hw => mapM_ok_iff.mpr (.cons ?_ .nil)
  exact Value.convert_fitting (h w hw)

end ValuesPlan

end QuantifiedComparison
