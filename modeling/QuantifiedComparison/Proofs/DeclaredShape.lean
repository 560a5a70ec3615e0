import QuantifiedComparison.Proofs.LastingReadiness

/-!
# The shape of a result

A VALUES list starts with its columns, and is given rows, bound, marked, set to random access and
prepared in any order. It can be run if and only if it has been prepared since the last row was
added (`prepared_edited_iff`), and then its rows are as wide as it has columns (`vouched_edited`). A
run comes to the error of the first cell, row by row, that has none of its column's values, or to a
table with the value of each cell in the place of the cell (`run_has_declared_shape`).
-/

namespace QuantifiedComparison.ValuesPlan

/-- What can be done to a VALUES list. -/
inductive Edit
  | addRow (row : List Expr)
  | bind (s : Scope) (level : QueryLevel)
  | setRandomAccess (flag : Bool)
  | prepare
  | mark (filter : Nat) (flag : Bool)

def Edit.apply : Edit → ValuesPlan → ValuesPlan
  | addRow row, q => q.addRow row
  | bind s level, q => (q.bind s level).after
  | setRandomAccess flag, q => { q with randomAccess := flag }
  | prepare, q => q.prepare.after
  | mark filter flag, q => q.mark filter flag

def Edit.addsRow : Edit → Bool
  | addRow _ => true
  | _ => false

/-- A list of these columns after the edits, each of which may have been stopped half-way. -/
def edited (columns : List (String × ColumnType)) (edits : List Edit) : ValuesPlan :=
  edits.foldl (fun q e => e.apply q) { columns }

/-- A preparation went through, and no row was added after it. -/
def PreparedSince (columns : List (String × ColumnType)) (edits : List Edit) : Prop :=
  ∃ before after, edits = before ++ .prepare :: after ∧
    (edited columns before).prepare.error = none ∧ ∀ e ∈ after, e.addsRow = false

section Edits

variable {columns : List (String × ColumnType)} {edits : List Edit} {q : ValuesPlan} {e : Edit}

theorem edited_concat : edited columns (edits ++ [e]) = e.apply (edited columns edits) := by
  rw [edited, List.foldl_concat]
  rfl

theorem preparedSince_concat : PreparedSince columns (edits ++ [e]) ↔
    (e = .prepare ∧ (edited columns edits).prepare.error = none) ∨
      (e.addsRow = false ∧ PreparedSince columns edits) := by
  constructor
  · rintro ⟨before, after, heq, herror, hafter⟩
    rcases List.eq_nil_or_concat' after with rfl | ⟨after, last, rfl⟩
    · obtain ⟨rfl, hlast⟩ := List.append_inj' heq rfl
      exact .inl ⟨List.singleton_inj.mp hlast, herror⟩
    · rw [← List.cons_append, ← List.append_assoc] at heq
      obtain ⟨rfl, hlast⟩ := List.append_inj' heq rfl
      obtain rfl := List.singleton_inj.mp hlast
      obtain ⟨hkept, hlast⟩ := List.forall_mem_append.mp hafter
      exact .inr ⟨hlast e (List.mem_singleton_self e), before, after, rfl, herror, hkept⟩
  · rintro (⟨rfl, herror⟩ | ⟨hrow, before, after, rfl, herror, hafter⟩)
    · exact ⟨edits, [], rfl, herror, nofun⟩
    · refine ⟨before, after ++ [e], by simp, herror, List.forall_mem_append.mpr ⟨hafter, ?_⟩⟩
      exact List.forall_mem_singleton.mpr hrow

theorem columns_apply (e : Edit) (q : ValuesPlan) : (e.apply q).columns = q.columns := by
  cases e with
  | prepare => exact q.columns_prepare
  | _ => rfl

theorem prepared_apply : (e.apply q).prepared = true ↔
    (e = .prepare ∧ q.prepare.error = none) ∨ (e.addsRow = false ∧ q.prepared = true) := by
  cases e with
  | addRow row => simp [Edit.apply, Edit.addsRow, addRow]
  | prepare =>
    rcases herror : q.prepare.error with _ | error
    · simp [Edit.apply, prepare_of_error herror]
    · have hflag : q.prepare.after.prepared = q.prepared := by
        rw [error_prepare] at herror
        simp only [ValuesPlan.prepare, herror]
      simp [Edit.apply, Edit.addsRow, hflag]
  | bind s level => simp [Edit.apply, Edit.addsRow, bind, Attempt.map]
  | setRandomAccess flag => simp [Edit.apply, Edit.addsRow]
  | mark filter flag => simp [Edit.apply, Edit.addsRow, mark]

/-- The flag of a prepared list vouches for the width of its rows. -/
def Vouched (q : ValuesPlan) : Prop :=
  q.prepared = true → ∀ row ∈ q.rows, row.length = q.columns.length

theorem Vouched.apply (h : q.Vouched) (e : Edit) : (e.apply q).Vouched := by
  intro hprepared
  rw [columns_apply]
  rcases prepared_apply.mp hprepared with ⟨rfl, herror⟩ | ⟨hrow, hflag⟩
  · exact width_prepare fun row hrow => (prepare_error_eq_none_iff.mp herror row hrow).1
  · have hwidth := h hflag
    cases e with
    | addRow row => cases hrow
    | prepare => exact width_prepare hwidth
    | bind s level => exact width_bind hwidth s level
    | setRandomAccess flag => exact hwidth
    | mark filter flag => exact width_mark hwidth filter flag

theorem columns_edited : (edited columns edits).columns = columns := by
  induction edits using List.reverseRecOn with
  | nil => rfl
  | append_singleton edits e ih => rw [edited_concat, columns_apply, ih]

theorem prepared_edited_iff :
    (edited columns edits).prepared = true ↔ PreparedSince columns edits := by
  induction edits using List.reverseRecOn with
  | nil =>
    refine iff_of_false nofun ?_
    rintro ⟨before, after, heq, -⟩
    cases before <;> cases heq
  | append_singleton edits e ih =>
    rw [edited_concat, prepared_apply, preparedSince_concat, ih]

theorem vouched_edited : (edited columns edits).Vouched := by
  induction edits using List.reverseRecOn with
  | nil => exact nofun
  | append_singleton edits e ih =>
    rw [edited_concat]
    exact ih.apply e

end Edits

/-- The cell in this place, with the type of its column. -/
def cell? (q : ValuesPlan) (i j : Nat) : Option (Expr × ColumnType) := do
  let cell ← (← q.rows[i]?)[j]?
  let column ← q.columns[j]?
  return (cell, column.2)

/-- The error is that of a cell whose value cannot be had or does not convert, and no cell of an
earlier row or further left in its own row has one. -/
def FailsFirst (q : ValuesPlan) (ctx : Context) (error : Error) : Prop :=
  ∃ i j cell type, q.cell? i j = some (cell, type) ∧
    (cell.eval ctx = .error error ∨ ∃ v, cell.eval ctx = .ok v ∧ v.convert type = .error error) ∧
    ∀ i' j' cell' type', i' < i ∨ (i' = i ∧ j' < j) → q.cell? i' j' = some (cell', type') →
      ∃ v w, cell'.eval ctx = .ok v ∧ v.convert type' = .ok w

/-- The probe gives one row for each row of the list and one value for each cell, which is the cell's
own under the type of its column. -/
structure Shaped (q : ValuesPlan) (ctx : Context) (p : Probe) : Prop where
  rowCount : p.rowCount = q.rows.length
  reads : p.toRows.1 = .ok p.table.rows
  width : ∀ row ∈ p.table.rows, row.length = q.columns.length
  values : ∀ i j cell type, q.cell? i j = some (cell, type) →
    ∃ row v w, p.table.rows[i]? = some row ∧ row[j]? = some w ∧ cell.eval ctx = .ok v ∧
      v.convert type = .ok w ∧ (w = .null ∨ (w.type = type ∧ type ≠ .null))
  columnType : ∀ j, p.columnType j = (q.columns[j]?.map (·.2)).getD .null

section Run

variable {q : ValuesPlan} {ctx : Context} {cell : Expr} {type : ColumnType}

theorem cell?_eq_some_iff {i j : Nat} : q.cell? i j = some (cell, type) ↔
    ∃ row, q.rows[i]? = some row ∧ (row.zip q.types)[j]? = some (cell, type) := by
  simp only [cell?, types, Option.bind_eq_bind, Option.pure_def, Option.bind_eq_some_iff,
    List.getElem?_zip_eq_some, List.getElem?_map, Option.map_eq_some_iff, Option.some.injEq,
    Prod.mk.injEq]
  constructor
  · rintro ⟨row, hrow, cell, hcell, ⟨name, type⟩, hcolumn, rfl, rfl⟩
    exact ⟨row, hrow, hcell, _, hcolumn, rfl⟩
  · rintro ⟨row, hrow, hcell, column, hcolumn, rfl⟩
    exact ⟨row, hrow, cell, hcell, column, hcolumn, rfl, rfl⟩

theorem evalCell_error_iff {error : Error} : evalCell ctx cell type = .error error ↔
    cell.eval ctx = .error error ∨ ∃ v, cell.eval ctx = .ok v ∧ v.convert type = .error error := by
  rw [evalCell]
  rcases cell.eval ctx with e | v
  · refine ⟨.inl, ?_⟩
    rintro (h | ⟨v, hv, -⟩)
    · exact h
    · cases hv
  · refine ⟨fun h => .inr ⟨v, rfl, h⟩, ?_⟩
    rintro (h | ⟨v, hv, h⟩)
    · cases h
    · cases hv
      exact h

theorem failsFirst_of_run {error : Error} (hprepared : q.prepared = true)
    (h : q.run ctx = .error error) : q.FailsFirst ctx error := by
  rw [run_of_prepared hprepared, evaluate] at h
  rcases hrows : q.rows.mapM (evalRow ctx q.types) with e | rows
  · rw [hrows] at h
    obtain rfl := Except.error.inj h
    obtain ⟨i, row, hrow, hfails, hbefore⟩ := exists_of_mapM_error hrows
    obtain ⟨j, ⟨cell, type⟩, hcell, hcellFails, hleft⟩ := exists_of_mapM_error hfails
    refine ⟨i, j, cell, type, cell?_eq_some_iff.mpr ⟨row, hrow, hcell⟩,
      evalCell_error_iff.mp hcellFails, fun i' j' cell' type' hearlier hcell' => ?_⟩
    obtain ⟨row', hrow', hcell'⟩ := cell?_eq_some_iff.mp hcell'
    -- the rows before were evaluated whole, and this one up to the cell that fails
    obtain ⟨w, hw⟩ : ∃ w, evalCell ctx cell' type' = .ok w := by
      rcases hearlier with hi | ⟨rfl, hj⟩
      · obtain ⟨values, hvalues⟩ := hbefore i' hi row' hrow'
        obtain ⟨w, -, hw⟩ := getElem?_of_mapM_ok hvalues hcell'
        exact ⟨w, hw⟩
      · obtain rfl := Option.some.inj (hrow.symm.trans hrow')
        exact hleft j' hj _ hcell'
    obtain ⟨v, hv, hconvert⟩ := evalCell_ok_iff.mp hw
    exact ⟨v, w, hv, hconvert⟩
  · rw [hrows] at h
    cases h

theorem shaped_of_run {table : ResultTable} (hprepared : q.prepared = true)
    (hwidth : ∀ row ∈ q.rows, row.length = q.columns.length) (h : q.run ctx = .ok table) :
    q.Shaped ctx (.start { table }) := by
  obtain ⟨hrows, htypes, -⟩ := (run_ok_iff hprepared).mp h
  refine ⟨length_of_mapM_ok hrows, Probe.toRows_start table, fun row hrow => ?_,
    fun i j cell type hcell => ?_, fun j => ?_⟩
  · obtain ⟨cells, hcells, heval⟩ := mem_of_mapM_ok hrows hrow
    have hlength : row.length = (cells.zip q.types).length := length_of_mapM_ok heval
    rw [hlength, List.length_zip, types, List.length_map, hwidth cells hcells, min_self]
  · obtain ⟨cells, hcells, hcell⟩ := cell?_eq_some_iff.mp hcell
    obtain ⟨row, hrow, heval⟩ := getElem?_of_mapM_ok hrows hcells
    obtain ⟨w, hw, hvalue⟩ := getElem?_of_mapM_ok heval hcell
    obtain ⟨v, hv, hconvert⟩ := evalCell_ok_iff.mp hvalue
    refine ⟨row, v, w, hrow, hw, hv, hconvert, ?_⟩
    rcases Value.fits_of_convert hconvert with rfl | rfl
    · exact .inl rfl
    · by_cases hnull : w = .null
      · exact .inl hnull
      · exact .inr ⟨rfl, fun htype => hnull (Value.type_eq_null_iff.mp htype)⟩
  · show table.types[j]?.getD .null = _
    rw [htypes, types, List.getElem?_map]

/-- A list that can be run never answers that it cannot. -/
theorem run_ne_notPrepared (hprepared : q.prepared = true) : q.run ctx ≠ .error .notPrepared := by
  intro h
  have htimely : Timely (q.run ctx) :=
    failsWith_run Error.not_untimely_of_ofValues (fun c _ => c.timely_eval ctx)
      (.inl hprepared)
  cases htimely .notPrepared h

end Run

/-- A list answers that it is not prepared exactly if it has not been prepared since its last row was
added. Otherwise it gives rows of the declared width and types, or the error of the first cell that
keeps it from doing so. -/
theorem run_has_declared_shape (columns : List (String × ColumnType)) (edits : List Edit)
    (ctx : Context) :
    let q := edited columns edits
    q.columns = columns ∧
      (q.run ctx = .error .notPrepared ↔ ¬PreparedSince columns edits) ∧
      (q.run ctx = .error .notPrepared ∨
        (∃ error, q.run ctx = .error error ∧ q.FailsFirst ctx error) ∨
        ∃ table, (Plan.values q).run ctx = .ok { table } ∧ q.Shaped ctx (.start { table })) := by
  intro q
  refine ⟨columns_edited, ?_⟩
  rw [← prepared_edited_iff]
  rcases hflag : (edited columns edits).prepared with _ | _
  · have hrun : q.run ctx = .error .notPrepared := run_of_not_prepared hflag
    exact ⟨iff_of_true hrun nofun, .inl hrun⟩
  · refine ⟨iff_of_false (run_ne_notPrepared hflag) fun h => h rfl, .inr ?_⟩
    rcases hrun : q.run ctx with error | table
    · exact .inl ⟨error, rfl, failsFirst_of_run hflag hrun⟩
    · refine .inr ⟨table, ?_, shaped_of_run hflag (vouched_edited hflag) hrun⟩
      rw [Plan.run, hrun]
      rfl

end QuantifiedComparison.ValuesPlan
