import QuantifiedComparison.Proofs.Scan
import QuantifiedComparison.TableFilter.Restriction

/-!
# The values an index is probed with

An index condition collects the values of its query, leaving out NULLs and values it has already. A
value that is not NULL is among the collected ones exactly when it is among those of the query
(`isAmong_collected`).
-/

namespace QuantifiedComparison

namespace IndexCondition

theorem collect_null (values : List Value) : collect values [.null] = values :=
  rfl

theorem collect_value (values : List Value) {w : Value} (hw : w ≠ .null) :
    collect values [w] = if w.isAmong values then values else values ++ [w] := by
  rw [collect, Predicate.datum?_value hw]

/-- Collecting a value adds what equals it, and nothing else that matters. -/
theorem isAmong_collect {v : Value} (hv : v ≠ .null) (values : List Value) (w : Value) :
    v.isAmong (collect values [w]) = (v.isAmong values || w.equals v) := by
  by_cases hw : w = .null
  · subst hw
    rw [collect_null, Value.null_equals hv, Bool.or_false]
  rw [collect_value values hw]
  split_ifs with hamong
  · cases hwv : w.equals v with
    | false => rw [Bool.or_false]
    | true =>
      obtain ⟨u, hu, huw⟩ := Value.isAmong_iff.mp hamong
      rw [Value.isAmong_iff.mpr ⟨u, hu, Value.equals_trans huw hwv⟩, Bool.or_true]
  · rw [← Value.any_equals, ← Value.any_equals, List.any_append, List.any_cons, List.any_nil,
      Bool.or_false]

/-- The values collected from the values of a query. -/
def collected (ws : List Value) : List Value :=
  (ws.map ([·])).foldl collect []

theorem isAmong_foldl_collect {v : Value} (hv : v ≠ .null) (values ws : List Value) :
    v.isAmong ((ws.map ([·])).foldl collect values) = (v.isAmong values || v.isAmong ws) := by
  induction ws generalizing values with
  | nil => simp [Value.isAmong]
  | cons w ws ih =>
    rw [List.map_cons, List.foldl_cons, ih, isAmong_collect hv, Bool.or_assoc,
      ← Value.any_equals v (w :: ws), List.any_cons, Value.any_equals]

theorem isAmong_collected {v : Value} (hv : v ≠ .null) (ws : List Value) :
    v.isAmong (collected ws) = v.isAmong ws := by
  rw [collected, isAmong_foldl_collect hv]
  rfl

theorem mem_foldl_collect {v : Value} {values ws : List Value}
    (h : v ∈ (ws.map ([·])).foldl collect values) : v ∈ values ∨ v ∈ ws := by
  induction ws generalizing values with
  | nil => exact .inl h
  | cons w ws ih =>
    rw [List.map_cons, List.foldl_cons] at h
    rcases ih h with h | h
    · by_cases hw : w = .null
      · subst hw
        exact .inl h
      · rw [collect_value values hw] at h
        split_ifs at h
        · exact .inl h
        · rcases List.mem_append.mp h with h | h
          · exact .inl h
          · exact .inr (List.mem_singleton.mp h ▸ List.mem_cons_self)
    · exact .inr (List.mem_cons_of_mem _ h)

theorem mem_of_mem_collected {v : Value} {ws : List Value} (h : v ∈ collected ws) : v ∈ ws :=
  (mem_foldl_collect h).resolve_left nofun

theorem probeValues_of_run {q : ValuesPlan} {t : ColumnType} {ctx : Context} {table : ResultTable}
    (h : q.run ctx = .ok table) (htable : table.SingleColumn t) (registry : Registry) :
    (probeValues (.values q) ctx registry).outcome = .ok (collected table.firsts) := by
  rw [probeValues, Plan.withProbe, Plan.run, h]
  refine (Probe.consume_eq_forIn _ [] (Probe.readable_start table) htable.rows).trans ?_
  exact List.forIn_pure_yield_eq_foldl ..

/-- Values that fit the column are probed as they are. -/
theorem keys_of_fits {t : ColumnType} {values : List Value} (h : ∀ v ∈ values, v.Fits t) :
    keys t values = .ok values := by
  refine (mapM_eq_map (g := id) fun v hv => Value.convert_fitting (h v hv)).trans ?_
  rw [List.map_id]

end IndexCondition

end QuantifiedComparison
