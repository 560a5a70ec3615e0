import QuantifiedComparison.Proofs.ConvertedKeys
import QuantifiedComparison.Proofs.Release

/-!
# A filter is the conjunction of its conditions

An index condition reads the first value of every row that a run of its query gives. It looks only
at the fresh ones, those that are not NULL and equal none before (`mem_collected_iff`): it fails as
the run or a read does, or as the first fresh value that does not convert to the column's type
(`keysOf_error_iff`), and otherwise lets through the rows whose value in the column equals the
conversion of a fresh value (`admits_iff`).

A filter fails as the first of its conditions that fails, and otherwise keeps, in order, the rows
that all of them let through (`restrict_is_conjunction`). Values that are equal may differ in their
conversions, as the two zeros do as texts, and then the fresh one alone counts
(`restrict_by_fresh_zero`).
-/

namespace QuantifiedComparison

/-- The first value of each row that a run of the plan gives, if all of them can be read. -/
def Plan.firsts (plan : Plan) (ctx : Context) : Except Error (List Value) := do
  let response ← plan.run ctx
  let rows ← (Probe.start response).toRows.1
  return rows.filterMap List.head?

/-- Reading rows into something is reading all rows first. -/
theorem Probe.consume_yield {σ : Type} (step : σ → Row → σ) (s : σ) :
    ∀ (p : Probe) (before : List Row),
      (p.consume (fun s row => .ok (.yield (step s row))) (before.foldl step s)).1
        = (p.consume (fun rows row => .ok (.yield (rows ++ [row]))) before).1.map
          (·.foldl step s) := by
  intro p before
  induction before, p using consume.induct (fun rows row => .ok (.yield (rows ++ [row]))) with
  | case1 before p e q h => rw [consume_error _ _ h, consume_error _ _ h]; rfl
  | case2 before p q h => rw [consume_none _ _ h, consume_none _ _ h]; rfl
  | case3 before p row q h e hstep => cases hstep
  | case4 before p row q h t hstep => cases hstep
  | case5 before p row q h t hstep ih =>
    obtain rfl : before ++ [row] = t := ForInStep.yield.inj (Except.ok.inj hstep)
    rw [consume_some _ _ h, consume_some _ _ h]
    rw [List.foldl_append] at ih
    exact ih

namespace IndexCondition

/-- The value is not NULL, and equals none before it. -/
def Fresh (ws : List Value) (i : Nat) (w : Value) : Prop :=
  ws[i]? = some w ∧ w ≠ .null ∧ ∀ j < i, ∀ u, ws[j]? = some u → u.equals w = false

section Collected

variable {ws : List Value}

theorem collected_concat (w : Value) : collected (ws ++ [w]) = collect (collected ws) [w] := by
  rw [collected, List.map_append, List.foldl_append]
  rfl

theorem foldl_collect_firsts (rows : List Row) (values : List Value) :
    rows.foldl collect values = ((rows.filterMap List.head?).map ([·])).foldl collect values := by
  induction rows generalizing values with
  | nil => rfl
  | cons row rows ih =>
    cases row with
    | nil => exact ih values
    | cons w rest => exact ih (collect values [w])

theorem isAmong_eq_false_iff {w : Value} :
    w.isAmong ws = false ↔ ∀ j < ws.length, ∀ u, ws[j]? = some u → u.equals w = false := by
  rw [← Bool.not_eq_true, Value.isAmong_iff]
  constructor
  · intro h j _ u hu
    rw [← Bool.not_eq_true]
    exact fun heq => h ⟨u, List.mem_of_getElem? hu, heq⟩
  · rintro h ⟨u, hu, heq⟩
    obtain ⟨j, hj, hget⟩ := List.mem_iff_getElem.mp hu
    rw [h j hj u (by rw [List.getElem?_eq_getElem hj, hget])] at heq
    cases heq

theorem Fresh.lt {i : Nat} {v : Value} (h : Fresh ws i v) : i < ws.length :=
  (List.getElem?_eq_some_iff.mp h.1).1

theorem fresh_concat_of_lt {w v : Value} {i : Nat} (hi : i < ws.length) :
    Fresh (ws ++ [w]) i v ↔ Fresh ws i v := by
  have hget : ∀ j ≤ i, (ws ++ [w])[j]? = ws[j]? := fun j hj =>
    List.getElem?_append_left (by omega)
  rw [Fresh, Fresh, hget i le_rfl]
  refine and_congr_right fun _ => and_congr_right fun _ => forall₂_congr fun j hj => ?_
  rw [hget j hj.le]

theorem fresh_concat_length {w v : Value} :
    Fresh (ws ++ [w]) ws.length v ↔ v = w ∧ w ≠ .null ∧ w.isAmong ws = false := by
  have hget : ∀ j < ws.length, (ws ++ [w])[j]? = ws[j]? := fun j hj =>
    List.getElem?_append_left hj
  rw [Fresh, List.getElem?_concat_length, Option.some.injEq, isAmong_eq_false_iff, eq_comm]
  refine and_congr_right fun heq => ?_
  obtain rfl := heq
  refine and_congr_right fun _ => forall₂_congr fun j hj => ?_
  rw [hget j hj]

theorem fresh_concat {w v : Value} {i : Nat} : Fresh (ws ++ [w]) i v ↔
    Fresh ws i v ∨ i = ws.length ∧ v = w ∧ w ≠ .null ∧ w.isAmong ws = false := by
  constructor
  · intro h
    have hi : i < ws.length ∨ i = ws.length := by
      have hlt := h.lt
      rw [List.length_append, List.length_singleton] at hlt
      omega
    rcases hi with hi | rfl
    · exact .inl ((fresh_concat_of_lt hi).mp h)
    · exact .inr ⟨rfl, fresh_concat_length.mp h⟩
  · rintro (h | ⟨rfl, h⟩)
    · exact (fresh_concat_of_lt h.lt).mpr h
    · exact fresh_concat_length.mpr h

/-- Collecting one more value keeps it if it is fresh. -/
theorem collected_concat_cases (ws : List Value) (w : Value) :
    collected (ws ++ [w]) = collected ws ++ [w] ∧
        (∀ i v, Fresh (ws ++ [w]) i v ↔ Fresh ws i v ∨ i = ws.length ∧ v = w) ∨
      collected (ws ++ [w]) = collected ws ∧ ∀ i v, Fresh (ws ++ [w]) i v ↔ Fresh ws i v := by
  rw [collected_concat]
  by_cases hw : w = .null
  · obtain rfl := hw
    exact .inr ⟨rfl, fun i v => by simp [fresh_concat]⟩
  rw [collect_value _ hw, isAmong_collected hw]
  cases hamong : w.isAmong ws with
  | true => exact .inr ⟨rfl, fun i v => by simp [fresh_concat, hamong]⟩
  | false => exact .inl ⟨rfl, fun i v => by simp [fresh_concat, hamong, hw]⟩

theorem mem_collected_iff {v : Value} : v ∈ collected ws ↔ ∃ i, Fresh ws i v := by
  induction ws using List.reverseRecOn with
  | nil => exact ⟨nofun, fun ⟨i, h⟩ => absurd h.lt (Nat.not_lt_zero i)⟩
  | append_singleton ws w ih =>
    rcases collected_concat_cases ws w with ⟨hvalues, hfresh⟩ | ⟨hvalues, hfresh⟩
    · simp only [hvalues, hfresh, List.mem_append, List.mem_singleton, ih, exists_or,
        exists_eq_left]
    · simp only [hvalues, hfresh, ih]

/-- The error of the first fresh value that does not convert. -/
def Inconvertible (t : ColumnType) (ws : List Value) (e : Error) : Prop :=
  ∃ i w, Fresh ws i w ∧ w.convert t = .error e ∧
    ∀ j < i, ∀ u, Fresh ws j u → ∃ key, u.convert t = .ok key

theorem keys_concat_error_iff {t : ColumnType} {vs : List Value} {w : Value} {e : Error} :
    keys t (vs ++ [w]) = .error e ↔
      keys t vs = .error e ∨ (∃ ks, keys t vs = .ok ks) ∧ w.convert t = .error e := by
  have happend : keys t (vs ++ [w]) = do
      let ks ← keys t vs
      let key ← w.convert t
      return ks ++ [key] := by
    rw [keys, List.mapM_append, List.mapM_cons, List.mapM_nil]
    rcases w.convert t with e' | key <;> rfl
  rw [happend]
  rcases keys t vs with e' | ks
  · simp [bind, Except.bind]
  · rcases w.convert t with e' | key
    · simp [bind, Except.bind]
    · simp [bind, Except.bind, pure, Except.pure]

theorem exists_keys_collected_iff {t : ColumnType} :
    (∃ ks, keys t (collected ws) = .ok ks) ↔
      ∀ i v, Fresh ws i v → ∃ key, v.convert t = .ok key := by
  rw [keys, exists_mapM_ok_iff]
  simp only [mem_collected_iff, forall_exists_index]
  exact forall_comm

theorem keys_collected_error_iff {t : ColumnType} {e : Error} :
    keys t (collected ws) = .error e ↔ Inconvertible t ws e := by
  induction ws using List.reverseRecOn with
  | nil => exact ⟨nofun, fun ⟨i, w, h, _⟩ => absurd h.lt (Nat.not_lt_zero i)⟩
  | append_singleton ws w ih =>
    rcases collected_concat_cases ws w with ⟨hvalues, hfresh⟩ | ⟨hvalues, hfresh⟩
    · rw [hvalues, keys_concat_error_iff, ih, exists_keys_collected_iff]
      constructor
      · rintro (⟨i, v, hv, he, hbefore⟩ | ⟨hall, he⟩)
        · refine ⟨i, v, (hfresh i v).mpr (.inl hv), he, fun j hj u hu => ?_⟩
          have hlt := hv.lt
          rcases (hfresh j u).mp hu with hu | ⟨rfl, -⟩
          · exact hbefore j hj u hu
          · omega
        · refine ⟨ws.length, w, (hfresh _ _).mpr (.inr ⟨rfl, rfl⟩), he, fun j hj u hu => ?_⟩
          rcases (hfresh j u).mp hu with hu | ⟨rfl, -⟩
          · exact hall j u hu
          · omega
      · rintro ⟨i, v, hv, he, hbefore⟩
        rcases (hfresh i v).mp hv with hv | ⟨rfl, rfl⟩
        · exact .inl ⟨i, v, hv, he, fun j hj u hu => hbefore j hj u ((hfresh j u).mpr (.inl hu))⟩
        · exact .inr ⟨fun j u hu => hbefore j hu.lt u ((hfresh j u).mpr (.inl hu)), he⟩
    · simp only [hvalues, Inconvertible, hfresh]
      exact ih

end Collected

section Condition

variable (t : ColumnType) (plan : Plan) (ctx : Context)

/-- What a condition on a column of the type fails with. -/
def Fails (e : Error) : Prop :=
  plan.firsts ctx = .error e ∨ ∃ ws, plan.firsts ctx = .ok ws ∧ Inconvertible t ws e

/-- The row's value in the column is not NULL, and equals the conversion of a fresh value. -/
def LetsThrough (c : IndexCondition) (row : Row) : Prop :=
  ∃ v ws i w key, row[c.column]? = some v ∧ v ≠ .null ∧ plan.firsts ctx = .ok ws ∧ Fresh ws i w ∧
    w.convert t = .ok key ∧ v.equals key = true

theorem outcome_probeValues (registry : Registry) :
    (probeValues plan ctx registry).outcome = (plan.firsts ctx).map collected := by
  rw [probeValues, Plan.firsts]
  rcases hrun : plan.run ctx with e | response
  · rw [Plan.withProbe_error hrun]
    rfl
  · rw [Plan.withProbe_ok hrun]
    refine (Probe.consume_yield collect [] (.start response) []).trans ?_
    dsimp only [bind, Except.bind]
    rw [Probe.toRows]
    rcases (Probe.consume _ _ _).1 with e | rows
    · rfl
    · exact congrArg Except.ok (foldl_collect_firsts rows [])

end Condition

end IndexCondition

namespace TableFilter

open IndexCondition

section Condition

variable {f : TableFilter} {plans : PlanId → Plan} {ctx : Context} {c : IndexCondition}

theorem keysOf_error_iff {e : Error} : f.keysOf plans ctx c = .error e ↔
    Fails (f.columnType c.column) (plans c.query) ctx e := by
  rw [keysOf, outcome_probeValues, Fails]
  rcases (plans c.query).firsts ctx with e' | ws
  · simp [bind, Except.bind, Except.map]
  · simp [bind, Except.bind, Except.map, keys_collected_error_iff]

theorem keysOf_ok_iff : (∃ ks, f.keysOf plans ctx c = .ok ks) ↔
    ∀ e, ¬Fails (f.columnType c.column) (plans c.query) ctx e := by
  simp only [← keysOf_error_iff]
  rcases f.keysOf plans ctx c with e | ks
  · simp
  · simp

theorem admits_iff {ks : List Value} (h : f.keysOf plans ctx c = .ok ks) (row : Row) :
    c.admits ks row = true ↔ LetsThrough (f.columnType c.column) (plans c.query) ctx c row := by
  rw [keysOf, outcome_probeValues] at h
  rcases hfirsts : (plans c.query).firsts ctx with e | ws
  · rw [hfirsts] at h
    cases h
  rw [hfirsts] at h
  have hkeys : keys (f.columnType c.column) (collected ws) = .ok ks := h
  simp only [admits, Option.any_eq_true, Bool.and_eq_true, Bool.not_eq_true',
    Value.isNull_eq_false_iff, Value.isAmong_iff]
  constructor
  · rintro ⟨v, hv, hnull, key, hkey, heq⟩
    obtain ⟨w, hw, hconvert⟩ := mem_of_mapM_ok hkeys hkey
    obtain ⟨i, hi⟩ := mem_collected_iff.mp hw
    exact ⟨v, ws, i, w, key, hv, hnull, hfirsts, hi, hconvert, Value.equals_symm heq⟩
  · rintro ⟨v, ws', i, w, key, hv, hnull, hfirsts', hi, hconvert, heq⟩
    obtain rfl := Except.ok.inj (hfirsts.symm.trans hfirsts')
    obtain ⟨key', hkey', hconvert'⟩ := ok_of_mapM_ok hkeys (mem_collected_iff.mpr ⟨i, hi⟩)
    obtain rfl := Except.ok.inj (hconvert.symm.trans hconvert')
    exact ⟨v, hv, hnull, key, hkey', Value.equals_symm heq⟩

end Condition

section Restrict

variable {f : TableFilter} {plans : PlanId → Plan} {ctx : Context}

/-- A restriction goes through its conditions as a traversal for their keys does. -/
theorem restrictBy_error_iff {e : Error} (cs : List IndexCondition) (rows : List Row)
    (registry : Registry) : (f.restrictBy plans ctx cs rows registry).outcome = .error e ↔
      cs.mapM (f.keysOf plans ctx) = .error e := by
  induction cs generalizing rows registry with
  | nil => exact ⟨nofun, nofun⟩
  | cons c cs ih =>
    rw [restrictBy, List.mapM_cons]
    dsimp only
    rw [f.probeValues_bind_keys]
    rcases f.keysOf plans ctx c with e' | ks
    · simp [bind, Except.bind]
    · refine (ih _ _).trans ?_
      rcases cs.mapM (f.keysOf plans ctx) with e' | kss
      · simp [bind, Except.bind]
      · simp [bind, Except.bind, pure, Except.pure]

open scoped Classical in
theorem restrict_of_keys (hkeys : ∀ c ∈ f.conditions, ∃ ks, f.keysOf plans ctx c = .ok ks)
    (rows : List Row) (registry : Registry) : (f.restrict plans ctx rows registry).outcome
      = .ok (rows.filter fun row => ∀ c ∈ f.conditions,
          LetsThrough (f.columnType c.column) (plans c.query) ctx c row) := by
  rw [restrict]
  refine (restrictBy_eq_filter (fun _ => True) (fun (c : IndexCondition) row =>
    decide (LetsThrough (f.columnType c.column) (plans c.query) ctx c row))
    (List.forall₂_same.mpr fun c hc => ?_) (fun _ _ => trivial) registry).trans ?_
  · obtain ⟨ks, hks⟩ := hkeys c hc
    refine ⟨ks, fun registry => (f.probeValues_bind_keys c registry).trans hks, fun row _ => ?_⟩
    rw [Bool.eq_iff_iff, decide_eq_true_iff]
    exact admits_iff hks row
  · simp only [List.all_eq, decide_eq_true_eq]

/-- What the restriction fails with is that of its first condition that fails. -/
theorem restrict_error_iff {e : Error} (rows : List Row) (registry : Registry) :
    (f.restrict plans ctx rows registry).outcome = .error e ↔
      ∃ before c after, f.conditions = before ++ c :: after ∧
        (∀ d ∈ before, ∀ e', ¬Fails (f.columnType d.column) (plans d.query) ctx e') ∧
        Fails (f.columnType c.column) (plans c.query) ctx e := by
  rw [restrict, restrictBy_error_iff, mapM_error_iff]
  simp only [keysOf_ok_iff, keysOf_error_iff]

theorem keys_of_restrict {rows kept : List Row} {registry : Registry}
    (h : (f.restrict plans ctx rows registry).outcome = .ok kept) :
    ∀ c ∈ f.conditions, ∃ ks, f.keysOf plans ctx c = .ok ks := by
  rcases hkeys : f.conditions.mapM (f.keysOf plans ctx) with e | kss
  · rw [restrict, (restrictBy_error_iff f.conditions rows registry).mpr hkeys] at h
    cases h
  · exact exists_mapM_ok_iff.mp ⟨kss, hkeys⟩

end Restrict

open scoped Classical in
/-- A filter fails as the first of its conditions that fails, whatever the rows, and otherwise keeps
the rows that each condition lets through. So it does not matter in which order and how often it has
its conditions, nor whether it has been applied before. -/
theorem restrict_is_conjunction (f : TableFilter) (plans : PlanId → Plan) (ctx : Context) :
    (∀ rows registry e, (f.restrict plans ctx rows registry).outcome = .error e ↔
      ∃ before c after, f.conditions = before ++ c :: after ∧
        (∀ d ∈ before, ∀ e', ¬Fails (f.columnType d.column) (plans d.query) ctx e') ∧
        Fails (f.columnType c.column) (plans c.query) ctx e) ∧
    (∀ rows registry,
      (∀ c ∈ f.conditions, ∀ e, ¬Fails (f.columnType c.column) (plans c.query) ctx e) →
      (f.restrict plans ctx rows registry).outcome = .ok (rows.filter fun row =>
        ∀ c ∈ f.conditions, LetsThrough (f.columnType c.column) (plans c.query) ctx c row)) ∧
    ∀ rows registry registry' kept, (f.restrict plans ctx rows registry).outcome = .ok kept →
      (f.restrict plans ctx kept registry').outcome = .ok kept ∧
      ∀ cs : List IndexCondition, (∀ c, c ∈ cs ↔ c ∈ f.conditions) →
        ({ f with conditions := cs }.restrict plans ctx rows registry').outcome = .ok kept := by
  refine ⟨fun rows registry e => restrict_error_iff rows registry, fun rows registry hnone => ?_,
    fun rows registry registry' kept hkept => ?_⟩
  · exact restrict_of_keys (fun c hc => keysOf_ok_iff.mpr (hnone c hc)) rows registry
  · have hkeys := keys_of_restrict hkept
    obtain rfl := Except.ok.inj ((restrict_of_keys hkeys rows registry).symm.trans hkept)
    refine ⟨?_, fun cs hcs => ?_⟩
    · rw [restrict_of_keys hkeys, List.filter_filter]
      simp only [Bool.and_self]
    · have hkeys' : ∀ c ∈ cs, ∃ ks, f.keysOf plans ctx c = .ok ks :=
        fun c hc => hkeys c ((hcs c).mp hc)
      rw [restrict_of_keys (f := { f with conditions := cs }) hkeys']
      simp only [hcs]
      rfl

/-- A column of texts, and a query for zero as a double, which it gives with either sign. -/
def textColumn : TableFilter :=
  { id := 1, name := "t", columns := [("a", .text)], conditions := [⟨0, "a", 0⟩] }

def zeros : Plan :=
  .values (.literals "v" .float [.float 0.0, .float (-0.0)])

theorem firsts_zeros (ctx : Context) : zeros.firsts ctx = .ok [.float 0.0, .float (-0.0)] := by
  have hrun : zeros.run ctx = .ok
      { table :=
          { types := [.float], rows := [[.float 0.0], [.float (-0.0)]], randomAccess := true } } :=
    rfl
  rw [Plan.firsts, hrun]
  dsimp only [bind, Except.bind]
  rw [Probe.toRows_start]
  rfl

theorem restrict_zeros (registry : Registry) :
    (textColumn.restrict (fun _ => zeros) {} [[.text "-0"], [.text "0"]] registry).outcome
      = .ok [[.text "0"]] := by
  rw [restrict, show textColumn.conditions = [⟨0, "a", 0⟩] from rfl, restrictBy]
  dsimp only
  rw [outcome_probeValues, firsts_zeros]
  rfl

/-- The two zeros are equal, so the second one is not fresh, though as a text it is another. -/
theorem restrict_by_fresh_zero :
    zeros.firsts {} = .ok [.float 0.0, .float (-0.0)] ∧
      (Value.float (-0.0)).convert .text = .ok (.text "-0") ∧
      (textColumn.restrict (fun _ => zeros) {} [[.text "-0"], [.text "0"]] {}).outcome
        = .ok [[.text "0"]] :=
  ⟨firsts_zeros {}, rfl, restrict_zeros {}⟩

/-- The same condition twice, on rows that it has been applied to and on others. -/
theorem restrict_is_conjunction_zeros :
    let twice : TableFilter := { textColumn with conditions := [⟨0, "a", 0⟩, ⟨0, "a", 0⟩] }
    (textColumn.restrict (fun _ => zeros) {} [[.text "0"]] {}).outcome = .ok [[.text "0"]] ∧
      (twice.restrict (fun _ => zeros) {} [[.text "-0"], [.text "0"]] {}).outcome
        = .ok [[.text "0"]] := by
  intro twice
  obtain ⟨-, -, hkept⟩ := restrict_is_conjunction textColumn (fun _ => zeros) {}
  obtain ⟨hagain, hconditions⟩ := hkept _ {} {} _ (restrict_zeros {})
  exact ⟨hagain, hconditions [⟨0, "a", 0⟩, ⟨0, "a", 0⟩] (by simp [textColumn])⟩

end TableFilter

end QuantifiedComparison
