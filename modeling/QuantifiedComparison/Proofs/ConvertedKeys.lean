import QuantifiedComparison.Proofs.Pushdown

/-!
# Index conditions across types

A predicate gives the value of a row the type of its query, but an index condition gives the values
of the query the type of the filter's column. Where the two types differ, the two directions need
not agree: a value of the query may not convert at all, and then the filter fails on rows which the
predicate is merely not true of, and values that convert to one and the same need not be converted
back to it. `restrict_eq_filter_iff` says exactly when the filter still keeps the rows of which the
predicate is true.
-/

namespace QuantifiedComparison

section Lists

variable {ε α β : Type}

theorem exists_mapM_ok_iff {f : α → Except ε β} {xs : List α} :
    (∃ ys, xs.mapM f = .ok ys) ↔ ∀ x ∈ xs, ∃ y, f x = .ok y := by
  constructor
  · rintro ⟨ys, h⟩ x hx
    obtain ⟨y, -, hy⟩ := ok_of_mapM_ok h hx
    exact ⟨y, hy⟩
  · intro h
    induction xs with
    | nil => exact ⟨[], rfl⟩
    | cons x xs ih =>
      obtain ⟨⟨y, hy⟩, hxs⟩ := List.forall_mem_cons.mp h
      obtain ⟨ys, hys⟩ := ih hxs
      exact ⟨y :: ys, mapM_cons_ok_iff.mpr ⟨y, ys, hy, hys, rfl⟩⟩

theorem filter_eq_filter_iff {p q : α → Bool} {xs : List α} :
    xs.filter p = xs.filter q ↔ ∀ x ∈ xs, p x = q x := by
  refine ⟨fun h x hx => ?_, List.filter_congr⟩
  have hmem : x ∈ xs.filter p ↔ x ∈ xs.filter q := by rw [h]
  simpa only [List.mem_filter, hx, true_and, ← Bool.eq_iff_iff] using hmem

end Lists

theorem Truth.exists_of_map_toValue {outcome : Except Error Truth} {v : Value}
    (h : outcome.map Truth.toValue = .ok v) : ∃ truth, outcome = .ok truth ∧ truth.toValue = v := by
  rcases outcome with e | truth
  · cases h
  · exact ⟨truth, rfl, Except.ok.inj h⟩

namespace Predicate

variable {p : Predicate} {v : Value} {t : ColumnType} {ws : List Value}

/-- Whether the predicate's strategy finds the value among those of a query of type `t`. -/
def finds (p : Predicate) (s : Settings) (v : Value) (t : ColumnType) (ws : List Value) : Bool :=
  match p.strategy s with
  | .scan => (operand v t).toOption.any fun left => ws.any (left.compare? · == some .eq)
  | .lookup => (v.convert? t).any (·.isAmong ws)

theorem finds_nil (s : Settings) : p.finds s v t [] = false := by
  unfold finds
  split
  · cases operand v t <;> rfl
  · cases v.convert? t <;> rfl

theorem matchesRow_iff (hc : p.comparison.isEquality = true) {w : Value} (hv : v ≠ .null) :
    p.matchesRow v [w] = .ok true ↔ v.compare? w = some .eq := by
  by_cases hw : w = .null
  · subst hw
    rw [matchesRow_null]
    refine iff_of_false (fun h => Bool.false_ne_true (Except.ok.inj h)) fun h => ?_
    cases v <;> first | exact absurd rfl hv | cases h
  · rw [matchesRow_value p v hw, Comparison.outcome_of_isEquality hc, Comparison.equality]
    cases v.compare? w with
    | none => split_ifs <;> simp
    | some o => simp

/-- A scan that comes to an end holds if it met a value that compares as equal. -/
theorem scanTruth_holds_iff (hq : p.quantifier = .any) (hc : p.comparison.isEquality = true)
    (hv : v ≠ .null) {policy : NullRowPolicy} {truth : Truth}
    (h : p.scanTruth policy v ws = .ok truth) :
    truth = .holds ↔ ws.any (v.compare? · == some .eq) = true := by
  simp only [List.any_eq_true, beq_iff_eq]
  unfold scanTruth at h
  split at h
  · rename_i hfind
    rw [hq, NullRowPolicy.resolve_any] at h
    obtain rfl := Except.ok.inj h
    rw [Truth.ofSearch_eq_holds_iff]
    refine iff_of_false nofun ?_
    rintro ⟨w, hw, heq⟩
    refine List.find?_eq_none.mp hfind w hw ?_
    rw [stopsAt_of_ok ((matchesRow_iff hc hv).mpr heq), hq]
    rfl
  · rename_i w hfind
    cases hm : p.matchesRow v [w] with
    | error e =>
      rw [hm] at h
      cases h
    | ok matched =>
      have hstop := List.find?_some hfind
      rw [stopsAt_of_ok hm, hq] at hstop
      obtain rfl : matched = true := (Bool.bne_false matched).symm.trans hstop
      rw [hm, hq] at h
      obtain rfl := Except.ok.inj h
      refine iff_of_true (NullRowPolicy.resolve_any ..) ?_
      exact ⟨w, List.mem_of_find?_eq_some hfind, (matchesRow_iff hc hv).mp hm⟩

theorem operand_ne_null (hv : v ≠ .null) {left : Value} (h : operand v t = .ok left) :
    left ≠ .null := by
  unfold operand at h
  split_ifs at h
  · obtain rfl := Except.ok.inj h
    exact hv
  · exact (Value.type_of_convert h hv).2

theorem eq_convert?_of_lookupKey {key : Option Value} (h : lookupKey v t = .ok key) :
    key = v.convert? t := by
  unfold lookupKey at h
  split at h
  · exact (Except.ok.inj h).symm
  · cases hconvert : Value.convert v t with
    | error e =>
      rw [hconvert] at h
      cases h
    | ok w =>
      rw [hconvert] at h
      rw [Value.convert_ok_iff.mp hconvert]
      exact (Except.ok.inj h).symm

section Truth

variable {table : ResultTable} (htable : table.SingleColumn t) {truth : Truth}
include htable

theorem scan_holds_iff (hq : p.quantifier = .any) (hc : p.comparison.isEquality = true)
    (hv : v ≠ .null) {policy : NullRowPolicy}
    (h : (p.scan policy v (.start { table })).1 = .ok truth) :
    truth = .holds ↔ ((operand v t).toOption.any fun left =>
      table.firsts.any (left.compare? · == some .eq)) = true := by
  rw [scan_start p policy v htable] at h
  cases hleft : operand v t with
  | error e =>
    rw [hleft] at h
    cases h
  | ok left =>
    rw [hleft] at h
    exact scanTruth_holds_iff hq hc (operand_ne_null hv hleft) h

theorem lookup_holds_iff (hv : v ≠ .null) (h : (lookup v (.start { table })).1 = .ok truth) :
    truth = .holds ↔ (v.convert? t).any (·.isAmong table.firsts) = true := by
  by_cases ht : t = .null
  · subst ht
    have hfails : lookup v (.start { table }) = (.ok .fails, .start { table }) :=
      if_pos htable.columnType
    rw [hfails] at h
    obtain rfl := Except.ok.inj h
    refine iff_of_false nofun ?_
    cases hkey : v.convert? .null with
    | none => nofun
    | some key =>
      obtain ⟨htype, hnull⟩ := Value.type_of_convert? hkey hv
      exact absurd (Value.type_eq_null_iff.mp htype) hnull
  · rw [lookup_fst v rfl htable ht] at h
    unfold lookupTruth at h
    cases hkey : lookupKey v t with
    | error e =>
      rw [hkey] at h
      cases h
    | ok key =>
      rw [hkey] at h
      obtain rfl := Except.ok.inj h
      obtain rfl := eq_convert?_of_lookupKey hkey
      exact Truth.ofSearch_eq_holds_iff

end Truth

/-- A predicate that comes to an answer is true of the values that its strategy finds. -/
theorem evaluate_true_iff (hq : p.quantifier = .any) (hc : p.comparison.isEquality = true)
    {q : ValuesPlan} {ctx : Context} {table : ResultTable} (hrun : q.run ctx = .ok table)
    (htable : table.SingleColumn t) (hleft : p.left.eval ctx = .ok v) {registry : Registry}
    {x : Value} (h : (p.evaluate (.values q) ctx registry).outcome = .ok x) :
    x = .boolean true ↔ v ≠ .null ∧ p.finds ctx.settings v t table.firsts = true := by
  by_cases hrows : table.rows = []
  · rw [evaluate_empty registry hrun hleft hrows, hq] at h
    obtain rfl := Except.ok.inj h
    have hfirsts : table.firsts = [] := by rw [ResultTable.firsts, hrows]; rfl
    rw [hfirsts, finds_nil]
    exact iff_of_false (fun h => Bool.false_ne_true (Value.boolean.inj h))
      fun hfinds => Bool.false_ne_true hfinds.2
  by_cases hv : v = .null
  · subst hv
    rw [evaluate_null registry hrun hleft hrows] at h
    obtain rfl := Except.ok.inj h
    exact iff_of_false (by simp) fun hfinds => hfinds.1 rfl
  rw [evaluate_of_run registry hrun, answer, hleft] at h
  dsimp only at h
  have hcount : (Probe.start { table }).rowCount ≠ 0 :=
    fun h => hrows (List.length_eq_zero_iff.mp h)
  rw [if_neg hcount, Value.isNull_eq_false_iff.mpr hv, if_neg Bool.false_ne_true] at h
  obtain ⟨truth, htruth, rfl⟩ := Truth.exists_of_map_toValue h
  rw [and_iff_right hv, finds]
  refine (Truth.toValue_inj (b := .holds)).trans ?_
  cases hs : p.strategy ctx.settings with
  | scan =>
    rw [hs] at htruth
    exact scan_holds_iff htable hq hc hv htruth
  | lookup =>
    rw [hs] at htruth
    exact lookup_holds_iff htable hv htruth

theorem Indexes.isTrueOn_eq_finds {q : ValuesPlan} {filter : Nat} {c : IndexCondition}
    {ctx : Context} {table : ResultTable} {row : Row} {registry : Registry} {x : Value}
    (h : p.Indexes (.values q) filter c) (htable : table.SingleColumn t)
    (hrun : q.run ctx = .ok table) (hv : row[c.column]? = some v)
    (hx : (p.evaluate (.values q) (ctx.position filter row) registry).outcome = .ok x) :
    p.isTrueOn (.values q) ctx filter registry row
      = (!v.isNull && p.finds ctx.settings v t table.firsts) := by
  have hrun' : q.run (ctx.position filter row) = .ok table :=
    (ValuesPlan.run_position h.independent ctx row).trans hrun
  have hc : p.comparison.isEquality = true := by
    rw [h.equal]
    rfl
  rw [Bool.eq_iff_iff, Bool.and_eq_true, Bool.not_eq_true', Value.isNull_eq_false_iff, isTrueOn,
    decide_eq_true_iff, hx]
  show some x = some _ ↔ _
  rw [Option.some.injEq]
  exact evaluate_true_iff h.any hc hrun' htable (h.eval_left hv) hx

end Predicate

namespace IndexCondition

/-- Whether the value is among the values of a query, once these have the column's type. -/
def isKey (t : ColumnType) (ws : List Value) (v : Value) : Bool :=
  (collected ws).any fun w => (w.convert? t).any (·.equals v)

theorem exists_keys_iff {t : ColumnType} {vs : List Value} :
    (∃ ks, keys t vs = .ok ks) ↔ ∀ w ∈ vs, (w.convert? t).isSome := by
  refine exists_mapM_ok_iff.trans (forall₂_congr fun w _ => ?_)
  simp only [Value.convert_ok_iff, Option.isSome_iff_exists]

theorem admits_eq_isKey {c : IndexCondition} {t : ColumnType} {ws ks : List Value}
    (hkeys : keys t (collected ws) = .ok ks) {row : Row} {v : Value}
    (hv : row[c.column]? = some v) : c.admits ks row = (!v.isNull && isKey t ws v) := by
  rw [admits, hv, Option.any_some]
  congr 1
  rw [Bool.eq_iff_iff, isKey, Value.isAmong_iff]
  simp only [List.any_eq_true, Option.any_eq_true]
  constructor
  · rintro ⟨key, hkey, heq⟩
    obtain ⟨w, hw, hconvert⟩ := mem_of_mapM_ok hkeys hkey
    exact ⟨w, hw, key, Value.convert_ok_iff.mp hconvert, heq⟩
  · rintro ⟨w, hw, key, hconvert, heq⟩
    obtain ⟨key', hkey', hconvert'⟩ := ok_of_mapM_ok hkeys hw
    obtain rfl := Option.some.inj (hconvert.symm.trans (Value.convert_ok_iff.mp hconvert'))
    exact ⟨key, hkey', heq⟩

end IndexCondition

namespace TableFilter

open IndexCondition

theorem restrict_ok_iff {f : TableFilter} {c : IndexCondition} (honly : f.conditions = [c])
    {plans : PlanId → Plan} {ctx : Context} {q : ValuesPlan} {table : ResultTable} {t : ColumnType}
    (hquery : plans c.query = .values q) (hrun : q.run ctx = .ok table)
    (htable : table.SingleColumn t) {rows kept : List Row} {registry : Registry} :
    (f.restrict plans ctx rows registry).outcome = .ok kept ↔
      ∃ ks, keys (f.columnType c.column) (collected table.firsts) = .ok ks ∧
        rows.filter (c.admits ks) = kept := by
  rw [restrict, honly, restrictBy]
  dsimp only
  rw [hquery, probeValues_of_run hrun htable]
  dsimp only [bind, Except.bind]
  cases keys (f.columnType c.column) (collected table.firsts) with
  | error e => simp
  | ok ks => simp [restrictBy]

variable {p : Predicate} {q : ValuesPlan} {s : Settings} {f g : TableFilter} {c : IndexCondition}
  {plans : PlanId → Plan} {ctx : Context} {table : ResultTable} {t : ColumnType} {rows : List Row}

/-- A filter whose only condition is a predicate that comes to an answer on every row keeps the rows
of which the predicate is true exactly if every value of the query converts to the column's type and
the converted values are, among those of the rows, the ones that the predicate finds. -/
theorem restrict_eq_filter_iff (hpush : p.push (.values q) s f = (true, g))
    (honly : g.conditions = [c]) (hquery : plans p.query = .values q)
    (hplan : Plan.Optimized (.values q)) (htypes : q.types = [t]) (hrun : q.run ctx = .ok table)
    (registry registry' : Registry)
    (hrows : ∀ row ∈ rows, (∃ v, row[c.column]? = some v) ∧
      ∃ x, (p.evaluate (.values q) (ctx.position g.id row) registry').outcome = .ok x) :
    (g.restrict plans ctx rows registry).outcome
        = .ok (rows.filter (p.isTrueOn (.values q) ctx g.id registry')) ↔
      (∀ w ∈ collected table.firsts, (w.convert? (g.columnType c.column)).isSome) ∧
        ∀ row ∈ rows, ∀ v, row[c.column]? = some v → v ≠ .null →
          isKey (g.columnType c.column) table.firsts v
            = p.finds ctx.settings v t table.firsts := by
  have htable := hplan.singleColumn_of_run htypes hrun
  obtain ⟨c', rfl, hindexes⟩ := Predicate.indexes_of_push hpush
  obtain rfl : c' = c := by
    have hlast := congrArg List.getLast? honly
    simpa [add] using hlast
  rw [restrict_ok_iff honly (by rw [hindexes.query, hquery]) hrun htable]
  -- neither side takes a row whose value is NULL, so they may differ on the others only
  have hrow : ∀ ks, keys ((f.add c').columnType c'.column) (collected table.firsts) = .ok ks →
      ∀ row ∈ rows, ∀ v, row[c'.column]? = some v →
        (c'.admits ks row = p.isTrueOn (.values q) ctx f.id registry' row ↔
          (v ≠ .null → isKey ((f.add c').columnType c'.column) table.firsts v
            = p.finds ctx.settings v t table.firsts)) := by
    intro ks hks row hrow v hv
    obtain ⟨-, x, hx⟩ := hrows row hrow
    rw [admits_eq_isKey hks hv, hindexes.isTrueOn_eq_finds htable hrun hv hx,
      ← Value.isNull_eq_false_iff]
    cases v.isNull <;> simp
  constructor
  · rintro ⟨ks, hks, hfilter⟩
    refine ⟨exists_keys_iff.mp ⟨ks, hks⟩, fun row hmem v hv => ?_⟩
    exact (hrow ks hks row hmem v hv).mp (filter_eq_filter_iff.mp hfilter row hmem)
  · rintro ⟨hconvert, hagree⟩
    obtain ⟨ks, hks⟩ := exists_keys_iff.mpr hconvert
    refine ⟨ks, hks, filter_eq_filter_iff.mpr fun row hmem => ?_⟩
    obtain ⟨⟨v, hv⟩, -⟩ := hrows row hmem
    exact (hrow ks hks row hmem v hv).mpr (hagree row hmem v hv)

/-- `a IN (TRUE)` keeps the rows where the integer `a` is 1, if there are none but 0 and 1. -/
theorem restrict_eq_filter_iff_one :
    ((oneColumn.add ⟨0, "a", 0⟩).restrict (fun _ => .values (.literals "v" .boolean [.boolean true]))
      {} [[.integer 1], [.integer 0], [.null]] {}).outcome = .ok [[.integer 1]] := by
  have hvalues : ∀ w ∈ [Value.boolean true], w.Fits .boolean := by decide
  have hpush : (Predicate.isIn columnA 0).push (.values (.literals "v" .boolean [.boolean true])) {}
      oneColumn = (true, oneColumn.add ⟨0, "a", 0⟩) := rfl
  refine ((restrict_eq_filter_iff hpush rfl rfl (ValuesPlan.optimized_literals "v" .boolean _) rfl
    (ValuesPlan.run_literals "v" hvalues {}) {} {} ?_).mpr ⟨by decide, ?_⟩).trans rfl
  · intro row hrow
    simp only [List.mem_cons, List.not_mem_nil, or_false] at hrow
    rcases hrow with rfl | rfl | rfl
    · exact ⟨⟨_, rfl⟩, _, rfl⟩
    · exact ⟨⟨_, rfl⟩, _, rfl⟩
    · exact ⟨⟨_, rfl⟩, _, rfl⟩
  · intro row hrow v hv hnull
    simp only [List.mem_cons, List.not_mem_nil, or_false] at hrow
    rcases hrow with rfl | rfl | rfl
    · obtain rfl := Option.some.inj hv
      rfl
    · obtain rfl := Option.some.inj hv
      rfl
    · exact absurd (Option.some.inj hv).symm hnull

-- the text '01' is the integer 1, but the integer 1 is the text '1'
example : isKey .text [.integer 1] (.text "01") = false ∧
    (Predicate.isIn columnA 0).finds {} (.text "01") .integer [.integer 1] = true := by
  decide

/-- No integer is 1.5, so `a IN (1.5)` is false where `a` is 1. But the filter takes 1.5 for an
integer first, and stops. -/
theorem restrict_fails_on_fraction :
    (Predicate.isIn columnA 0).push (.values (.literals "v" .float [.float 1.5])) {} oneColumn
        = (true, oneColumn.add ⟨0, "a", 0⟩) ∧
      ((Predicate.isIn columnA 0).evaluate (.values (.literals "v" .float [.float 1.5]))
        (Context.position {} 1 [.integer 1]) {}).outcome = .ok (.boolean false) ∧
      ((oneColumn.add ⟨0, "a", 0⟩).restrict
        (fun _ => .values (.literals "v" .float [.float 1.5])) {} [[.integer 1]] {}).outcome
        = .error (.notConvertible (.float 1.5) .integer) := by
  have hvalues : ∀ w ∈ [Value.float 1.5], w.Fits .float := by decide
  have hrun := ValuesPlan.run_literals "v" hvalues {}
  have htable := (ValuesPlan.optimized_literals "v" .float _).singleColumn_of_run rfl hrun
  have hprobe := IndexCondition.probeValues_of_run hrun htable {}
  refine ⟨rfl, rfl, ?_⟩
  rw [restrict, show (oneColumn.add ⟨0, "a", 0⟩).conditions = [⟨0, "a", 0⟩] from rfl, restrictBy]
  dsimp only
  rw [hprobe]
  rfl

end TableFilter

end QuantifiedComparison
