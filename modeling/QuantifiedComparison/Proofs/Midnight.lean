import Mathlib.Data.List.TFAE
import Mathlib.Tactic.TFAE
import QuantifiedComparison.Proofs.Membership
import QuantifiedComparison.Proofs.Release

/-!
# The midnight of a date

A date becomes the timestamp of its midnight, and a timestamp the date that stands before its first
blank. So what comes back from a date's midnight is the date up to its first blank
(`Value.dayOf_midnight`), and this is the date just if it holds none.

A predicate over a column sees its left value only as the conversion to the column's type, so two
values that convert alike are interchangeable on its left (`Predicate.interchangeable_of_convert`),
and those that convert to different values are told apart by one row
(`Predicate.equals_of_interchangeable`). A date and its midnight are interchangeable over dates just
if the date comes back (`Value.midnight_keeps_date_tfae`).
-/

namespace QuantifiedComparison

namespace Predicate

/-- Over a column of the type, a predicate evaluates alike with either value on its left. -/
def Interchangeable (t : ColumnType) (v w : Value) : Prop :=
  ∀ (p : Predicate) (l r : Expr) (plan : Plan) (ctx : Context) (registry : Registry),
    l.eval ctx = .ok v → r.eval ctx = .ok w →
    (∀ response, plan.run ctx = .ok response → response.table.columnType 0 = t) →
      { p with left := l }.evaluate plan ctx registry
        = { p with left := r }.evaluate plan ctx registry

section Congr

variable {p : Predicate} {v w : Value} {probe : Probe}

theorem scan_congr_left (policy : NullRowPolicy)
    (h : operand v (probe.columnType 0) = operand w (probe.columnType 0)) :
    p.scan policy v probe = p.scan policy w probe := by
  rw [scan, scan, h]

theorem lookup_congr_left
    (h : lookupKey v (probe.columnType 0) = lookupKey w (probe.columnType 0)) :
    lookup v probe = lookup w probe := by
  rw [lookup, lookup, h]

theorem answer_congr_left {l r : Expr} {ctx : Context} (hl : l.eval ctx = .ok v)
    (hr : r.eval ctx = .ok w) (hv : v ≠ .null) (hw : w ≠ .null)
    (hoperand : operand v (probe.columnType 0) = operand w (probe.columnType 0))
    (hkey : lookupKey v (probe.columnType 0) = lookupKey w (probe.columnType 0)) :
    { p with left := l }.answer ctx probe = { p with left := r }.answer ctx probe := by
  have hscan : { p with left := l }.scan ctx.settings.nullRows v probe
      = { p with left := r }.scan ctx.settings.nullRows w probe :=
    scan_congr_left (p := p) ctx.settings.nullRows hoperand
  have hstrategy : { p with left := l }.strategy ctx.settings
      = { p with left := r }.strategy ctx.settings := rfl
  simp only [answer, hl, hr, Value.isNull_eq_false_iff.mpr hv, Value.isNull_eq_false_iff.mpr hw,
    hscan, lookup_congr_left hkey, hstrategy]

end Congr

/-- Over one row a membership test tells whether the row is what the value converts to. -/
theorem evaluate_isIn_single {t : ColumnType} {v key k : Value} (ht : t ≠ .null) (hv : v ≠ .null)
    (hcross : ¬v.Crosses t) (hkey : v.convert t = .ok key) (hk : k ≠ .null) (htype : k.type = t) :
    ((isIn (.literal v) 0).evaluate (.values (.literals "v" t [k])) {} {}).outcome
      = .ok (.boolean (k.equals key)) := by
  have hfits : ∀ w ∈ [k], w.Fits t := List.forall_mem_singleton.mpr (.inr htype)
  have hrun := ValuesPlan.run_literals "v" hfits {}
  have htable := (ValuesPlan.optimized_literals "v" t [k]).singleColumn_of_run rfl hrun
  have hamong : key.isAmong [k] = k.equals key := by
    rw [← Value.any_equals, List.any_cons, List.any_nil, Bool.or_false]
  have hnull : [k].any (·.isNull) = false := by
    rw [List.any_cons, List.any_nil, Bool.or_false, Value.isNull_eq_false_iff.mpr hk]
  rw [evaluate_value {} hrun htable ht rfl hv nofun,
    truthOver_of_not_crosses rfl rfl ht hv hcross htable.fits, hkey]
  show Except.ok (Truth.ofSearch (key.isAmong [k]) ([k].any (·.isNull))).toValue = _
  rw [hamong, hnull]
  cases k.equals key <;> rfl

section Interchangeable

variable {t : ColumnType} {v w : Value} (ht : t ≠ .null) (hv : v ≠ .null) (hw : w ≠ .null)
  (hcv : ¬v.Crosses t) (hcw : ¬w.Crosses t)
include ht hv hw hcv hcw

theorem interchangeable_of_convert (h : v.convert t = w.convert t) : Interchangeable t v w := by
  intro p l r plan ctx registry hl hr htype
  rw [evaluate, evaluate]
  rcases hrun : plan.run ctx with e | response
  · rw [Plan.withProbe_error hrun, Plan.withProbe_error hrun]
  · have hcolumn : (Probe.start response).columnType 0 = t := htype response hrun
    have hanswer : { p with left := l }.answer ctx (.start response)
        = { p with left := r }.answer ctx (.start response) := by
      refine answer_congr_left hl hr hv hw ?_ ?_
      · rw [hcolumn, operand_of_not_crosses ht hcv, operand_of_not_crosses ht hcw, h]
      · rw [hcolumn, lookupKey_of_not_crosses hcv, lookupKey_of_not_crosses hcw, h]
    rw [Plan.withProbe_ok hrun, Plan.withProbe_ok hrun, hanswer]

/-- Interchangeable values convert to equal ones: a column of the one conversion alone tells. -/
theorem equals_of_interchangeable {k k' : Value} (hk : v.convert t = .ok k)
    (hk' : w.convert t = .ok k') (hself : k.equals k = true) (h : Interchangeable t v w) :
    k.equals k' = true := by
  obtain ⟨htype, hnull⟩ := Value.type_of_convert hk hv
  have hcolumn : ∀ response, (Plan.values (.literals "v" t [k])).run {} = .ok response →
      response.table.columnType 0 = t := by
    intro response hresponse
    rw [Plan.run,
      ValuesPlan.run_literals "v" (List.forall_mem_singleton.mpr (.inr htype))] at hresponse
    cases hresponse
    rfl
  have hanswer : ((isIn (.literal v) 0).evaluate (.values (.literals "v" t [k])) {} {}).outcome
      = ((isIn (.literal w) 0).evaluate (.values (.literals "v" t [k])) {} {}).outcome :=
    congrArg Run.outcome
      (h (.isIn (.literal v) 0) (.literal v) (.literal w) _ {} {} rfl rfl hcolumn)
  rw [evaluate_isIn_single ht hv hcv hk hnull htype,
    evaluate_isIn_single ht hw hcw hk' hnull htype, hself, Except.ok.injEq,
    Value.boolean.injEq] at hanswer
  exact hanswer.symm

end Interchangeable

end Predicate

namespace Value

variable {s : String}

theorem dayOf_midnight (s : String) : dayOf (midnight s) = dayOf s := by
  have hlist : (midnight s).toList = s.toList ++ " 00:00:00".toList := String.toList_append
  -- the first blank of the midnight is the date's own, or else the one that follows the date
  have hstop : " 00:00:00".toList.takeWhile (· ≠ ' ') = [] := by decide
  rw [dayOf, dayOf, hlist, List.takeWhile_append, hstop]
  split_ifs with hall
  · rw [List.append_nil, (List.takeWhile_prefix _).eq_of_length hall]
  · rfl

theorem dayOf_eq_self_iff : dayOf s = s ↔ ' ' ∉ s.toList := by
  rw [dayOf, ← String.toList_inj, String.toList_ofList, List.takeWhile_eq_self_iff]
  simp only [ne_eq, decide_not, Bool.not_eq_true', decide_eq_false_iff_not, List.forall_mem_ne']

theorem convert_midnight (s : String) :
    (timestamp (midnight s)).convert .date = .ok (date (dayOf s)) := by
  rw [← dayOf_midnight s]
  rfl

theorem order_midnight (s : String) :
    (date s).order (timestamp (midnight s)) = .ok (compare s (dayOf s)) := by
  rw [← dayOf_midnight s]
  rfl

theorem midnight_order (s : String) :
    (timestamp (midnight s)).order (date s) = .ok (compare (dayOf s) s) := by
  rw [← dayOf_midnight s]
  rfl

theorem convert_text_date_iff {d : Value} :
    (text s).convert .date = .ok d ↔ isDate s = true ∧ d = date s := by
  rw [convert_ok_iff, convert?, Option.ite_none_right_eq_some, Option.some.injEq, eq_comm (a := d)]

/-- A date that was read from a text comes back from its midnight, is equal to it in the order, and
is interchangeable with it over dates, each just if the text holds no blank. -/
theorem midnight_keeps_date_tfae {d : Value} (h : (text s).convert .date = .ok d) :
    ∃ m, d.convert .timestamp = .ok m ∧ m.convert .date = .ok (date (dayOf s)) ∧
      List.TFAE [' ' ∉ s.toList, m.convert .date = .ok d, d.order m = .ok .eq,
        m.order d = .ok .eq, Predicate.Interchangeable .date d m] := by
  obtain ⟨-, rfl⟩ := convert_text_date_iff.mp h
  refine ⟨timestamp (midnight s), rfl, convert_midnight s, ?_⟩
  rw [convert_midnight, order_midnight, midnight_order, ← dayOf_eq_self_iff]
  have hd : date s ≠ null := nofun
  have hm : timestamp (midnight s) ≠ null := nofun
  have hcd : ¬(date s).Crosses .date := nofun
  have hcm : ¬(timestamp (midnight s)).Crosses .date := nofun
  tfae_have 1 ↔ 2 := by rw [Except.ok.injEq, date.injEq]
  tfae_have 1 ↔ 3 := by rw [Except.ok.injEq, Std.LawfulEqCmp.compare_eq_iff_eq, eq_comm]
  tfae_have 1 ↔ 4 := by rw [Except.ok.injEq, Std.LawfulEqCmp.compare_eq_iff_eq]
  tfae_have 1 → 5 := fun hday => by
    refine Predicate.interchangeable_of_convert (by decide) hd hm hcd hcm ?_
    rw [convert_midnight, hday]
    rfl
  tfae_have 5 → 1 := fun hinter => by
    have heq : (date s).equals (date (dayOf s)) = true :=
      Predicate.equals_of_interchangeable (by decide) hd hm hcd hcm rfl (convert_midnight s)
        (beq_self_eq_true s) hinter
    exact (beq_iff_eq.mp heq).symm
  tfae_finish

theorem midnight_keeps_newYear :
    (text "2024-01-01").convert .date = .ok (date "2024-01-01") ∧
      ∃ m, (date "2024-01-01").convert .timestamp = .ok m ∧
        m.convert .date = .ok (date "2024-01-01") ∧ (date "2024-01-01").order m = .ok .eq ∧
        m.order (date "2024-01-01") = .ok .eq ∧
        Predicate.Interchangeable .date (date "2024-01-01") m := by
  have hdate : (text "2024-01-01").convert .date = .ok (date "2024-01-01") := by decide
  have hblank : ' ' ∉ "2024-01-01".toList := by decide
  obtain ⟨m, hm, -, htfae⟩ := midnight_keeps_date_tfae hdate
  exact ⟨hdate, m, hm, (htfae.out 0 1).mp hblank, (htfae.out 0 2).mp hblank,
    (htfae.out 0 3).mp hblank, (htfae.out 0 4).mp hblank⟩

/-- A text with a blank in it can become a date, and then only what stands before the blank comes
back. -/
theorem midnight_cuts_date :
    let d := date "2024- 1-01"
    let m := timestamp "2024- 1-01 00:00:00"
    let among (v : Value) : Except Error Value :=
      ((Predicate.isIn (.literal v) 0).evaluate (.values (.literals "v" .date [d])) {} {}).outcome
    (text "2024- 1-01").convert .date = .ok d ∧ d.convert .timestamp = .ok m ∧
      m.convert .date = .ok (date "2024-") ∧ d.order m = .ok .gt ∧ m.order d = .ok .lt ∧
      among d = .ok (boolean true) ∧ among m = .ok (boolean false) := by
  exact ⟨by decide, by decide, by decide, by decide, by decide, by decide, by decide⟩

end Value

end QuantifiedComparison
