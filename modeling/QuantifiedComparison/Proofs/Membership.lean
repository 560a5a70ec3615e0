import QuantifiedComparison.Proofs.Answer

/-!
# Membership

For an ANY with an equality both strategies look for a value that equals the left one, once it has
the type of the column (`truthOver_of_not_crosses`). Only an integer over doubles and a double over
integers is no such case: one strategy compares the two as doubles, the other converts.
-/

namespace QuantifiedComparison

/-- An integer for a column of doubles, or a double for one of integers. -/
def Value.Crosses (v : Value) (t : ColumnType) : Prop :=
  (v.type = .integer ∧ t = .float) ∨ (v.type = .float ∧ t = .integer)

instance (v : Value) (t : ColumnType) : Decidable (v.Crosses t) :=
  inferInstanceAs (Decidable (_ ∨ _))

namespace Predicate

variable {p : Predicate} {v : Value} {t : ColumnType} {ws : List Value}

theorem matchesRow_of_same_type (hc : p.comparison.isEquality = true) (hv : v ≠ .null)
    {w : Value} (hw : w.Fits v.type) : p.matchesRow v [w] = .ok (w.equals v) := by
  by_cases hnull : w = .null
  · subst hnull
    rw [matchesRow_null, Value.null_equals hv]
  · have htype : v.type = w.type := (hw.resolve_left hnull).symm
    rw [matchesRow_value p v hnull, Comparison.outcome_of_same_type hc htype, Value.equals_comm]

theorem scanTruth_of_same_type (hq : p.quantifier = .any) (hc : p.comparison.isEquality = true)
    (hv : v ≠ .null) (hws : ∀ w ∈ ws, w.Fits v.type) (policy : NullRowPolicy) :
    p.scanTruth policy v ws = .ok (.ofSearch (v.isAmong ws) (ws.any (·.isNull))) := by
  rw [scanTruth_any hq policy fun w hw => matchesRow_of_same_type hc hv (hws w hw),
    Value.any_equals]

theorem operand_of_not_crosses (ht : t ≠ .null) (h : ¬v.Crosses t) :
    operand v t = v.convert t := by
  unfold operand
  split_ifs with hnum
  · have hown : v.type = t := by
      rcases hnum with hnum | ⟨hnum, hvnum⟩
      · exact absurd hnum ht
      · revert hnum hvnum h
        unfold Value.Crosses
        cases v.type <;> cases t <;> simp [ColumnType.isNumeric]
    exact (Value.convert_fitting (.inr hown)).symm
  · rfl

theorem lookupKey_of_not_crosses (h : ¬v.Crosses t) : lookupKey v t = (v.convert t).map some := by
  unfold lookupKey
  split
  · exact absurd (.inr ⟨rfl, rfl⟩) h
  · rfl

/-- Either strategy converts the value to the column's type and tells whether it is there. -/
theorem truthOver_of_not_crosses (hq : p.quantifier = .any) (hc : p.comparison.isEquality = true)
    (ht : t ≠ .null) (hv : v ≠ .null) (h : ¬v.Crosses t) (hws : ∀ w ∈ ws, w.Fits t)
    (s : Settings) :
    p.truthOver s v t ws
      = (v.convert t).map fun key => .ofSearch (key.isAmong ws) (ws.any (·.isNull)) := by
  unfold truthOver lookupTruth
  rw [operand_of_not_crosses ht h, lookupKey_of_not_crosses h]
  cases hkey : v.convert t with
  | error e => split <;> rfl
  | ok key =>
    obtain ⟨htype, hnull⟩ := Value.type_of_convert hkey hv
    split
    · exact scanTruth_of_same_type hq hc hnull (htype ▸ hws) s.nullRows
    · rfl

theorem strategy_eq_lookup_iff {s : Settings} : p.strategy s = .lookup ↔
    s.useLookup = true ∧ p.quantifier = .any ∧ p.comparison.isEquality = true := by
  unfold strategy
  split_ifs with h
  · simpa [and_assoc] using h
  · refine iff_of_false nofun fun h' => h ?_
    simpa [and_assoc] using h'

/-- A lookup gives what a scan would have given. -/
theorem truthOver_eq_scan (ht : t ≠ .null) (hv : v ≠ .null) (hws : ∀ w ∈ ws, w.Fits t)
    {s : Settings} (h : p.strategy s = .lookup → ¬v.Crosses t) :
    p.truthOver s v t ws = (operand v t).bind (p.scanTruth s.nullRows · ws) := by
  cases hs : p.strategy s with
  | scan => rw [truthOver, hs]
  | lookup =>
    obtain ⟨-, hq, hc⟩ := strategy_eq_lookup_iff.mp hs
    have hscan : p.truthOver { s with useLookup := false } v t ws
        = (operand v t).bind (p.scanTruth s.nullRows · ws) := rfl
    rw [← hscan, truthOver_of_not_crosses hq hc ht hv (h hs) hws,
      truthOver_of_not_crosses hq hc ht hv (h hs) hws]

end Predicate

end QuantifiedComparison
