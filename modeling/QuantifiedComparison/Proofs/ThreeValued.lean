import QuantifiedComparison.Proofs.Kleene
import QuantifiedComparison.Proofs.Membership

/-!
# Soundness for three-valued logic

A predicate compares its left value with every value of the query. If none of the comparisons fails,
an ANY is their disjunction, and an ALL is the first of them that does not hold
(`evaluate_sound`). Under the policy that certifies counterexamples an ALL stops at a NULL as it
stops at a counterexample, and says the same of both (`certified_all_iff`).
-/

namespace QuantifiedComparison.Predicate

/-- The truth of one comparison. -/
def rowTruth (c : Comparison) (left w : Value) : Except Error Truth :=
  if left.isNull || w.isNull then .ok .unknown else (c.outcome left w).map .ofBool

/-- Numbers compare with numbers as they are; all else is converted to the column's type. -/
def comparand (left : Value) (t : ColumnType) : Except Error Value :=
  if left.type.isNumeric ∧ t.isNumeric then .ok left else left.convert t

section Comparand

variable {v v' : Value} {t : ColumnType}

theorem operand_eq_comparand (ht : t ≠ .null) (v : Value) : operand v t = comparand v t := by
  unfold operand comparand
  refine if_congr ?_ rfl rfl
  rw [or_iff_right ht]
  exact and_comm

theorem comparand_null (t : ColumnType) : comparand .null t = .ok .null := by
  rw [comparand, if_neg (fun h => absurd h.1 (by decide)), Value.convert_ok_iff]
  exact Value.convert?_null t

theorem comparand_ne_null (h : comparand v t = .ok v') (hv : v ≠ .null) : v' ≠ .null := by
  unfold comparand at h
  split_ifs at h
  · rwa [← Except.ok.inj h]
  · exact (Value.type_of_convert h hv).2

end Comparand

section Rows

variable {p : Predicate} {left : Value} {ws : List Value} {ks : List Truth}

/-- A comparison with NULL is unknown and no other is. -/
theorem matchesRow_of_rowTruth (hleft : left ≠ .null) {w : Value} {k : Truth}
    (h : rowTruth p.comparison left w = .ok k) :
    p.matchesRow left [w] = .ok (k == .holds) ∧ w.isNull = (k == .unknown) := by
  unfold rowTruth at h
  by_cases hnull : w = .null
  · subst hnull
    rw [if_pos (by simp [Value.isNull])] at h
    obtain rfl := Except.ok.inj h
    exact ⟨rfl, rfl⟩
  · rw [matchesRow_value p left hnull]
    rw [Value.isNull_eq_false_iff.mpr hleft, Value.isNull_eq_false_iff.mpr hnull] at *
    cases hout : p.comparison.outcome left w with
    | error e =>
      rw [hout] at h
      cases h
    | ok b =>
      rw [hout] at h
      obtain rfl : Truth.ofBool b = k := Except.ok.inj h
      cases b <;> exact ⟨rfl, rfl⟩

theorem exists_truths (hleft : left ≠ .null) (hks : ws.mapM (rowTruth p.comparison left) = .ok ks) :
    ∃ k : Value → Truth, ks = ws.map k ∧ ∀ w ∈ ws,
      p.matchesRow left [w] = .ok (k w == .holds) ∧ w.isNull = (k w == .unknown) := by
  have hget : ∀ w ∈ ws, rowTruth p.comparison left w
      = .ok ((rowTruth p.comparison left w).toOption.getD .unknown) := by
    intro w hw
    obtain ⟨k, -, hk⟩ := ok_of_mapM_ok hks hw
    rw [hk]
    rfl
  exact ⟨_, Except.ok.inj (hks.symm.trans (mapM_eq_map hget)),
    fun w hw => matchesRow_of_rowTruth hleft (hget w hw)⟩

theorem ofSearch_eq_disjunction (ks : List Truth) :
    Truth.ofSearch (ks.any (· == .holds)) (ks.any (· == .unknown)) = .disjunction ks := by
  refine Truth.eq_of_iff ?_ ?_
  · rw [Truth.disjunction_eq_holds_iff, Truth.ofSearch_eq_holds_iff, List.any_eq_true]
    simp
  · rw [Truth.disjunction_eq_fails_iff, Truth.ofSearch_eq_fails_iff, List.any_eq_false,
      List.any_eq_false]
    constructor
    · rintro ⟨hholds, hunknown⟩ k hk
      have := hholds k hk
      have := hunknown k hk
      cases k <;> simp_all
    · intro h
      refine ⟨fun k hk => ?_, fun k hk => ?_⟩ <;> (rw [h k hk]; decide)

theorem scanTruth_disjunction (hq : p.quantifier = .any) (policy : NullRowPolicy)
    (hleft : left ≠ .null) (hks : ws.mapM (rowTruth p.comparison left) = .ok ks) :
    p.scanTruth policy left ws = .ok (.disjunction ks) := by
  obtain ⟨k, rfl, hk⟩ := exists_truths hleft hks
  have hnull : ws.any (·.isNull) = ws.any (k · == .unknown) := by
    refine Bool.eq_iff_iff.mpr ?_
    simp only [List.any_eq_true]
    exact exists_congr fun w => and_congr_right fun hw => by rw [(hk w hw).2]
  rw [scanTruth_any hq policy fun w hw => (hk w hw).1, hnull, ← ofSearch_eq_disjunction,
    List.any_map, List.any_map]
  rfl

/-- With NULLs demoted an ALL is the first truth that does not hold. -/
theorem scanTruth_demote (hq : p.quantifier = .all) (hleft : left ≠ .null)
    (hks : ws.mapM (rowTruth p.comparison left) = .ok ks) :
    p.scanTruth .demote left ws = .ok ((ks.find? (· != .holds)).getD .holds) := by
  obtain ⟨k, rfl, hk⟩ := exists_truths hleft hks
  rw [scanTruth_all hq .demote fun w hw => (hk w hw).1, List.find?_map]
  refine congrArg Except.ok ?_
  split
  · rename_i hfind
    rw [show ws.find? ((· != Truth.holds) ∘ k) = none from hfind]
    rfl
  · rename_i w hfind
    have hne := List.find?_some hfind
    rw [show ws.find? ((· != Truth.holds) ∘ k) = some w from hfind,
      (hk w (List.mem_of_find?_eq_some hfind)).2]
    show NullRowPolicy.demote.resolve .all false _ = k w
    revert hne
    cases k w <;> decide

/-- With counterexamples certified an ALL holds of everything or fails. -/
theorem scanTruth_certify (hq : p.quantifier = .all) (hleft : left ≠ .null)
    (hks : ws.mapM (rowTruth p.comparison left) = .ok ks) :
    p.scanTruth .certify left ws = .ok (.ofBool (ks.all (· == .holds))) := by
  obtain ⟨k, rfl, hk⟩ := exists_truths hleft hks
  rw [scanTruth_all hq .certify fun w hw => (hk w hw).1, List.all_map]
  refine congrArg Except.ok ?_
  cases hfind : ws.find? fun w => !(k w == .holds) with
  | none =>
    have hall : ws.all ((· == .holds) ∘ k) = true := by
      refine List.all_eq_true.mpr fun w hw => ?_
      simpa using List.find?_eq_none.mp hfind w hw
    rw [hall]
    rfl
  | some w =>
    have hnot : ws.all ((· == .holds) ∘ k) = false := by
      refine List.all_eq_false.mpr ⟨w, List.mem_of_find?_eq_some hfind, ?_⟩
      simpa using List.find?_some hfind
    rw [hnot]
    dsimp only
    cases w.isNull <;> rfl

end Rows

/-- What a predicate over rows with these truths may say. -/
def Sound (q : Quantifier) (ks : List Truth) (truth : Truth) : Prop :=
  match q with
  | .any => truth = .disjunction ks
  | .all => (truth = .holds ↔ ∀ k ∈ ks, k = .holds) ∧ (truth = .fails → .fails ∈ ks) ∧
      (truth = .unknown → .unknown ∈ ks)

theorem sound_empty (q : Quantifier) : Sound q [] (.ofBool q.vacuous) := by
  cases q with
  | any => rfl
  | all => exact ⟨iff_of_true rfl nofun, nofun, nofun⟩

theorem sound_unknown (q : Quantifier) {ks : List Truth} (hne : ks ≠ [])
    (h : ∀ k ∈ ks, k = .unknown) : Sound q ks .unknown := by
  obtain ⟨k, hk⟩ := List.exists_mem_of_ne_nil ks hne
  have hmem : .unknown ∈ ks := h k hk ▸ hk
  cases q with
  | any =>
    refine Truth.eq_of_iff (iff_of_false nofun fun hholds => ?_)
      (iff_of_false nofun fun hfails => ?_)
    · cases h _ (Truth.disjunction_eq_holds_iff.mp hholds)
    · cases Truth.disjunction_eq_fails_iff.mp hfails _ hmem
  | all =>
    refine ⟨iff_of_false nofun fun hall => ?_, nofun, fun _ => hmem⟩
    cases hall _ hmem

theorem sound_first (ks : List Truth) :
    Sound .all ks ((ks.find? (· != .holds)).getD .holds) := by
  cases hfind : ks.find? (· != .holds) with
  | none =>
    refine ⟨iff_of_true rfl fun k hk => ?_, nofun, nofun⟩
    simpa using List.find?_eq_none.mp hfind k hk
  | some k =>
    have hmem := List.mem_of_find?_eq_some hfind
    have hne : k ≠ .holds := by simpa using List.find?_some hfind
    refine ⟨iff_of_false hne fun hall => hne (hall k hmem), ?_, ?_⟩ <;>
      (rintro rfl; exact hmem)

section Evaluate

variable {p : Predicate} {q : ValuesPlan} {t : ColumnType} {ctx : Context} {table : ResultTable}
  {v v' : Value} {ks : List Truth}

theorem truths_of_empty (hrows : table.rows = [])
    (hks : table.firsts.mapM (rowTruth p.comparison v') = .ok ks) : ks = [] := by
  rw [ResultTable.firsts, hrows] at hks
  exact (Except.ok.inj hks).symm

/-- A value over rows is scanned for, or looked up to the same effect. -/
theorem evaluate_compared (registry : Registry) (hrun : q.run ctx = .ok table)
    (htable : table.SingleColumn t) (ht : t ≠ .null) (hleft : p.left.eval ctx = .ok v)
    (hv : v ≠ .null) (hrows : table.rows ≠ []) (hv' : comparand v t = .ok v')
    (hlookup : p.strategy ctx.settings = .lookup → ¬v.Crosses t) :
    (p.evaluate (.values q) ctx registry).outcome
      = (p.scanTruth ctx.settings.nullRows v' table.firsts).map Truth.toValue := by
  rw [evaluate_value registry hrun htable ht hleft hv hrows,
    truthOver_eq_scan ht hv htable.fits hlookup, operand_eq_comparand ht, hv']
  rfl

/-- Where NULLs are demoted and no comparison fails, a predicate says what three-valued logic
allows. -/
theorem evaluate_sound (hplan : Plan.Optimized (.values q)) (htypes : q.types = [t])
    (ht : t ≠ .null) (hrun : q.run ctx = .ok table) (hleft : p.left.eval ctx = .ok v)
    (hpolicy : ctx.settings.nullRows = .demote) (hv' : comparand v t = .ok v')
    (hks : table.firsts.mapM (rowTruth p.comparison v') = .ok ks)
    (hlookup : table.rows ≠ [] → p.strategy ctx.settings = .lookup → ¬v.Crosses t)
    (registry : Registry) :
    ∃ truth : Truth, (p.evaluate (.values q) ctx registry).outcome = .ok truth.toValue ∧
      Sound p.quantifier ks truth := by
  have htable := hplan.singleColumn_of_run htypes hrun
  by_cases hrows : table.rows = []
  · obtain rfl := truths_of_empty hrows hks
    refine ⟨.ofBool p.quantifier.vacuous, ?_, sound_empty p.quantifier⟩
    rw [evaluate_empty registry hrun hleft hrows, Truth.toValue_ofBool]
  have hne : ks ≠ [] := by
    intro hnil
    have hlength := length_of_mapM_ok hks
    rw [hnil] at hlength
    exact htable.firsts_ne_nil hrows (List.length_eq_zero_iff.mp hlength.symm)
  by_cases hnull : v = .null
  · subst hnull
    obtain rfl : .null = v' := Except.ok.inj ((comparand_null t).symm.trans hv')
    refine ⟨.unknown, evaluate_null registry hrun hleft hrows, sound_unknown _ hne fun k hk => ?_⟩
    obtain ⟨w, -, hw⟩ := mem_of_mapM_ok hks hk
    exact (Except.ok.inj hw).symm
  have houtcome :=
    evaluate_compared registry hrun htable ht hleft hnull hrows hv' (hlookup hrows)
  have hv'null := comparand_ne_null hv' hnull
  rw [hpolicy] at houtcome
  cases hq : p.quantifier with
  | any =>
    rw [scanTruth_disjunction hq .demote hv'null hks] at houtcome
    exact ⟨.disjunction ks, houtcome, rfl⟩
  | all =>
    rw [scanTruth_demote hq hv'null hks] at houtcome
    exact ⟨_, houtcome, sound_first ks⟩

/-- `5 IN (1, NULL)` is unknown. -/
theorem evaluate_sound_five :
    ((isIn (.literal (.integer 5)) 0).evaluate
      (.values (.literals "v" .integer [.integer 1, .null])) {} {}).outcome = .ok .null := by
  have hfits : ∀ w ∈ [Value.integer 1, .null], w.Fits .integer := by decide
  obtain ⟨truth, houtcome, hsound⟩ := evaluate_sound (p := isIn (.literal (.integer 5)) 0)
    (v := .integer 5) (ValuesPlan.optimized_literals "v" .integer _) rfl
    nofun (ValuesPlan.run_literals "v" hfits {}) rfl rfl rfl rfl (fun _ _ => by decide) {}
  obtain rfl : truth = .unknown := hsound
  exact houtcome

/-- Where counterexamples are certified, an ALL fails at a NULL too. So it has the truth of its rows
exactly if NULLs come with a counterexample. -/
theorem certified_all_iff (hplan : Plan.Optimized (.values q)) (htypes : q.types = [t])
    (ht : t ≠ .null) (hq : p.quantifier = .all) (hrun : q.run ctx = .ok table)
    (hleft : p.left.eval ctx = .ok v) (hv : v ≠ .null)
    (hpolicy : ctx.settings.nullRows = .certify) (hv' : comparand v t = .ok v')
    (hks : table.firsts.mapM (rowTruth p.comparison v') = .ok ks) (registry : Registry) :
    (p.evaluate (.values q) ctx registry).outcome = .ok (.boolean (ks.all (· == .holds))) ∧
      ((p.evaluate (.values q) ctx registry).outcome = .ok (Truth.conjunction ks).toValue ↔
        (.unknown ∈ ks → .fails ∈ ks)) := by
  have houtcome : (p.evaluate (.values q) ctx registry).outcome
      = .ok (.boolean (ks.all (· == .holds))) := by
    by_cases hrows : table.rows = []
    · obtain rfl := truths_of_empty hrows hks
      rw [evaluate_empty registry hrun hleft hrows, hq]
      rfl
    have htable := hplan.singleColumn_of_run htypes hrun
    have hscan : p.strategy ctx.settings = .lookup → ¬v.Crosses t := by
      intro h
      cases hq.symm.trans (strategy_eq_lookup_iff.mp h).2.1
    rw [evaluate_compared registry hrun htable ht hleft hv hrows hv' hscan, hpolicy,
      scanTruth_certify hq (comparand_ne_null hv' hv) hks]
    exact congrArg Except.ok (Truth.toValue_ofBool _)
  refine ⟨houtcome, ?_⟩
  rw [houtcome, ← Truth.toValue_ofBool, Except.ok.injEq, Truth.toValue_inj]
  exact Truth.ofBool_all_eq_conjunction_iff

/-- `i > ALL (query)` -/
def aboveAll (i : Int64) : Predicate :=
  { left := .literal (.integer i), query := 0, quantifier := .all, comparison := .greater }

/-- `3 > ALL (1, NULL, 5)` has a counterexample besides NULL. -/
theorem certified_all_three :
    ((aboveAll 3).evaluate (.values (.literals "v" .integer [.integer 1, .null, .integer 5]))
      { settings := { nullRows := .certify } } {}).outcome
    = .ok (Truth.conjunction [.holds, .unknown, .fails]).toValue := by
  have hfits : ∀ w ∈ [Value.integer 1, .null, .integer 5], w.Fits .integer := by decide
  refine (certified_all_iff (p := aboveAll 3) (v := .integer 3)
    (ValuesPlan.optimized_literals "v" .integer _) rfl nofun rfl
    (ValuesPlan.run_literals "v" hfits _) rfl nofun rfl rfl rfl {}).2.mpr ?_
  decide

/-- `5 > ALL (NULL)` is false without a counterexample. -/
theorem certified_without_counterexample :
    [Value.null].mapM (rowTruth .greater (.integer 5)) = .ok [.unknown] ∧
      ((aboveAll 5).evaluate (.values (.literals "v" .integer [.null]))
        { settings := { nullRows := .certify } } {}).outcome = .ok (.boolean false) := by
  have hfits : ∀ w ∈ [Value.null], w.Fits .integer := by decide
  have hrun := ValuesPlan.run_literals "v" hfits { settings := { nullRows := .certify } }
  have htable := (ValuesPlan.optimized_literals "v" .integer _).singleColumn_of_run rfl hrun
  refine ⟨rfl, ?_⟩
  exact (evaluate_value (v := .integer 5) {} hrun htable nofun rfl nofun nofun).trans rfl

end Evaluate

end QuantifiedComparison.Predicate
