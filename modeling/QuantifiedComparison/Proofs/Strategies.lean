import QuantifiedComparison.Proofs.Independence
import QuantifiedComparison.Proofs.Kleene
import QuantifiedComparison.Proofs.Membership
import QuantifiedComparison.Proofs.WholeDouble

/-!
# When the strategies agree

A scan and a lookup give the same answer for an ANY with an equality, except where an integer meets
doubles or a double integers. There a scan compares with the nearest double, and fails at
not-a-number; a lookup compares exactly, and never fails. `strategies_agree_iff` says for which
values this makes no difference.
-/

namespace QuantifiedComparison

def Context.withLookup (ctx : Context) (b : Bool) : Context :=
  { ctx with settings := { ctx.settings with useLookup := b } }

theorem Double.compare?_of_numbers {a b : Float} (ha : a.isNaN = false) (hb : b.isNaN = false) :
    ∃ o, compare? a b = some o ∧ (o == .eq) = (a == b) := by
  cases ho : compare? a b with
  | none =>
    rcases compare?_eq_none_iff.mp ho with h | h
    · exact absurd (h.symm.trans ha) nofun
    · exact absurd (h.symm.trans hb) nofun
  | some o =>
    refine ⟨o, rfl, ?_⟩
    rw [Bool.eq_iff_iff, beq_iff_compare, ho]
    simp

namespace Predicate

/-- Whether an equality over the values comes out the same by comparison and by lookup. An integer
has to be met before the first not-a-number. A double that is not a number must meet nothing, and
one that some integer is rounded to must stand for an integer that is there. -/
def Concordant (v : Value) (t : ColumnType) (ws : List Value) : Prop :=
  match v, t with
  | .integer i, .float =>
    ∀ (j : Nat) (f : Float), ws[j]? = some (.float f) → f.isNaN = true →
      ∃ (k : Nat) (g : Float), k < j ∧ ws[k]? = some (.float g) ∧ (Double.ofInteger i == g) = true
  | .float f, .integer =>
    (f.isNaN = true → ∀ w ∈ ws, w = .null) ∧
      ∀ i, .integer i ∈ ws → (f == Double.ofInteger i) = true →
        ∃ k, Value.integerOfFloat? f = some k ∧ .integer k ∈ ws
  | _, _ => True

theorem lookupTruth_integer (i : Int64) (ws : List Value) :
    lookupTruth (.integer i) .float ws = .ok (.ofSearch
      ((Value.float (Double.ofInteger i)).isAmong ws) (ws.any (·.isNull))) :=
  rfl

theorem lookupTruth_float (f : Float) (ws : List Value) :
    lookupTruth (.float f) .integer ws = .ok (.ofSearch
      (((Value.integerOfFloat? f).map Value.integer).any (·.isAmong ws)) (ws.any (·.isNull))) :=
  rfl

theorem any_compare?_iff {f : Float} {ws : List Value} (hws : ∀ w ∈ ws, w.Fits .integer) :
    (ws.any fun w => (Value.float f).compare? w == some .eq) = true ↔
      ∃ i, .integer i ∈ ws ∧ (f == Double.ofInteger i) = true := by
  rw [List.any_eq_true]
  constructor
  · rintro ⟨w, hw, hfound⟩
    rcases hws w hw with rfl | htype
    · cases hfound
    · obtain ⟨i, rfl⟩ := Value.exists_integer htype
      exact ⟨i, hw, hfound⟩
  · rintro ⟨i, hi, heq⟩
    exact ⟨.integer i, hi, heq⟩

section Crossing

variable {p : Predicate} (hc : p.comparison.isEquality = true)
include hc

theorem matchesRow_of_mixed {v w : Value} {a b : Float} (hw : w ≠ .null)
    (hcomp : v.compare? w = Double.compare? a b) (htype : v.type ≠ w.type) :
    p.matchesRow v [w] =
      if a.isNaN = true ∨ b.isNaN = true then .error (.incomparableBy p.comparison v.type w.type)
      else .ok (a == b) := by
  rw [matchesRow_value p v hw, Comparison.outcome_of_isEquality hc, Comparison.equality, hcomp,
    if_neg htype]
  by_cases h : a.isNaN = true ∨ b.isNaN = true
  · rw [Double.compare?_eq_none_iff.mpr h, if_pos h]
  · rw [if_neg h]
    simp only [not_or, Bool.not_eq_true] at h
    obtain ⟨o, ho, heq⟩ := Double.compare?_of_numbers h.1 h.2
    rw [ho, ← heq]

theorem matchesRow_integer (i : Int64) (g : Float) :
    p.matchesRow (.integer i) [.float g] =
      if g.isNaN = true then .error (.incomparableBy p.comparison .integer .float)
      else .ok (Double.ofInteger i == g) := by
  rw [matchesRow_of_mixed hc (v := .integer i) (w := .float g) (a := Double.ofInteger i) (b := g)
    nofun rfl nofun]
  simp only [Double.isNaN_ofInteger, Bool.false_eq_true, false_or]
  rfl

theorem matchesRow_float (f : Float) (i : Int64) :
    p.matchesRow (.float f) [.integer i] =
      if f.isNaN = true then .error (.incomparableBy p.comparison .float .integer)
      else .ok (f == Double.ofInteger i) := by
  rw [matchesRow_of_mixed hc (v := .float f) (w := .integer i) (a := f) (b := Double.ofInteger i)
    nofun rfl nofun]
  simp only [Double.isNaN_ofInteger, Bool.false_eq_true, or_false]
  rfl

theorem stopsAt_integer_iff (hq : p.quantifier = .any) {i : Int64} {w : Value}
    (hw : w.Fits .float) : p.stopsAt (.integer i) w = true ↔
      ∃ g, w = .float g ∧ (g.isNaN = true ∨ (Double.ofInteger i == g) = true) := by
  by_cases hnull : w = .null
  · subst hnull
    rw [stopsAt_of_ok (matchesRow_null p _), hq]
    exact ⟨nofun, nofun⟩
  obtain ⟨g, rfl⟩ := Value.exists_float (hw.resolve_left hnull)
  simp only [Value.float.injEq, exists_eq_left']
  by_cases hnan : g.isNaN = true
  · rw [stopsAt, matchesRow_integer hc, if_pos hnan]
    exact iff_of_true rfl (.inl hnan)
  · rw [stopsAt_of_ok ((matchesRow_integer hc i g).trans (if_neg hnan)), hq, or_iff_right hnan]
    exact Bool.eq_iff_iff.mp (Bool.bne_false _)

theorem agree_integer_of_passed (hq : p.quantifier = .any) (policy : NullRowPolicy) {i : Int64}
    {ws : List Value} (hws : ∀ w ∈ ws, w.Fits .float)
    (hfind : ws.find? (p.stopsAt (.integer i)) = none) :
    p.scanTruth policy (.integer i) ws = lookupTruth (.integer i) .float ws ∧
      Concordant (.integer i) .float ws := by
  have hpassed : ∀ g, .float g ∈ ws → ¬(g.isNaN = true ∨ (Double.ofInteger i == g) = true) :=
    fun g hg h => List.find?_eq_none.mp hfind _ hg
      ((stopsAt_integer_iff hc hq (hws _ hg)).mpr ⟨g, rfl, h⟩)
  have habsent : (Value.float (Double.ofInteger i)).isAmong ws = false := by
    rw [← Bool.not_eq_true, Value.isAmong_float_iff]
    rintro ⟨g, hg, heq⟩
    exact hpassed g hg (.inr heq)
  refine ⟨?_, fun j f hj hnan => ?_⟩
  · rw [scanTruth, hfind, lookupTruth_integer, habsent, hq]
    exact congrArg Except.ok (policy.resolve_any _ _)
  · exact absurd (.inl hnan) (hpassed f (List.mem_of_getElem? hj))

/-- The value that stops a scan is the first to be equal or not a number. Only if it is not a number
do the strategies differ, and then no equal one stands before it. -/
theorem agree_integer_of_stopped (hq : p.quantifier = .any) (policy : NullRowPolicy) {i : Int64}
    {ws : List Value} (hws : ∀ w ∈ ws, w.Fits .float) {w : Value}
    (hfind : ws.find? (p.stopsAt (.integer i)) = some w) :
    (p.scanTruth policy (.integer i) ws).toOption
        = (lookupTruth (.integer i) .float ws).toOption ↔
      Concordant (.integer i) .float ws := by
  rw [scanTruth, hfind, lookupTruth_integer]
  obtain ⟨hstop, n, hn, rfl, hbefore⟩ := List.find?_eq_some_iff_getElem.mp hfind
  obtain ⟨g, hg, hdecides⟩ := (stopsAt_integer_iff hc hq (hws _ (List.getElem_mem hn))).mp hstop
  -- nothing before position `n` is equal or not a number
  have hat : ws[n]? = some (.float g) := by rw [List.getElem?_eq_getElem hn, hg]
  have hpassed : ∀ k f, k < n → ws[k]? = some (.float f) →
      ¬(f.isNaN = true ∨ (Double.ofInteger i == f) = true) := by
    intro k f hk hf h
    obtain ⟨hlt, hget⟩ := List.getElem?_eq_some_iff.mp hf
    have hpass := hbefore k hk
    rw [hget, (stopsAt_integer_iff hc hq (.inr rfl)).mpr ⟨f, rfl, h⟩] at hpass
    cases hpass
  rw [hg]
  dsimp only
  rw [matchesRow_integer hc]
  by_cases hnan : g.isNaN = true
  · refine iff_of_false ?_ fun hconc => ?_
    · rw [if_pos hnan]
      intro hsome
      cases hsome
    · obtain ⟨k, f, hk, hf, heq⟩ := hconc n g hat hnan
      exact hpassed k f hk hf (.inr heq)
  · have heq : (Double.ofInteger i == g) = true := hdecides.resolve_left hnan
    have hfound : (Value.float (Double.ofInteger i)).isAmong ws = true :=
      Value.isAmong_float_iff.mpr ⟨g, List.mem_of_getElem? hat, heq⟩
    refine iff_of_true ?_ fun j f hj hf => ⟨n, g, ?_, hat, heq⟩
    · rw [if_neg hnan, heq, hfound, hq]
      rfl
    · rcases Nat.lt_trichotomy n j with h | rfl | h
      · exact h
      · cases hat.symm.trans hj
        exact absurd hf hnan
      · exact absurd (.inl hf) (hpassed j f h hj)

theorem agree_integer_iff (hq : p.quantifier = .any) (policy : NullRowPolicy) {i : Int64}
    {ws : List Value} (hws : ∀ w ∈ ws, w.Fits .float) :
    (p.scanTruth policy (.integer i) ws).toOption
        = (lookupTruth (.integer i) .float ws).toOption ↔
      Concordant (.integer i) .float ws := by
  cases hfind : ws.find? (p.stopsAt (.integer i)) with
  | none =>
    obtain ⟨htruth, hconc⟩ := agree_integer_of_passed hc hq policy hws hfind
    exact iff_of_true (congrArg _ htruth) hconc
  | some w => exact agree_integer_of_stopped hc hq policy hws hfind

theorem agree_notANumber_iff (hq : p.quantifier = .any) (policy : NullRowPolicy) {f : Float}
    (hf : f.isNaN = true) {ws : List Value} (hws : ∀ w ∈ ws, w.Fits .integer) :
    (p.scanTruth policy (.float f) ws).toOption
        = (lookupTruth (.float f) .integer ws).toOption ↔
      ∀ w ∈ ws, w = .null := by
  rw [lookupTruth_float, Double.integerOfFloat?_of_isNaN hf, Option.map_none, Option.any_none]
  by_cases hnull : ∀ w ∈ ws, w = .null
  · have hnone : ∀ w ∈ ws, p.matchesRow (.float f) [w] = .ok false := by
      intro w hw
      rw [hnull w hw, matchesRow_null]
    refine iff_of_true ?_ hnull
    rw [scanTruth_any hq policy hnone, List.any_eq_false.mpr fun _ _ => Bool.false_ne_true]
  · refine iff_of_false ?_ hnull
    have herror : ∀ w ∈ ws, w ≠ .null → ∃ e, p.matchesRow (.float f) [w] = .error e := by
      intro w hw hne
      obtain ⟨i, rfl⟩ := Value.exists_integer ((hws w hw).resolve_left hne)
      exact ⟨_, (matchesRow_float hc f i).trans (if_pos hf)⟩
    rw [scanTruth]
    cases hfind : ws.find? (p.stopsAt (.float f)) with
    | none =>
      refine absurd (fun w hw => ?_) hnull
      by_contra hne
      obtain ⟨e, he⟩ := herror w hw hne
      refine List.find?_eq_none.mp hfind w hw ?_
      rw [stopsAt, he]
    | some w =>
      have hne : w ≠ .null := by
        rintro rfl
        have hstop := List.find?_some hfind
        rw [stopsAt_of_ok (matchesRow_null p _), hq] at hstop
        cases hstop
      obtain ⟨e, he⟩ := herror w (List.mem_of_find?_eq_some hfind) hne
      dsimp only
      rw [he]
      intro hsome
      cases hsome

theorem matchesRow_number {f : Float} (hf : f.isNaN = false) {w : Value} (hw : w.Fits .integer) :
    p.matchesRow (.float f) [w] = .ok ((Value.float f).compare? w == some .eq) := by
  rcases hw with rfl | htype
  · rfl
  · obtain ⟨i, rfl⟩ := Value.exists_integer htype
    rw [matchesRow_float hc, if_neg (by rw [hf]; exact Bool.false_ne_true)]
    rfl

theorem agree_number_iff (hq : p.quantifier = .any) (policy : NullRowPolicy) {f : Float}
    (hf : f.isNaN = false) {ws : List Value} (hws : ∀ w ∈ ws, w.Fits .integer) :
    (p.scanTruth policy (.float f) ws).toOption
        = (lookupTruth (.float f) .integer ws).toOption ↔
      ∀ i, .integer i ∈ ws → (f == Double.ofInteger i) = true →
        ∃ k, Value.integerOfFloat? f = some k ∧ .integer k ∈ ws := by
  have hkey : ((Value.integerOfFloat? f).map Value.integer).any (·.isAmong ws) = true ↔
      ∃ k, Value.integerOfFloat? f = some k ∧ .integer k ∈ ws := by
    cases Value.integerOfFloat? f <;> simp [Value.isAmong_integer_iff]
  rw [scanTruth_any hq policy fun w hw => matchesRow_number hc hf (hws w hw),
    lookupTruth_float]
  show some _ = some _ ↔ _
  rw [Option.some.injEq, Truth.ofSearch_inj, Bool.eq_iff_iff, any_compare?_iff hws, hkey]
  constructor
  · intro h i hi heq
    exact h.mp ⟨i, hi, heq⟩
  · intro h
    refine ⟨fun ⟨i, hi, heq⟩ => h i hi heq, fun ⟨k, hk, hmem⟩ => ⟨k, hmem, ?_⟩⟩
    exact Double.beq_symm (Double.beq_iff_compare.mpr (Double.compare?_ofInteger hk))

theorem agree_float_iff (hq : p.quantifier = .any) (policy : NullRowPolicy) {f : Float}
    {ws : List Value} (hws : ∀ w ∈ ws, w.Fits .integer) :
    (p.scanTruth policy (.float f) ws).toOption
        = (lookupTruth (.float f) .integer ws).toOption ↔
      Concordant (.float f) .integer ws := by
  cases hf : f.isNaN with
  | true =>
    rw [agree_notANumber_iff hc hq policy hf hws]
    refine ⟨fun h => ⟨fun _ => h, fun i hi heq => ?_⟩, fun h => h.1 hf⟩
    cases h _ hi
  | false =>
    rw [agree_number_iff hc hq policy hf hws]
    refine ⟨fun h => ⟨fun h' => ?_, h⟩, fun h => h.2⟩
    rw [hf] at h'
    cases h'

end Crossing

variable {p : Predicate} {v : Value} {t : ColumnType}

theorem concordant_of_not_crosses (h : ¬v.Crosses t) (ws : List Value) : Concordant v t ws := by
  unfold Concordant
  split
  · exact absurd (.inl ⟨rfl, rfl⟩) h
  · exact absurd (.inr ⟨rfl, rfl⟩) h
  · trivial

theorem truthOver_useLookup (hq : p.quantifier = .any) (hc : p.comparison.isEquality = true)
    (s : Settings) (v : Value) (t : ColumnType) (ws : List Value) :
    p.truthOver { s with useLookup := true } v t ws = lookupTruth v t ws := by
  rw [truthOver, strategy, hq, hc]
  rfl

theorem truthOver_agree_iff (hq : p.quantifier = .any) (hc : p.comparison.isEquality = true)
    (ht : t ≠ .null) (hv : v ≠ .null) {ws : List Value} (hws : ∀ w ∈ ws, w.Fits t)
    (s : Settings) :
    (p.truthOver { s with useLookup := true } v t ws).toOption
        = (p.truthOver { s with useLookup := false } v t ws).toOption ↔
      Concordant v t ws := by
  by_cases hcross : v.Crosses t
  · rw [truthOver_useLookup hq hc, eq_comm]
    rcases hcross with ⟨htype, rfl⟩ | ⟨htype, rfl⟩
    · obtain ⟨i, rfl⟩ := Value.exists_integer htype
      exact agree_integer_iff hc hq s.nullRows hws
    · obtain ⟨f, rfl⟩ := Value.exists_float htype
      exact agree_float_iff hc hq s.nullRows hws
  · refine iff_of_true ?_ (concordant_of_not_crosses hcross ws)
    rw [truthOver_of_not_crosses hq hc ht hv hcross hws,
      truthOver_of_not_crosses hq hc ht hv hcross hws]

theorem toOption_map_toValue_inj {a b : Except Error Truth} :
    (a.map Truth.toValue).toOption = (b.map Truth.toValue).toOption ↔ a.toOption = b.toOption := by
  rcases a with e | a <;> rcases b with e' | b
  · exact iff_of_true rfl rfl
  · exact iff_of_false nofun nofun
  · exact iff_of_false nofun nofun
  · show some a.toValue = some b.toValue ↔ some a = some b
    rw [Option.some.injEq, Option.some.injEq, Truth.toValue_inj]

section Agreement

variable {q : ValuesPlan} {ctx : Context} {table : ResultTable}

theorem run_withLookup (b : Bool) : q.run (ctx.withLookup b) = q.run ctx :=
  ValuesPlan.run_congr fun _ _ => rfl

theorem eval_withLookup (e : Expr) (b : Bool) : e.eval (ctx.withLookup b) = e.eval ctx :=
  Expr.eval_congr fun _ _ => rfl

/-- With and without lookups an equality comes out the same, or fails both times, exactly for
concordant values. -/
theorem strategies_agree_iff (hplan : Plan.Optimized (.values q)) (htypes : q.types = [t])
    (ht : t ≠ .null) (hq : p.quantifier = .any) (hc : p.comparison.isEquality = true)
    (hrun : q.run ctx = .ok table) (hrows : table.rows ≠ []) (hleft : p.left.eval ctx = .ok v)
    (hv : v ≠ .null) (registry : Registry) :
    (p.evaluate (.values q) (ctx.withLookup true) registry).outcome.toOption
        = (p.evaluate (.values q) (ctx.withLookup false) registry).outcome.toOption ↔
      Concordant v t table.firsts := by
  have htable := hplan.singleColumn_of_run htypes hrun
  have houtcome : ∀ b, (p.evaluate (.values q) (ctx.withLookup b) registry).outcome
      = (p.truthOver { ctx.settings with useLookup := b } v t table.firsts).map Truth.toValue :=
    fun b => evaluate_value registry ((run_withLookup b).trans hrun) htable ht
      ((eval_withLookup p.left b).trans hleft) hv hrows
  rw [houtcome, houtcome, toOption_map_toValue_inj,
    truthOver_agree_iff hq hc ht hv htable.fits]

theorem strategies_agree_on_one :
    ((isIn (.literal (.float 1.0)) 0).evaluate
        (.values (.literals "v" .integer [.null, .integer 1])) (Context.withLookup {} true) {}
      ).outcome.toOption
    = ((isIn (.literal (.float 1.0)) 0).evaluate
        (.values (.literals "v" .integer [.null, .integer 1])) (Context.withLookup {} false) {}
      ).outcome.toOption := by
  have hfits : ∀ w ∈ [Value.null, .integer 1], w.Fits .integer := by decide
  have hconc : Concordant (.float 1.0) .integer [.null, .integer 1] := by
    refine ⟨fun hnan => absurd hnan (by decide +kernel), fun i _ _ => ⟨1, by decide +kernel, ?_⟩⟩
    exact List.mem_cons_of_mem _ List.mem_cons_self
  exact (strategies_agree_iff (v := .float 1.0) (ValuesPlan.optimized_literals "v" .integer _) rfl
    nofun rfl rfl (ValuesPlan.run_literals "v" hfits {}) nofun rfl nofun {}).mpr hconc

/-- `2 ^ 53`, to which the integer `2 ^ 53 + 1` is rounded. -/
def greatDouble : Float := .ofBits 0x4340000000000000

/-- A scan for the double `2 ^ 53` stops at the integer `2 ^ 53 + 1`, and a lookup does not find
it. -/
theorem strategies_differ :
    ((isIn (.literal (.float greatDouble)) 0).evaluate
        (.values (.literals "v" .integer [.integer 9007199254740993]))
        (Context.withLookup {} false) {}).outcome = .ok (.boolean true) ∧
      ((isIn (.literal (.float greatDouble)) 0).evaluate
        (.values (.literals "v" .integer [.integer 9007199254740993]))
        (Context.withLookup {} true) {}).outcome = .ok (.boolean false) := by
  have hfits : ∀ w ∈ [Value.integer 9007199254740993], w.Fits .integer := by decide
  have hrun := fun b => ValuesPlan.run_literals "v" hfits (Context.withLookup {} b)
  have htable := fun b =>
    (ValuesPlan.optimized_literals "v" .integer _).singleColumn_of_run rfl (hrun b)
  exact ⟨(evaluate_value (v := .float greatDouble) {} (hrun false) (htable false) nofun rfl nofun
    nofun).trans rfl, (evaluate_value (v := .float greatDouble) {} (hrun true) (htable true) nofun
    rfl nofun nofun).trans rfl⟩

end Agreement

end Predicate

end QuantifiedComparison
