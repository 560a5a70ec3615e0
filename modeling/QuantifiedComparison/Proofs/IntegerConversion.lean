import QuantifiedComparison.Proofs.Kleene
import QuantifiedComparison.Proofs.Membership
import QuantifiedComparison.Proofs.NearestDouble
import QuantifiedComparison.Proofs.RowEquality
import QuantifiedComparison.Proofs.RowsRead

/-!
# Doubles as integers

A double is whole if the number it stands for is an integer (`Double.whole?_eq_some_iff`), and it
converts to the integer of that number. There is one exception: `2 ^ 63`, one past the greatest
integer, converts to the greatest one (`Double.integerOfFloat?_eq_some_iff`).

A lookup of a double among integers is one of its conversion
(`Predicate.evaluate_float_true_iff`). So for every double but `2 ^ 63` it finds the row that is the
same number, and no other (`Value.exactlyConverted_iff`, `Value.converts_past_greatest`).
-/

namespace QuantifiedComparison

namespace Double

open Float.Model Float.Model.UnpackedFloat

section Whole

variable {f : Float} {s : Sign} {m k : Nat} {e : Int} {hm : 0 < m}

theorem whole?_of_unpack (hf : f.toModel.unpack = .finite s m e hm)
    (h : k * 2 ^ (-e).toNat = m * 2 ^ e.toNat) : whole? f = some (signed s k) := by
  rw [whole?, hf]
  dsimp only
  split_ifs with he hdvd
  · have hk : k = m * 2 ^ e.toNat := by simpa [show (-e).toNat = 0 by omega] using h
    rw [hk]
    rfl
  · have hmk : m = k * 2 ^ (-e).toNat := by simpa [show e.toNat = 0 by omega] using h.symm
    rw [hmk, Nat.pow_eq, Nat.mul_div_cancel _ (Nat.two_pow_pos _)]
  · have hmk : m = k * 2 ^ (-e).toNat := by simpa [show e.toNat = 0 by omega] using h.symm
    exact absurd (by rw [hmk]; exact Nat.mul_mod_left k _) hdvd

/-- The integer that a finite double stands for is its scaled mantissa, with the double's sign. -/
theorem exists_signed_of_number? (hf : f.toModel.unpack = .finite s m e hm) {n : Int}
    (h : number? f = some (.ofRat n)) : ∃ k : Nat, n = signed s k ∧ scaled m e = k := by
  have hpos := scaled_pos (e := e) hm
  rw [number?, hf] at h
  cases s with
  | positive =>
    rw [unpackedNumber?, Option.some.injEq, Number.ofRat_inj] at h
    rw [h] at hpos ⊢
    obtain ⟨k, rfl⟩ := Int.eq_ofNat_of_zero_le (Int.cast_pos.mp hpos).le
    exact ⟨k, rfl, rfl⟩
  | negative =>
    rw [unpackedNumber?, Option.some.injEq, Number.ofRat_inj, neg_eq_iff_eq_neg,
      ← Int.cast_neg] at h
    rw [h] at hpos ⊢
    obtain ⟨k, hk⟩ := Int.eq_ofNat_of_zero_le (Int.cast_pos.mp hpos).le
    exact ⟨k, by rw [signed]; omega, by rw [hk]; rfl⟩

theorem whole?_eq_some_iff {n : Int} : whole? f = some n ↔ number? f = some (.ofRat n) := by
  constructor
  · intro h
    rcases exists_of_whole h with ⟨⟨s, hf⟩, rfl⟩ | ⟨s, m, e, hm, k, hf, rfl, hk⟩
    · rw [number?, hf, Int.cast_zero]
      rfl
    · exact number?_of_unpack hf hk
  · intro h
    cases hf : f.toModel.unpack with
    | notANumber =>
      rw [number?, hf] at h
      cases h
    | infinity s =>
      rw [number?, hf] at h
      cases s with
      | positive => exact absurd (Option.some.inj h) (Number.ofRat_lt_top n).ne'
      | negative => exact absurd (Option.some.inj h) (Number.bot_lt_ofRat n).ne
    | zero s =>
      rw [number?, hf, unpackedNumber?, Option.some.injEq, Number.ofRat_inj] at h
      obtain rfl : n = 0 := by exact_mod_cast h.symm
      rw [whole?, hf]
    | finite s m e hm =>
      obtain ⟨k, rfl, hk⟩ := exists_signed_of_number? hf h
      exact whole?_of_unpack hf (scaled_eq_natCast_iff.mp hk)

end Whole

/-- The double stands for an integer of 64 bits. -/
def StandsForInteger (f : Float) : Prop :=
  ∃ n : Int, number? f = some (.ofRat n) ∧ -2 ^ 63 ≤ n ∧ n ≤ 2 ^ 63 - 1

theorem standsForInteger_iff {f : Float} :
    StandsForInteger f ↔ ∃ i : Int64, number? f = some (.ofRat i.toInt) := by
  constructor
  · rintro ⟨n, hn, hlo, hhi⟩
    exact ⟨Int64.ofInt n, by rw [Int64.toInt_ofInt_of_le hlo (by omega)]; exact hn⟩
  · rintro ⟨i, hi⟩
    exact ⟨i.toInt, hi, i.le_toInt, Int.le_sub_one_of_lt i.toInt_lt⟩

theorem integerOfFloat?_eq_some_iff {f : Float} {i : Int64} : Value.integerOfFloat? f = some i ↔
    number? f = some (.ofRat i.toInt) ∨
      number? f = some (.ofRat (2 ^ 63)) ∧ i = Int64.maxValue := by
  have hbound : ((Integer.bound : Int) : ℚ) = 2 ^ 63 := by norm_num [Integer.bound]
  simp only [Value.integerOfFloat?, Option.bind_eq_some_iff, whole?_eq_some_iff, ← hbound]
  constructor
  · rintro ⟨n, hn, hi⟩
    split_ifs at hi with hpast
    · exact .inr ⟨hpast ▸ hn, (Option.some.inj hi).symm⟩
    · exact .inl (Integer.ofInt?_eq_some_iff.mp hi ▸ hn)
  · rintro (hi | ⟨hpast, rfl⟩)
    · have hne : i.toInt ≠ Integer.bound := i.toInt_lt.ne
      exact ⟨i.toInt, hi, by rw [if_neg hne, Integer.ofInt?_eq_some_iff]⟩
    · exact ⟨Integer.bound, hpast, if_pos rfl⟩

/-- `2 ^ 63`, one past the greatest integer. -/
def pastGreatest : Float := .ofBits 0x43e0000000000000

theorem number?_pastGreatest : number? pastGreatest = some (.ofRat (2 ^ 63)) := by
  have hunpack : pastGreatest.toModel.unpack = .finite .positive (2 ^ 52) 11 (by decide) := rfl
  rw [number?_of_unpack (n := 2 ^ 63) hunpack rfl]
  norm_num [signed]

end Double

theorem Row.isAmong_integer_iff {i : Int64} {rows : List Row} :
    Row.isAmong [.integer i] rows = true ↔ [.integer i] ∈ rows := by
  rw [isAmong_iff]
  constructor
  · rintro ⟨row, hrow, heq⟩
    obtain ⟨v, rest, hv, hrest, rfl⟩ :=
      List.forall₂_cons_right_iff.mp (equals_iff_forall₂.mp heq)
    obtain rfl := List.forall₂_nil_right_iff.mp hrest
    rwa [Value.eq_of_equals (Value.equals_symm hv) nofun]
  · exact fun hrow => ⟨_, hrow, equals_iff_forall₂.mpr (.cons (beq_self_eq_true i) .nil)⟩

namespace Predicate

section Lookup

variable {f : Float} {probe : Probe}

theorem lookup_float_holds_iff (hopen : probe.closed = false)
    (htype : probe.columnType 0 = .integer) : (lookup (.float f) probe).1 = .ok .holds ↔
      probe.table.randomAccess = true ∧
        ∃ i, Value.integerOfFloat? f = some i ∧ [.integer i] ∈ probe.table.rows := by
  have hne : probe.columnType 0 ≠ .null := by simp [htype]
  have hkey : lookupKey (.float f) (probe.columnType 0)
      = .ok ((Value.integerOfFloat? f).map .integer) := by
    rw [htype]
    rfl
  -- A key that cannot be made or is not there leaves the question whether NULL is, and the answer to
  -- that is never TRUE.
  have hnull : (probe.table.contains [.null]).map (fun b => if b then Truth.unknown else .fails)
      ≠ .ok .holds := by
    rcases probe.table.contains [.null] with e | _ | _ <;> simp [Except.map]
  rcases hf : Value.integerOfFloat? f with _ | i
  · rw [hf] at hkey
    rw [lookup_of_no_key hne hkey, lookupNull_opened hopen]
    exact iff_of_false hnull (by simp)
  rw [hf] at hkey
  simp only [Option.some.injEq, exists_eq_left']
  rcases haccess : probe.table.randomAccess with _ | _
  · have hrefused : probe.table.contains [.integer i] = .error .noRandomAccess := by
      rw [ResultTable.contains, haccess]
      rfl
    rw [lookup_of_found hopen hne hkey (by simp [hrefused]), hrefused]
    simp [Except.map]
  have hreply : probe.table.contains [.integer i]
      = .ok (Row.isAmong [.integer i] probe.table.rows) := by
    rw [ResultTable.contains, haccess]
    rfl
  rw [and_iff_right rfl, ← Row.isAmong_integer_iff]
  rcases hamong : Row.isAmong [.integer i] probe.table.rows with _ | _
  · rw [lookup_of_absent hopen hne hkey (by rw [hreply, hamong])]
    exact iff_of_false hnull (by simp)
  · rw [lookup_of_found hopen hne hkey (by simp [hreply, hamong]), hreply, hamong]
    exact iff_of_true rfl rfl

/-- A predicate that looks a double up among integers is true if they are there with the double's
conversion. -/
theorem evaluate_float_true_iff {p : Predicate} {plan : Plan} {ctx : Context} {response : Response}
    (hrun : plan.run ctx = .ok response) (htype : response.table.columnType 0 = .integer)
    (hleft : p.left.eval ctx = .ok (.float f)) (hstrategy : p.strategy ctx.settings = .lookup)
    (registry : Registry) : (p.evaluate plan ctx registry).outcome = .ok (.boolean true) ↔
      response.table.randomAccess = true ∧
        ∃ i, Value.integerOfFloat? f = some i ∧ [.integer i] ∈ response.table.rows := by
  rw [evaluate, Plan.withProbe_ok hrun, answer, hleft]
  dsimp only
  by_cases hrows : response.table.rows = []
  · obtain ⟨-, hq, -⟩ := strategy_eq_lookup_iff.mp hstrategy
    have hcount : (Probe.start response).rowCount = 0 := congrArg List.length hrows
    rw [if_pos hcount, hq, hrows]
    simp [Quantifier.vacuous]
  · have hcount : (Probe.start response).rowCount ≠ 0 :=
      fun h => hrows (List.length_eq_zero_iff.mp h)
    have hlookup : (lookup (.float f) (.start response)).1 = .ok .holds ↔ _ :=
      lookup_float_holds_iff rfl htype
    rw [if_neg hcount, hstrategy]
    refine Iff.trans ?_ hlookup
    show (lookup (.float f) (.start response)).1.map Truth.toValue = _ ↔ _
    rcases (lookup (.float f) (.start response)).1 with e | truth
    · simp [Except.map]
    · show Except.ok truth.toValue = .ok Truth.holds.toValue ↔ _
      rw [Except.ok.injEq, Except.ok.injEq, Truth.toValue_inj]

end Lookup

end Predicate

namespace Value

/-- The double converts to the integer that it stands for, and to nothing if there is none; so a
lookup among integers finds it where one is the same number. -/
structure ExactlyConverted (f : Float) : Prop where
  succeeds : (∃ v, (float f).convert .integer = .ok v) ↔ Double.StandsForInteger f
  exact : ∀ v, (float f).convert .integer = .ok v →
    ∃ i, v = integer i ∧ Double.number? f = some (.ofRat i.toInt)
  fails : ¬Double.StandsForInteger f →
    (float f).convert .integer = .error (.notConvertible (float f) .integer)
  found : ∀ (p : Predicate) (plan : Plan) (ctx : Context) (response : Response)
    (registry : Registry), plan.run ctx = .ok response →
    response.table.columnType 0 = .integer → p.left.eval ctx = .ok (float f) →
    p.strategy ctx.settings = .lookup →
      ((p.evaluate plan ctx registry).outcome = .ok (boolean true) ↔
        response.table.randomAccess = true ∧
          ∃ i, [integer i] ∈ response.table.rows ∧ Double.number? f = some (.ofRat i.toInt))

theorem convert_float_ok_iff {f : Float} {v : Value} : (float f).convert .integer = .ok v ↔
    ∃ i, v = integer i ∧ integerOfFloat? f = some i := by
  rw [convert_ok_iff, convert?, Option.map_eq_some_iff]
  simp only [eq_comm, and_comm]

/-- Conversion to an integer is exact for all doubles but `2 ^ 63`. -/
theorem exactlyConverted_iff (f : Float) :
    ExactlyConverted f ↔ Double.number? f ≠ some (.ofRat (2 ^ 63)) := by
  constructor
  · intro h hpast
    have hconvert : (float f).convert .integer = .ok (integer Int64.maxValue) :=
      convert_float_ok_iff.mpr
        ⟨_, rfl, Double.integerOfFloat?_eq_some_iff.mpr (.inr ⟨hpast, rfl⟩)⟩
    obtain ⟨i, hi, hnumber⟩ := h.exact _ hconvert
    obtain rfl := integer.inj hi
    rw [hpast, Option.some.injEq, Number.ofRat_inj, Int64.toInt_maxValue] at hnumber
    norm_num at hnumber
  · intro hne
    have hexact : ∀ i, integerOfFloat? f = some i ↔ Double.number? f = some (.ofRat i.toInt) :=
      fun i => Double.integerOfFloat?_eq_some_iff.trans (or_iff_left fun h => hne h.1)
    have hsucceeds : (∃ v, (float f).convert .integer = .ok v) ↔ Double.StandsForInteger f := by
      rw [Double.standsForInteger_iff]
      constructor
      · rintro ⟨v, hv⟩
        obtain ⟨i, -, hi⟩ := convert_float_ok_iff.mp hv
        exact ⟨i, (hexact i).mp hi⟩
      · rintro ⟨i, hi⟩
        exact ⟨_, convert_float_ok_iff.mpr ⟨i, rfl, (hexact i).mpr hi⟩⟩
    refine ⟨hsucceeds, fun v hv => ?exact, fun hnone => ?fails, ?found⟩
    case exact =>
      obtain ⟨i, rfl, hi⟩ := convert_float_ok_iff.mp hv
      exact ⟨i, rfl, (hexact i).mp hi⟩
    case fails =>
      rcases hconvert : (float f).convert .integer with e | v
      · rw [(convert_error_iff.mp hconvert).2]
      · exact absurd (hsucceeds.mp ⟨v, hconvert⟩) hnone
    case found =>
      intro p plan ctx response registry hrun htype hleft hstrategy
      rw [Predicate.evaluate_float_true_iff hrun htype hleft hstrategy]
      simp only [hexact, and_comm]

/-- `2 ^ 63` converts to the greatest integer, which is another number, and is found where there is
no other. -/
theorem converts_past_greatest :
    Double.number? Double.pastGreatest = some (.ofRat (2 ^ 63)) ∧
      ¬Double.StandsForInteger Double.pastGreatest ∧
      (float Double.pastGreatest).convert .integer = .ok (integer Int64.maxValue) ∧
      ((Predicate.isIn (.literal (float Double.pastGreatest)) 0).evaluate
        (.values (.literals "v" .integer [integer Int64.maxValue])) {} {}).outcome
        = .ok (boolean true) := by
  refine ⟨Double.number?_pastGreatest, ?_, rfl, rfl⟩
  rintro ⟨n, hn, -, hhi⟩
  rw [Double.number?_pastGreatest, Option.some.injEq, Number.ofRat_inj] at hn
  have hpast : n = 2 ^ 63 := by exact_mod_cast hn.symm
  omega

end Value

end QuantifiedComparison
