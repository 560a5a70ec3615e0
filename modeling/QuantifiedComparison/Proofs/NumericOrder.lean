import QuantifiedComparison.Proofs.NearestDouble
import QuantifiedComparison.Value.Order

/-!
# The order of numbers

Integers and doubles have the order of their numbers, except that an integer is equal to the double
nearest to it. So nothing is ever the wrong way round, and comparing is exact for integers of at
most 53 bits.

Every comparison but one of two integers is one of rounded numbers (`order_rounded`), and rounding
keeps the order. So the order is transitive, except that two integers may be equal to a double
between them without being equal to one another (`order_of_numbers`, `order_around_great_double`).
-/

namespace QuantifiedComparison.Value

/-- The number that an integer or a double stands for. -/
inductive Denotes : Value → Number → Prop
  | integer (i : Int64) : Denotes (.integer i) (.ofRat i.toInt)
  | float {f : Float} {x : Number} (h : Double.number? f = some x) : Denotes (.float f) x

/-- All integers stand for numbers, and all doubles but not-a-number. -/
theorem exists_denotes_iff {a : Value} :
    (∃ x, a.Denotes x) ↔ (∃ i, a = .integer i) ∨ ∃ f, a = .float f ∧ f.isNaN = false := by
  constructor
  · rintro ⟨x, i | h⟩
    · exact .inl ⟨i, rfl⟩
    · refine .inr ⟨_, rfl, ?_⟩
      rw [← Bool.not_eq_true, ← Double.number?_eq_none_iff, h]
      exact Option.some_ne_none _
  · rintro (⟨i, rfl⟩ | ⟨f, rfl, hf⟩)
    · exact ⟨_, .integer i⟩
    · rw [← Bool.not_eq_true, ← Double.number?_eq_none_iff] at hf
      obtain ⟨x, hx⟩ := Option.ne_none_iff_exists'.mp hf
      exact ⟨x, .float hx⟩

/-- One is an integer, and the other the double nearest to it. -/
inductive NearestPair : Value → Value → Prop
  | left {i : Int64} {f : Float} {x : ℚ} (h : Double.Nearest i.toInt f x) :
      NearestPair (.integer i) (.float f)
  | right {i : Int64} {f : Float} {x : ℚ} (h : Double.Nearest i.toInt f x) :
      NearestPair (.float f) (.integer i)

theorem nearestPair_left {i : Int64} {f : Float} :
    NearestPair (.integer i) (.float f) ↔ ∃ x, Double.Nearest i.toInt f x :=
  ⟨fun | .left h => ⟨_, h⟩, fun ⟨_, h⟩ => .left h⟩

theorem nearestPair_right {i : Int64} {f : Float} :
    NearestPair (.float f) (.integer i) ↔ ∃ x, Double.Nearest i.toInt f x :=
  ⟨fun | .right h => ⟨_, h⟩, fun ⟨_, h⟩ => .right h⟩

variable {a b c : Value} {x y z : Number}

theorem order_of_compare? {o : Ordering} (h : a.compare? b = some o) : a.order b = .ok o := by
  rw [order, h]

section Exact

theorem compares_integers (i j : Int64) :
    (compare i.toInt j.toInt).Compares (Number.ofRat i.toInt) (.ofRat j.toInt) :=
  (Number.ofRat_strictMono.comp Int.cast_strictMono).compares.mpr ((compare_iff _ _).mp rfl)

/-- Numbers compare as such, except that an integer is equal to the double nearest to it. -/
theorem order_denoted (ha : a.Denotes x) (hb : b.Denotes y) :
    ∃ o, a.order b = .ok o ∧ (NearestPair a b → o = .eq) ∧
      (¬NearestPair a b → o.Compares x y) := by
  rcases ha with i | hf <;> rcases hb with j | hg
  · exact ⟨_, rfl, nofun, fun _ => compares_integers i j⟩
  · obtain ⟨x, hi⟩ := Double.nearest_ofInteger i
    obtain ⟨o, h, ho⟩ := Double.compare?_compares hi.number hg
    rw [nearestPair_left]
    exact ⟨o, order_of_compare? h, hi.order hg ho⟩
  · obtain ⟨y, hj⟩ := Double.nearest_ofInteger j
    obtain ⟨o, h, ho⟩ := Double.compare?_compares hf hj.number
    obtain ⟨heq, hne⟩ := hj.order hf (Ordering.compares_swap.mpr ho)
    rw [nearestPair_right]
    exact ⟨o, order_of_compare? h, fun h => Ordering.swap_eq_eq.mp (heq h),
      fun h => Ordering.compares_swap.mp (hne h)⟩
  · obtain ⟨o, h, ho⟩ := Double.compare?_compares hf hg
    exact ⟨o, order_of_compare? h, nofun, fun _ => ho⟩

theorem NearestPair.eq_of_exact (hab : NearestPair a b) (ha : a.Denotes x) (hb : b.Denotes y)
    (h : ∀ i, a = .integer i ∨ b = .integer i → i.toInt.natAbs ≤ 2 ^ 53) : x = y := by
  cases hab with
  | @left i f z hz =>
    cases ha
    cases hb with | float hf =>
    have hexact := hz.eq_of_exact (Double.number?_ofInteger (h i (.inl rfl)))
    exact Option.some.inj (hexact ▸ hz.number.symm.trans hf)
  | @right i f z hz =>
    cases hb
    cases ha with | float hf =>
    have hexact := hz.eq_of_exact (Double.number?_ofInteger (h i (.inr rfl)))
    exact Option.some.inj (hf.symm.trans (hexact ▸ hz.number))

end Exact

section Rounded

/-- The number that an integer or a double has when it is compared with a double. -/
inductive RoundsTo : Value → Number → Prop
  | integer {i : Int64} {x : ℚ} (h : Double.Nearest i.toInt (Double.ofInteger i) x) :
      RoundsTo (.integer i) (.ofRat x)
  | float {f : Float} {x : Number} (h : Double.number? f = some x) : RoundsTo (.float f) x

theorem Denotes.exists_roundsTo (h : a.Denotes x) : ∃ x, a.RoundsTo x := by
  cases h with
  | integer i =>
    obtain ⟨x, hx⟩ := Double.nearest_ofInteger i
    exact ⟨_, .integer hx⟩
  | float h => exact ⟨x, .float h⟩

/-- Two integers compare as such, and all else as rounded. -/
theorem order_rounded (ha : a.RoundsTo x) (hb : b.RoundsTo y) :
    (∃ i j, a = .integer i ∧ b = .integer j) ∨ ∃ o, a.order b = .ok o ∧ o.Compares x y := by
  rcases ha with hi | hf <;> rcases hb with hj | hg
  · exact .inl ⟨_, _, rfl, rfl⟩
  · obtain ⟨o, h, ho⟩ := Double.compare?_compares hi.number hg
    exact .inr ⟨o, order_of_compare? h, ho⟩
  · obtain ⟨o, h, ho⟩ := Double.compare?_compares hf hj.number
    exact .inr ⟨o, order_of_compare? h, ho⟩
  · obtain ⟨o, h, ho⟩ := Double.compare?_compares hf hg
    exact .inr ⟨o, order_of_compare? h, ho⟩

theorem order_integers_gt_iff {i j : Int64} :
    (integer i).order (.integer j) = .ok .gt ↔ j.toInt < i.toInt := by
  rw [order_of_compare? rfl, Except.ok.injEq, compare_gt_iff_gt]

/-- Rounding keeps the order. -/
theorem RoundsTo.le (ha : a.RoundsTo x) (hb : b.RoundsTo y) (h : a.order b ≠ .ok .gt) : x ≤ y := by
  rcases order_rounded ha hb with ⟨i, j, rfl, rfl⟩ | ⟨o, ho, hcompares⟩
  · cases ha with | integer hi =>
    cases hb with | integer hj =>
    rw [Ne, order_integers_gt_iff, not_lt] at h
    exact Number.ofRat_le_iff.mpr (hi.le hj h)
  · rw [ho] at h
    exact hcompares.ne_gt.mp fun hgt => h (congrArg Except.ok hgt)

/-- Of three numbers in a row only two integers can be the wrong way round, with a double between
them that both are rounded to. -/
theorem order_trans_or (ha : a.RoundsTo x) (hb : b.RoundsTo y) (hc : c.RoundsTo z)
    (hab : a.order b ≠ .ok .gt) (hbc : b.order c ≠ .ok .gt) (hac : a.order c = .ok .gt) :
    (∃ i j, a = .integer i ∧ c = .integer j) ∧ NearestPair a b ∧ NearestPair b c := by
  have hxy := ha.le hb hab
  have hyz := hb.le hc hbc
  rcases order_rounded ha hc with ⟨i, j, rfl, rfl⟩ | ⟨o, ho, hcompares⟩
  · refine ⟨⟨i, j, rfl, rfl⟩, ?_⟩
    rw [order_integers_gt_iff] at hac
    cases ha with | integer hi =>
    cases hc with | integer hj =>
    cases hb with
    | integer hk =>
      rw [Ne, order_integers_gt_iff] at hab hbc
      omega
    | float hf =>
      have hzx := Number.ofRat_le_iff.mpr (hj.le hi hac.le)
      obtain rfl := le_antisymm hxy (hyz.trans hzx)
      have hz := le_antisymm hyz hzx
      exact ⟨.left (hi.congr hf), .right (hj.congr (hz ▸ hf))⟩
  · rw [hac] at ho
    obtain rfl := Except.ok.inj ho
    exact absurd hcompares (hxy.trans hyz).not_gt

end Rounded

/-- Integers stand for numbers, and doubles but not-a-number. Comparing two numbers always succeeds.
They compare as such, except that an integer is equal to the double nearest to it, and are in order
if both neighbours in a row of three are, except for two integers around a double that is nearest to
both. -/
theorem order_of_numbers :
    (∀ a : Value,
      (∃ x, a.Denotes x) ↔ (∃ i, a = .integer i) ∨ ∃ f, a = .float f ∧ f.isNaN = false) ∧
    ∀ {a b c : Value} {x y z : Number}, a.Denotes x → b.Denotes y → c.Denotes z →
      (∃ o, a.order b = .ok o ∧ (NearestPair a b → o = .eq) ∧ (¬NearestPair a b → o.Compares x y) ∧
        ((∀ i, a = .integer i ∨ b = .integer i → i.toInt.natAbs ≤ 2 ^ 53) → o.Compares x y)) ∧
      (a.order b ≠ .ok .gt → b.order c ≠ .ok .gt → a.order c = .ok .gt →
        (∃ i j, a = .integer i ∧ c = .integer j) ∧ NearestPair a b ∧ NearestPair b c) := by
  refine ⟨fun _ => exists_denotes_iff, fun {a b c x y z} ha hb hc => ?_⟩
  obtain ⟨x', hx'⟩ := ha.exists_roundsTo
  obtain ⟨y', hy'⟩ := hb.exists_roundsTo
  obtain ⟨z', hz'⟩ := hc.exists_roundsTo
  obtain ⟨o, ho, heq, hne⟩ := order_denoted ha hb
  refine ⟨⟨o, ho, heq, hne, fun hshort => ?_⟩, order_trans_or hx' hy' hz'⟩
  by_cases hab : NearestPair a b
  · rw [heq hab]
    exact hab.eq_of_exact ha hb hshort
  · exact hne hab

/-- The double `2 ^ 53` is nearest to `2 ^ 53 + 1`, half way to the next one, and to itself. -/
theorem order_of_numbers_great :
    let a := Value.integer 9007199254740993
    let b := Value.float (.ofBits 0x4340000000000000)
    let c := Value.integer 9007199254740992
    a.order b = .ok .eq ∧ NearestPair a b ∧ NearestPair b c := by
  intro a b c
  have hb : b.Denotes (.ofRat (9007199254740992 : Int)) :=
    .float (Double.number?_ofInteger (i := 9007199254740992) (by decide))
  have hab : a.order b = .ok .eq := rfl
  have hbc : b.order c = .ok .eq := rfl
  have ha : a.Denotes (.ofRat (9007199254740993 : Int)) := .integer _
  have hc : c.Denotes (.ofRat (9007199254740992 : Int)) := .integer _
  obtain ⟨⟨o, ho, heq, -⟩, htrans⟩ := order_of_numbers.2 ha hb hc
  obtain ⟨-, hpair, hpair'⟩ := htrans (by rw [hab]; nofun) (by rw [hbc]; nofun) rfl
  exact ⟨ho.trans (congrArg Except.ok (heq hpair)), hpair, hpair'⟩

/-- The integer `2 ^ 53 + 1` is equal to the double `2 ^ 53`, and that to the integer `2 ^ 53`. -/
theorem order_around_great_double :
    let a := Value.integer 9007199254740993
    let b := Value.float (.ofBits 0x4340000000000000)
    let c := Value.integer 9007199254740992
    a.Denotes (.ofRat (9007199254740993 : Int)) ∧ b.Denotes (.ofRat (9007199254740992 : Int)) ∧
      (¬∃ o, a.order b = .ok o ∧
        o.Compares (Number.ofRat (9007199254740993 : Int)) (.ofRat (9007199254740992 : Int))) ∧
      a.order b = .ok .eq ∧ b.order c = .ok .eq ∧ a.order c = .ok .gt := by
  intro a b c
  have hab : a.order b = .ok .eq := rfl
  refine ⟨.integer _, .float (Double.number?_ofInteger (i := 9007199254740992) (by decide)), ?_,
    hab, rfl, rfl⟩
  rintro ⟨o, ho, hcompares⟩
  obtain rfl := Except.ok.inj (hab.symm.trans ho)
  exact absurd (Int.cast_injective (Number.ofRat_inj.mp hcompares)) (by decide)

end QuantifiedComparison.Value
