import Mathlib.Data.List.Basic
import QuantifiedComparison.Double
import QuantifiedComparison.Integer
import QuantifiedComparison.Text.Quoted

/-!
# The text of numbers

An integer is written as its digits, after a dash if it is negative, and reads back
(`Integer.ofText?_text`). A double is written in digits with an optional point, or as one of three
words. Neither holds a quote or a line feed (`Integer.plain_text`, `Double.plain_text`).
-/

namespace QuantifiedComparison

namespace Text

/-- Without quotes and line feeds. -/
def Plain (cs : List Char) : Prop :=
  ∀ c ∈ cs, c ≠ Quoted.quote ∧ c ≠ '\n'

instance : DecidablePred Plain :=
  fun cs => List.decidableBAll _ cs

section Plain

variable {cs ds : List Char}

theorem plain_append : Plain (cs ++ ds) ↔ Plain cs ∧ Plain ds :=
  List.forall_mem_append

theorem Plain.quote_notMem (h : Plain cs) : Quoted.quote ∉ cs :=
  fun hmem => (h _ hmem).1 rfl

theorem Plain.lineFeed_notMem (h : Plain cs) : '\n' ∉ cs :=
  fun hmem => (h _ hmem).2 rfl

theorem Plain.subset (h : Plain ds) (hsub : cs ⊆ ds) : Plain cs :=
  fun c hc => h c (hsub hc)

theorem plain_of_isDigit (h : ∀ c ∈ cs, c.isDigit = true) : Plain cs := by
  intro c hc
  have hdigit := h c hc
  constructor
  · rintro rfl
    exact absurd hdigit (by decide)
  · rintro rfl
    exact absurd hdigit (by decide)

end Plain

section Digits

theorem isDigit_of_mem_toDigits {n : Nat} : ∀ c ∈ Nat.toDigits 10 n, c.isDigit = true :=
  fun _ => Nat.isDigit_of_mem_toDigits (by decide) (by decide)

theorem natural?_toDigits (n : Nat) : natural? (Nat.toDigits 10 n) = some n := by
  have hdigits : (Nat.toDigits 10 n).all Char.isDigit = true :=
    List.all_eq_true.mpr isDigit_of_mem_toDigits
  rw [natural?, if_pos ⟨Nat.toDigits_ne_nil, hdigits⟩, Nat.ofDigitChars_ten_toDigits]

theorem toList_toString_nat (n : Nat) : (toString n).toList = Nat.toDigits 10 n := by
  rw [Nat.toString_eq_ofList_toDigits, String.toList_ofList]

theorem toList_toString_negSucc (n : Nat) :
    (toString (Int.negSucc n)).toList = '-' :: Nat.toDigits 10 (n + 1) := by
  show ("-" ++ (n + 1).repr).toList = _
  rw [String.toList_append, Nat.repr_eq_ofList_toDigits]
  simp only [String.toList_ofList]
  rfl

theorem integer?_of_isDigit {c : Char} (h : c.isDigit = true) (cs : List Char) :
    integer? (c :: cs) = (natural? (c :: cs)).map fun n => (n : Int) := by
  unfold integer?
  split
  · rename_i heq
    obtain ⟨rfl, -⟩ := List.cons.inj heq
    exact absurd h (by decide)
  · rename_i heq
    obtain ⟨rfl, -⟩ := List.cons.inj heq
    exact absurd h (by decide)
  · rfl

theorem integer?_toString : ∀ n : Int, integer? (toString n).toList = some n
  | .ofNat n => by
    obtain ⟨c, cs, hcs⟩ := List.exists_cons_of_ne_nil (Nat.toDigits_ne_nil (b := 10) (n := n))
    have hdigit : c.isDigit = true :=
      isDigit_of_mem_toDigits (n := n) c (hcs ▸ List.mem_cons_self)
    show integer? (toString n).toList = _
    rw [toList_toString_nat, hcs, integer?_of_isDigit hdigit, ← hcs, natural?_toDigits]
    rfl
  | .negSucc n => by
    rw [toList_toString_negSucc, integer?, natural?_toDigits]
    rfl

end Digits

end Text

namespace Integer

theorem ofText?_text (i : Int64) : ofText? (text i).toList = some i := by
  rw [ofText?, text, Text.integer?_toString]
  exact ofInt?_eq_some_iff.mpr rfl

/-- The first character is a dash or a digit, and so are all others. -/
theorem isDigit_of_mem_text {i : Int64} : ∀ c ∈ (text i).toList, c = '-' ∨ c.isDigit = true := by
  intro c hc
  rcases hi : i.toInt with n | n
  · have hc' : c ∈ (toString n).toList := by rwa [text, hi] at hc
    rw [Text.toList_toString_nat] at hc'
    exact .inr (Text.isDigit_of_mem_toDigits c hc')
  · rw [text, hi, Text.toList_toString_negSucc, List.mem_cons] at hc
    exact hc.imp_right (Text.isDigit_of_mem_toDigits c)

theorem text_ne_nil (i : Int64) : (text i).toList ≠ [] := by
  intro h
  have hread := ofText?_text i
  rw [h] at hread
  exact absurd hread nofun

theorem plain_text (i : Int64) : Text.Plain (text i).toList := by
  intro c hc
  rcases isDigit_of_mem_text c hc with rfl | hdigit
  · exact ⟨by decide, by decide⟩
  · have hplain : Text.Plain [c] := Text.plain_of_isDigit (by simpa using hdigit)
    exact hplain c List.mem_cons_self

end Integer

theorem Decimal.plain_positional (d : Decimal) : Text.Plain d.positional.toList := by
  have hdigits : Text.Plain (toString d.coefficient).toList := by
    rw [Text.toList_toString_nat]
    exact Text.plain_of_isDigit Text.isDigit_of_mem_toDigits
  have hzeros : ∀ n, Text.Plain (zeros n).toList := by
    intro n
    rw [zeros, String.toList_ofList]
    refine Text.plain_of_isDigit fun c hc => ?_
    rw [List.eq_of_mem_replicate hc]
    rfl
  unfold positional
  dsimp only
  split_ifs
  · rw [String.toList_append, String.toList_ofList, Text.plain_append]
    exact ⟨hdigits, hzeros _⟩
  · simp only [String.toList_append, String.toList_ofList, Text.plain_append]
    exact ⟨⟨hdigits.subset (List.take_subset _ _), by decide⟩,
      hdigits.subset (List.drop_subset _ _)⟩
  · simp only [String.toList_append, String.toList_ofList, Text.plain_append]
    exact ⟨⟨by decide, hzeros _⟩, hdigits⟩

theorem Double.plain_text (f : Float) : Text.Plain (text f).toList := by
  have hsign : ∀ s, Text.Plain (signText s).toList := by
    intro s
    cases s <;> decide
  unfold text
  split
  · decide
  · rw [String.toList_append, Text.plain_append]
    exact ⟨hsign _, by decide⟩
  · rw [String.toList_append, Text.plain_append]
    exact ⟨hsign _, by decide⟩
  · rw [String.toList_append, Text.plain_append]
    exact ⟨hsign _, Decimal.plain_positional _⟩

end QuantifiedComparison
