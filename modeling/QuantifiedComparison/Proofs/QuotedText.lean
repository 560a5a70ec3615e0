import Mathlib.Data.List.Basic
import QuantifiedComparison.Text.Quoted

/-!
# Reading quoted text

A reader of SQL takes two quotes in a row as one quote of the text, and the first other quote as its
end. What it reads is the text of which the body was written (`content?_eq_some_iff`), so a quoted
text reads back whatever it holds (`content?_body`). A text that was put between quotes as it is
reads back only if it holds no quote (`content?_bare_iff`).
-/

namespace QuantifiedComparison.Text.Quoted

/-- The text up to the quote that ends it, and what follows that quote. -/
def content? : List Char → Option (List Char × List Char)
  | [] => none
  | '\x27' :: '\x27' :: cs => (content? cs).map fun r => (quote :: r.1, r.2)
  | '\x27' :: cs => some ([], cs)
  | c :: cs => (content? cs).map fun r => (c :: r.1, r.2)

/-- Reads from the opening quote. -/
def read? : List Char → Option (List Char × List Char)
  | '\x27' :: cs => content? cs
  | _ => none

section Body

theorem body_cons_quote (cs : List Char) : body (quote :: cs) = quote :: quote :: body cs := rfl

theorem body_cons_of_ne {c : Char} (h : c ≠ quote) (cs : List Char) :
    body (c :: cs) = c :: body cs := by
  rw [body, List.flatMap_cons, if_neg h]
  rfl

theorem mem_body {c : Char} : ∀ {cs : List Char}, c ∈ body cs ↔ c ∈ cs
  | [] => Iff.rfl
  | d :: cs => by
    by_cases hd : d = quote
    · rw [hd, body_cons_quote, List.mem_cons, List.mem_cons, List.mem_cons, mem_body, or_self_left]
    · rw [body_cons_of_ne hd, List.mem_cons, List.mem_cons, mem_body]

theorem length_le_body : ∀ cs : List Char, cs.length ≤ (body cs).length
  | [] => Nat.le_refl _
  | c :: cs => by
    have ih := length_le_body cs
    by_cases hc : c = quote
    · rw [hc, body_cons_quote, List.length_cons, List.length_cons, List.length_cons]
      omega
    · rw [body_cons_of_ne hc, List.length_cons, List.length_cons]
      omega

/-- A body is longer than its text by the quotes of the text. -/
theorem body_eq_self_iff : ∀ {cs : List Char}, body cs = cs ↔ quote ∉ cs
  | [] => by simp [body]
  | c :: cs => by
    by_cases hc : c = quote
    · have hlength := length_le_body cs
      refine iff_of_false (fun h => ?_) (by simp [hc])
      have heq := congrArg List.length h
      rw [hc, body_cons_quote, List.length_cons, List.length_cons, List.length_cons] at heq
      omega
    · rw [body_cons_of_ne hc, List.cons_inj_right, body_eq_self_iff, List.mem_cons, not_or]
      exact (and_iff_right (Ne.symm hc)).symm

end Body

section Content

variable {cs t rest : List Char}

theorem content?_cons_of_ne {c : Char} (h : c ≠ quote) (cs : List Char) :
    content? (c :: cs) = (content? cs).map fun r => (c :: r.1, r.2) := by
  conv_lhs => unfold content?
  split <;> simp_all [quote]

theorem content?_pair (cs : List Char) :
    content? (quote :: quote :: cs) = (content? cs).map fun r => (quote :: r.1, r.2) := rfl

theorem content?_end (h : rest.head? ≠ some quote) :
    content? (quote :: rest) = some ([], rest) := by
  have hnext : ∀ cs, rest ≠ quote :: cs := by
    rintro cs rfl
    exact h rfl
  rw [quote, content?]
  exact hnext

theorem content?_body (h : rest.head? ≠ some quote) :
    ∀ t : List Char, content? (body t ++ quote :: rest) = some (t, rest)
  | [] => content?_end h
  | c :: t => by
    by_cases hc : c = quote
    · rw [hc, body_cons_quote, List.cons_append, List.cons_append, content?_pair, content?_body h t]
      rfl
    · rw [body_cons_of_ne hc, List.cons_append, content?_cons_of_ne hc, content?_body h t]
      rfl

theorem eq_body_of_content? (h : content? cs = some (t, rest)) :
    cs = body t ++ quote :: rest ∧ rest.head? ≠ some quote := by
  induction cs using content?.induct generalizing t with
  | case1 => simp [content?] at h
  | case2 cs ih =>
    rw [content?, Option.map_eq_some_iff] at h
    obtain ⟨⟨t, r⟩, hread, heq⟩ := h
    obtain ⟨rfl, rfl⟩ := Prod.mk.inj heq
    obtain ⟨rfl, hrest⟩ := ih hread
    exact ⟨rfl, hrest⟩
  | case3 cs hnext =>
    rw [content?, Option.some.injEq, Prod.mk.injEq] at h
    · obtain ⟨rfl, rfl⟩ := h
      refine ⟨rfl, fun hhead => ?_⟩
      obtain ⟨cs, rfl⟩ := List.head?_eq_some_iff.mp hhead
      exact hnext cs rfl
    · exact hnext
  | case4 c cs hpair hquote ih =>
    have hc : c ≠ quote := hquote
    rw [content?_cons_of_ne hc, Option.map_eq_some_iff] at h
    obtain ⟨⟨t, r⟩, hread, heq⟩ := h
    obtain ⟨rfl, rfl⟩ := Prod.mk.inj heq
    obtain ⟨rfl, hrest⟩ := ih hread
    exact ⟨by rw [body_cons_of_ne hc, List.cons_append], hrest⟩

/-- What is read is the text that was written, and the reading ends with a quote that no other
follows. -/
theorem content?_eq_some_iff :
    content? cs = some (t, rest) ↔ cs = body t ++ quote :: rest ∧ rest.head? ≠ some quote := by
  constructor
  · exact eq_body_of_content?
  · rintro ⟨rfl, hrest⟩
    exact content?_body hrest t

theorem length_of_content? (h : content? cs = some (t, rest)) : rest.length < cs.length := by
  rw [(content?_eq_some_iff.mp h).1, List.length_append, List.length_cons]
  omega

/-- Between quotes as it is, a text reads back if it holds no quote, and only then. -/
theorem content?_bare_iff (h : rest.head? ≠ some quote) :
    content? (t ++ quote :: rest) = some (t, rest) ↔ quote ∉ t := by
  rw [content?_eq_some_iff, List.append_left_inj, eq_comm, body_eq_self_iff]
  exact and_iff_left h

end Content

end QuantifiedComparison.Text.Quoted
