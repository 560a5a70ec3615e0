import QuantifiedComparison.Proofs.QuotedText
import QuantifiedComparison.Text.Lines

/-!
# What indentation does to a text

Cutting a text into lines and writing each after four blanks puts four blanks after every line feed,
and drops a carriage return before it (`toList_indented`). So texts are indented one after the other
(`indentLines_append`), a text changes just if it holds a line feed (`indentLines_eq_self_iff`), and
the quotes of a quoted text stay where they are (`indentLines_quoted`).
-/

namespace QuantifiedComparison.Text

def margin : List Char := [' ', ' ', ' ', ' ']

/-- A margin after each line feed, and no carriage return before it. -/
def indentLines : List Char → List Char
  | [] => []
  | '\n' :: cs => '\n' :: (margin ++ indentLines cs)
  | '\x0d' :: '\n' :: cs => '\n' :: (margin ++ indentLines cs)
  | c :: cs => c :: indentLines cs

section Indent

variable {cs ds : List Char}

theorem indentLines_cons {c : Char} (hfeed : c ≠ '\n')
    (hreturn : c = '\x0d' → cs.head? ≠ some '\n') :
    indentLines (c :: cs) = c :: indentLines cs := by
  rw [indentLines]
  · exact hfeed
  · rintro ds rfl rfl
    exact hreturn rfl rfl

theorem indentLines_cons_of_ne {c : Char} (hfeed : c ≠ '\n') (hreturn : c ≠ '\x0d') :
    indentLines (c :: cs) = c :: indentLines cs :=
  indentLines_cons hfeed fun h => absurd h hreturn

/-- The last case of the definition is the one of `indentLines_cons`. -/
theorem head?_ne_of_not_pair {c : Char} (h : ∀ tail, c = '\x0d' → cs = '\n' :: tail → False) :
    c = '\x0d' → cs.head? ≠ some '\n' := by
  intro hc hhead
  obtain ⟨tail, rfl⟩ := List.head?_eq_some_iff.mp hhead
  exact h tail hc rfl

theorem indentLines_append (h : ds.head? ≠ some '\n') :
    indentLines (cs ++ ds) = indentLines cs ++ indentLines ds := by
  induction cs using indentLines.induct with
  | case1 => rfl
  | case2 cs ih =>
    rw [List.cons_append, indentLines, ih]
    rfl
  | case3 cs ih =>
    rw [List.cons_append, List.cons_append, indentLines, ih]
    rfl
  | case4 c cs hfeed hpair ih =>
    have hreturn := head?_ne_of_not_pair hpair
    have hnext : c = '\x0d' → (cs ++ ds).head? ≠ some '\n' := by
      cases cs with
      | nil => exact fun _ => h
      | cons d cs => exact hreturn
    rw [List.cons_append, indentLines_cons hfeed hnext, indentLines_cons hfeed hreturn, ih]
    rfl

theorem indentLines_of_lineFeed_notMem : ∀ {cs : List Char}, '\n' ∉ cs → indentLines cs = cs
  | [], _ => rfl
  | c :: cs, h => by
    obtain ⟨hc, hcs⟩ := not_or.mp (List.mem_cons.not.mp h)
    have hreturn : c = '\x0d' → cs.head? ≠ some '\n' :=
      fun _ hhead => hcs (List.mem_of_mem_head? hhead)
    rw [indentLines_cons (Ne.symm hc) hreturn, indentLines_of_lineFeed_notMem hcs]

/-- Each line feed makes the text longer by four blanks, less a carriage return. -/
theorem length_le_indentLines (cs : List Char) :
    cs.length + 3 * cs.count '\n' ≤ (indentLines cs).length := by
  induction cs using indentLines.induct with
  | case1 => exact Nat.le_refl _
  | case2 cs ih =>
    rw [indentLines, List.count_cons_self]
    simp only [List.length_cons, List.length_append, margin]
    omega
  | case3 cs ih =>
    rw [indentLines, List.count_cons_of_ne (by decide), List.count_cons_self]
    simp only [List.length_cons, List.length_append, margin]
    omega
  | case4 c cs hfeed hpair ih =>
    rw [indentLines, List.count_cons_of_ne hfeed, List.length_cons, List.length_cons]
    · omega
    · exact hfeed
    · exact hpair

theorem indentLines_eq_self_iff : indentLines cs = cs ↔ '\n' ∉ cs := by
  constructor
  · intro h
    have hlength := length_le_indentLines cs
    rw [h] at hlength
    exact List.count_eq_zero.mp (by omega)
  · exact indentLines_of_lineFeed_notMem

end Indent

section Quoted

open Quoted

variable {cs : List Char}

theorem head?_body (cs : List Char) : (body cs).head? = cs.head? := by
  cases cs with
  | nil => rfl
  | cons c cs =>
    by_cases hc : c = quote
    · rw [hc]
      rfl
    · rw [body_cons_of_ne hc]
      rfl

theorem indentLines_quote (cs : List Char) :
    indentLines (quote :: cs) = quote :: indentLines cs :=
  indentLines_cons_of_ne (by decide) (by decide)

/-- Doubling quotes and indenting lines do not meddle with each other. -/
theorem indentLines_body (cs : List Char) : indentLines (body cs) = body (indentLines cs) := by
  induction cs using indentLines.induct with
  | case1 => rfl
  | case2 cs ih =>
    rw [body_cons_of_ne (by decide), indentLines, indentLines, body_cons_of_ne (by decide), ih]
    rfl
  | case3 cs ih =>
    rw [body_cons_of_ne (by decide), body_cons_of_ne (by decide), indentLines, indentLines,
      body_cons_of_ne (by decide), ih]
    rfl
  | case4 c cs hfeed hpair ih =>
    have hreturn := head?_ne_of_not_pair hpair
    rw [indentLines_cons hfeed hreturn]
    by_cases hc : c = quote
    · rw [hc, body_cons_quote, body_cons_quote, indentLines_quote, indentLines_quote, ih]
    · rw [body_cons_of_ne hc, body_cons_of_ne hc,
        indentLines_cons hfeed (by rwa [head?_body]), ih]

theorem quote_notMem_indentLines (h : quote ∉ cs) : quote ∉ indentLines cs := by
  rw [← body_eq_self_iff] at h ⊢
  rw [← indentLines_body, h]

/-- A text between quotes, indented, is the indented text between the quotes. -/
theorem indentLines_quoted (cs : List Char) :
    indentLines (quote :: cs ++ [quote]) = quote :: indentLines cs ++ [quote] := by
  rw [indentLines_append (by decide), indentLines_quote]
  rfl

end Quoted

section Lines

theorem intercalate_append_cons {α : Type} (sep as bs : List α) (bss : List (List α)) :
    sep.intercalate ((as ++ bs) :: bss) = as ++ sep.intercalate (bs :: bss) := by
  cases bss with
  | nil => rw [List.intercalate_singleton, List.intercalate_singleton]
  | cons cs bss =>
    simp only [List.intercalate_cons_cons, List.append_assoc]

theorem lines_ne_nil (c : Char) (cs : List Char) : lines (c :: cs) ≠ [] := by
  unfold lines
  split
  · rename_i heq
    cases heq
  · exact List.cons_ne_nil _ _
  · exact List.cons_ne_nil _ _
  · split <;> exact List.cons_ne_nil _ _

theorem intercalate_empty_line {cs : List Char} (h : cs ≠ []) :
    ['\n'].intercalate (([] :: lines cs).map (margin ++ ·))
      = margin ++ '\n' :: ['\n'].intercalate ((lines cs).map (margin ++ ·)) := by
  obtain ⟨c, cs, rfl⟩ := List.exists_cons_of_ne_nil h
  obtain ⟨l, ls, heq⟩ := List.exists_cons_of_ne_nil (lines_ne_nil c cs)
  rw [heq, List.map_cons, List.map_cons, List.intercalate_cons_cons, List.append_nil,
    List.append_assoc]
  rfl

theorem intercalate_lines {cs : List Char} (hcs : cs ≠ []) (hlast : cs.getLast? ≠ some '\n') :
    ['\n'].intercalate ((lines cs).map (margin ++ ·)) = margin ++ indentLines cs := by
  induction cs using lines.induct with
  | case1 => exact absurd rfl hcs
  | case2 cs ih =>
    -- no line feed ends the text, so another line follows this one
    have hne : cs ≠ [] := by
      rintro rfl
      exact hlast rfl
    rw [List.getLast?_cons_of_ne_nil hne] at hlast
    rw [lines, intercalate_empty_line hne, ih hne hlast]
    rfl
  | case3 cs ih =>
    have hne : cs ≠ [] := by
      rintro rfl
      exact hlast rfl
    rw [List.getLast?_cons_of_ne_nil (List.cons_ne_nil _ _), List.getLast?_cons_of_ne_nil hne]
      at hlast
    rw [lines, intercalate_empty_line hne, ih hne hlast]
    rfl
  | case4 c cs hfeed hpair hnil ih =>
    obtain rfl : cs = [] := by
      by_contra hne
      obtain ⟨d, ds, rfl⟩ := List.exists_cons_of_ne_nil hne
      exact lines_ne_nil d ds hnil
    rw [indentLines_cons hfeed (head?_ne_of_not_pair hpair), lines]
    · rfl
    · exact hfeed
    · exact hpair
  | case5 c cs hfeed hpair l ls heq ih =>
    have hne : cs ≠ [] := by
      rintro rfl
      cases heq
    rw [List.getLast?_cons_of_ne_nil hne] at hlast
    have hjoined := ih hne hlast
    rw [heq, List.map_cons, intercalate_append_cons, List.append_cancel_left_eq] at hjoined
    rw [indentLines_cons hfeed (head?_ne_of_not_pair hpair), lines, heq, List.map_cons,
      intercalate_append_cons, List.append_cancel_left_eq, ← hjoined]
    · exact intercalate_append_cons ['\n'] [c] l (ls.map (margin ++ ·))
    · exact hfeed
    · exact hpair

/-- Indentation is a margin before the text and after each of its line feeds. -/
theorem toList_indented {cs : List Char} (hcs : cs ≠ []) (hlast : cs.getLast? ≠ some '\n') :
    (indented (lines cs)).toList = margin ++ indentLines cs := by
  rw [indented, String.toList_intercalate, List.map_map, ← intercalate_lines hcs hlast]
  congr 2
  funext l
  rw [Function.comp_apply, String.toList_append]
  exact congrArg (margin ++ ·) String.toList_ofList

end Lines

end QuantifiedComparison.Text
