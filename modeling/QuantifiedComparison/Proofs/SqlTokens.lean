import Mathlib.Data.List.TakeWhile
import QuantifiedComparison.Proofs.QuotedText
import QuantifiedComparison.Text.Blank

/-!
# Reading SQL as tokens

A reader of SQL passes over blanks, takes the letters and digits of a word together, and takes a
quoted text as one token, whatever it holds. What the tokens of a text are may depend on what
follows it, which can go on with its last word or quoted text; apart from that texts are read one
after the other (`Lexes.append`).
-/

namespace QuantifiedComparison

namespace Text

inductive Token
  | word (cs : List Char)
  | symbol (c : Char)
  | quoted (content : List Char)
  /-- A quoted text that nothing ends. -/
  | unclosed (cs : List Char)
deriving DecidableEq, Repr

def isWordChar (c : Char) : Bool :=
  c.isAlphanum || c = '_'

def tokens : List Char → List Token
  | [] => []
  | c :: cs =>
    if isBlank c then tokens cs
    else if isWordChar c then
      .word (c :: cs.takeWhile isWordChar) :: tokens (cs.dropWhile isWordChar)
    else if c = Quoted.quote then
      match _h : Quoted.content? cs with
      | some (content, rest) => .quoted content :: tokens rest
      | none => [.unclosed cs]
    else .symbol c :: tokens cs
termination_by cs => cs.length
decreasing_by
  · simp
  · have := (List.dropWhile_suffix isWordChar (l := cs)).length_le
    simp only [List.length_cons]
    omega
  · have := Quoted.length_of_content? _h
    simp only [List.length_cons]
    omega
  · simp

section Equations

variable {c : Char} {cs t rest : List Char}

theorem tokens_nil : tokens [] = [] := by
  rw [tokens]

theorem tokens_blank (h : isBlank c = true) : tokens (c :: cs) = tokens cs := by
  rw [tokens, if_pos h]

theorem tokens_word (hblank : isBlank c = false) (h : isWordChar c = true) : tokens (c :: cs)
    = .word (c :: cs.takeWhile isWordChar) :: tokens (cs.dropWhile isWordChar) := by
  rw [tokens, if_neg (by simp [hblank]), if_pos h]

theorem tokens_quoted (h : Quoted.content? cs = some (t, rest)) :
    tokens (Quoted.quote :: cs) = .quoted t :: tokens rest := by
  rw [tokens, if_neg (by decide), if_neg (by decide), if_pos rfl]
  split
  · rename_i content rest' heq
    rw [h, Option.some.injEq, Prod.mk.injEq] at heq
    rw [heq.1, heq.2]
  · rename_i heq
    rw [h] at heq
    cases heq

theorem tokens_symbol (hblank : isBlank c = false) (hword : isWordChar c = false)
    (hquote : c ≠ Quoted.quote) : tokens (c :: cs) = .symbol c :: tokens cs := by
  rw [tokens, if_neg (by simp [hblank]), if_neg (by simp [hword]), if_neg hquote]

end Equations

/-- What follows neither goes on with a word nor with a quoted text. -/
def Delimits (rest : List Char) : Prop :=
  ∀ c ∈ rest.head?, isWordChar c = false ∧ c ≠ Quoted.quote

/-- The text has these tokens wherever it stands, unless what follows goes on with the last. -/
def Lexes (cs : List Char) (ts : List Token) : Prop :=
  ∀ rest, Delimits rest → tokens (cs ++ rest) = ts ++ tokens rest

section Word

variable {c : Char} {rest : List Char} (h : ∀ c ∈ rest.head?, isWordChar c = false)
include h

theorem takeWhile_append_of_head (cs : List Char) :
    (cs ++ rest).takeWhile isWordChar = cs.takeWhile isWordChar := by
  have hrest : rest.takeWhile isWordChar = [] := by
    cases rest with
    | nil => rfl
    | cons c rest => rw [List.takeWhile_cons_of_neg (by simp [h c rfl])]
  rw [List.takeWhile_append, hrest]
  split_ifs with hall
  · rw [List.append_nil, (List.takeWhile_prefix isWordChar).eq_of_length hall]
  · rfl

theorem dropWhile_append_of_head (cs : List Char) :
    (cs ++ rest).dropWhile isWordChar = cs.dropWhile isWordChar ++ rest := by
  have hrest : rest.dropWhile isWordChar = rest := by
    cases rest with
    | nil => rfl
    | cons c rest => rw [List.dropWhile_cons_of_neg (by simp [h c rfl])]
  rw [List.dropWhile_append, hrest]
  split_ifs with hall
  · rw [List.isEmpty_iff.mp hall, List.nil_append]
  · rfl

theorem tokens_word_append {w : List Char} (hblank : isBlank c = false)
    (hword : (c :: w).all isWordChar = true) :
    tokens (c :: w ++ rest) = .word (c :: w) :: tokens rest := by
  obtain ⟨hc, hcs⟩ := List.forall_mem_cons.mp (List.all_eq_true.mp hword)
  rw [List.cons_append, tokens_word hblank hc, takeWhile_append_of_head h,
    dropWhile_append_of_head h, List.takeWhile_eq_self_iff.mpr hcs,
    List.dropWhile_eq_nil_iff.mpr hcs, List.nil_append]

end Word

section Lexes

variable {a b cs rest t : List Char} {ts us : List Token} {c : Char}

theorem Delimits.not_word (h : Delimits rest) : ∀ c ∈ rest.head?, isWordChar c = false :=
  fun c hc => (h c hc).1

theorem Delimits.head_ne (h : Delimits rest) : rest.head? ≠ some Quoted.quote :=
  fun hc => (h _ hc).2 rfl

theorem delimits_cons (hword : isWordChar c = false) (hquote : c ≠ Quoted.quote) :
    Delimits (c :: cs) := by
  rintro _ ⟨⟩
  exact ⟨hword, hquote⟩

theorem Lexes.nil : Lexes [] [] :=
  fun _ _ => rfl

/-- Without quotes, what comes next does not change the tokens. -/
theorem lexes_of_quote_notMem : ∀ {cs : List Char}, Quoted.quote ∉ cs → Lexes cs (tokens cs) := by
  intro cs
  induction cs using tokens.induct with
  | case1 =>
    intro _ rest _
    rw [tokens_nil]
    rfl
  | case2 c cs hblank ih =>
    intro hquote rest hrest
    rw [List.cons_append, tokens_blank hblank, tokens_blank hblank]
    exact ih (fun h => hquote (List.mem_cons_of_mem c h)) rest hrest
  | case3 c cs hblank hword ih =>
    intro hquote rest hrest
    have hdrop : Quoted.quote ∉ cs.dropWhile isWordChar :=
      fun h => hquote (List.mem_cons_of_mem c ((List.dropWhile_suffix isWordChar).subset h))
    rw [Bool.not_eq_true] at hblank
    rw [List.cons_append, tokens_word hblank hword, tokens_word hblank hword,
      takeWhile_append_of_head hrest.not_word, dropWhile_append_of_head hrest.not_word,
      ih hdrop rest hrest]
    rfl
  | case4 cs _ _ content rest' _ _ => exact fun hquote => absurd List.mem_cons_self hquote
  | case5 cs _ _ _ => exact fun hquote => absurd List.mem_cons_self hquote
  | case6 c cs hblank hword hne ih =>
    intro hquote rest hrest
    rw [Bool.not_eq_true] at hblank hword
    rw [List.cons_append, tokens_symbol hblank hword hne, tokens_symbol hblank hword hne,
      ih (fun h => hquote (List.mem_cons_of_mem c h)) rest hrest]
    rfl

theorem lexes_encode (s : String) : Lexes (Quoted.encode s).toList [.quoted s.toList] := by
  intro rest hrest
  rw [Quoted.encode, String.toList_ofList, List.cons_append, List.cons_append, List.append_assoc]
  exact tokens_quoted (Quoted.content?_body hrest.head_ne s.toList)

/-- Between quotes as it is, a text without quotes is the token that holds it. -/
theorem lexes_bare (h : Quoted.quote ∉ t) :
    Lexes (Quoted.quote :: t ++ [Quoted.quote]) [.quoted t] := by
  intro rest hrest
  rw [List.cons_append, List.cons_append, List.append_assoc]
  exact tokens_quoted ((Quoted.content?_bare_iff hrest.head_ne).mpr h)

theorem Lexes.blank (h : Lexes cs ts) : Lexes (' ' :: cs) ts := by
  intro rest hrest
  rw [List.cons_append, tokens_blank (by decide), h rest hrest]

theorem Lexes.symbol (h : Lexes cs ts) (hblank : isBlank c = false) (hword : isWordChar c = false)
    (hquote : c ≠ Quoted.quote) : Lexes (c :: cs) (.symbol c :: ts) := by
  intro rest hrest
  rw [List.cons_append, tokens_symbol hblank hword hquote, h rest hrest]
  rfl

theorem Lexes.after_word {d : Char} {w : List Char} (h : Lexes (d :: cs) ts)
    (hblank : isBlank c = false) (hword : (c :: w).all isWordChar = true)
    (hd : isWordChar d = false) : Lexes (c :: w ++ d :: cs) (.word (c :: w) :: ts) := by
  intro rest hrest
  have hhead : ∀ e ∈ (d :: cs ++ rest).head?, isWordChar e = false := by
    rintro _ ⟨⟩
    exact hd
  rw [List.append_assoc, tokens_word_append hhead hblank hword, h rest hrest]
  rfl

/-- One after the other, if the second begins with a character that ends the last token of the
first. -/
theorem Lexes.append (ha : Lexes a ts) (hb : Lexes (c :: b) us) (hword : isWordChar c = false)
    (hquote : c ≠ Quoted.quote) : Lexes (a ++ c :: b) (ts ++ us) := by
  intro rest hrest
  rw [List.append_assoc, List.cons_append, ha _ (delimits_cons hword hquote), ← List.cons_append,
    hb rest hrest, List.append_assoc]

/-- A list with a comma and a blank after each part but the last. -/
theorem lexes_listed {α : Type} {f : α → List Char} {g : α → List Token} :
    ∀ {as : List α}, (∀ a ∈ as, Lexes (f a) (g a)) →
      Lexes ([',', ' '].intercalate (as.map f)) ([Token.symbol ','].intercalate (as.map g))
  | [], _ => .nil
  | [a], h => by
    simpa using h a List.mem_cons_self
  | a :: b :: as, h => by
    obtain ⟨ha, hrest⟩ := List.forall_mem_cons.mp h
    have hlisted := lexes_listed hrest
    simp only [List.map_cons, List.intercalate_cons_cons, List.append_assoc] at hlisted ⊢
    exact ha.append (hlisted.blank.symbol (by decide) (by decide) (by decide)) (by decide)
      (by decide)

end Lexes

end Text

end QuantifiedComparison
