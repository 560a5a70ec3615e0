import QuantifiedComparison.Predicate
import QuantifiedComparison.Proofs.ConversionType
import QuantifiedComparison.Proofs.IndentedLines
import QuantifiedComparison.Proofs.WrittenSql

/-!
# Reading a stored text back from its literal

Wherever the literal of a value stands, in the SQL of a plan, in a predicate or in an error message,
a blank, a comma or a parenthesis follows it, if anything does (`StandsIn`). So the quoted text in
it is read to the literal's end just if it is read so alone. A text always is; a date and a
timestamp, which are written as they are, just if they hold no quote (`Value.readsBack_iff`).
-/

namespace QuantifiedComparison

namespace Text

/-- A part of a text that a blank, a comma, a parenthesis or nothing follows. -/
def StandsIn (part whole : List Char) : Prop :=
  ∃ before after, whole = before ++ (part ++ after) ∧ ∀ c ∈ after.head?, c ∈ [' ', ',', ')']

section StandsIn

variable {a b c d : List Char}

theorem StandsIn.refl (a : List Char) : StandsIn a a :=
  ⟨[], [], by rw [List.append_nil, List.nil_append], nofun⟩

theorem StandsIn.prepend (h : StandsIn a b) (cs : List Char) : StandsIn a (cs ++ b) := by
  obtain ⟨before, after, rfl, hafter⟩ := h
  exact ⟨cs ++ before, after, (List.append_assoc cs before _).symm, hafter⟩

theorem StandsIn.append (h : StandsIn a b) (hd : ∀ c ∈ d.head?, c ∈ [' ', ',', ')']) :
    StandsIn a (b ++ d) := by
  obtain ⟨before, after, rfl, hafter⟩ := h
  refine ⟨before, after ++ d, by simp only [List.append_assoc], ?_⟩
  cases after with
  | nil => exact hd
  | cons c after => exact hafter

theorem StandsIn.trans (hab : StandsIn a b) (hbc : StandsIn b c) : StandsIn a c := by
  obtain ⟨before, after, rfl, hafter⟩ := hbc
  exact (hab.append hafter).prepend before

theorem standsIn_listed : ∀ {as : List (List Char)}, a ∈ as →
    StandsIn a ([',', ' '].intercalate as)
  | [b], h => by
    rw [List.mem_singleton.mp h, List.intercalate_singleton]
    exact .refl b
  | b :: c :: as, h => by
    rw [List.intercalate_cons_cons]
    rcases List.mem_cons.mp h with rfl | h
    · rw [List.append_assoc]
      exact (StandsIn.refl a).append (by simp)
    · exact (standsIn_listed h).prepend (b ++ [',', ' '])

/-- What follows a part begins with the same character when it is indented. -/
theorem StandsIn.indentLines (h : StandsIn a b) (ha : a.head? ≠ some '\n') :
    StandsIn (indentLines a) (indentLines b) := by
  obtain ⟨before, after, rfl, hafter⟩ := h
  cases after with
  | nil =>
    refine ⟨Text.indentLines before, [], ?_, nofun⟩
    rw [List.append_nil, List.append_nil, indentLines_append ha]
  | cons c after =>
    have hc : c ≠ '\n' ∧ c ≠ '\x0d' := by
      have hmem := hafter c rfl
      simp only [List.mem_cons, List.not_mem_nil, or_false] at hmem
      rcases hmem with rfl | rfl | rfl <;> decide
    have hpart : (a ++ c :: after).head? ≠ some '\n' := by
      cases a with
      | nil => simpa using hc.1
      | cons d a => exact ha
    refine ⟨Text.indentLines before, c :: Text.indentLines after, ?_, hafter⟩
    rw [indentLines_append hpart, indentLines_append (by simpa using hc.1),
      indentLines_cons_of_ne hc.1 hc.2]

end StandsIn

end Text

open Text

namespace Expr

theorem standsIn_text {v : Value} : ∀ {e : Expr}, v ∈ e.literals →
    StandsIn v.literal.toList e.text.toList
  | literal w, h => by
    rw [List.mem_singleton.mp h]
    exact .refl _
  | binary o l r, h => by
    rw [toList_text_binary]
    rcases List.mem_append.mp h with hl | hr
    · exact ((standsIn_text hl).append (by simp)).prepend ['(']
    · have hright := (standsIn_text hr).append (d := [')']) (by simp)
      have hstands := hright.prepend ('(' :: (l.text.toList ++ ' ' :: (o.symbol.toList ++ [' '])))
      simpa using hstands

end Expr

namespace ValuesPlan

theorem standsIn_sql (q : ValuesPlan) {cell : Expr} (h : cell ∈ q.cells) :
    StandsIn cell.text.toList q.sql.toList := by
  obtain ⟨row, hrow, hcell⟩ := List.mem_flatten.mp h
  have hcells := standsIn_listed (List.mem_map_of_mem (f := fun e => e.text.toList) hcell)
  have hin : StandsIn cell.text.toList (rowText row) := (hcells.append (by simp)).prepend ['(']
  have hrows := standsIn_listed (List.mem_map_of_mem (f := rowText) hrow)
  have hlist := (hin.trans hrows).append (d := ") AS V".toList ++ '(' ::
    ([',', ' '].intercalate (q.columns.map fun c => c.1.toList) ++ [')'])) (by simp)
  rw [toList_sql]
  exact (hlist.prepend [' ']).prepend "SELECT * FROM (VALUES".toList

/-- The last character is the parenthesis after the names. -/
theorem toList_indented_sql (q : ValuesPlan) :
    (Text.indented (lines q.sql.toList)).toList = margin ++ indentLines q.sql.toList := by
  have hlast : ∃ front, q.sql.toList = front ++ [')'] := by
    unfold sql
    exact ⟨_, String.toList_append⟩
  obtain ⟨front, hfront⟩ := hlast
  rw [hfront]
  refine toList_indented (by simp) ?_
  rw [List.getLast?_concat]
  decide

end ValuesPlan

namespace Predicate

variable (p : Predicate)

theorem toList_text (plan : Plan) : (p.text plan).toList = '(' :: (p.left.text.toList ++
    ' ' :: (p.phrase.toList ++
      '(' :: '\n' :: ((Text.indented (lines plan.sql.toList)).toList ++ [')', ')']))) := by
  simp [text]

theorem standsIn_text_left (plan : Plan) :
    StandsIn p.left.text.toList (p.text plan).toList := by
  rw [toList_text]
  exact ((StandsIn.refl _).append (by simp)).prepend ['(']

theorem standsIn_text_query (q : ValuesPlan) :
    StandsIn (indentLines q.sql.toList) (p.text (.values q)).toList := by
  have hstands := ((StandsIn.refl (indentLines q.sql.toList)).append (d := [')', ')'])
    (by simp)).prepend ('(' :: (p.left.text.toList ++
      ' ' :: (p.phrase.toList ++ '(' :: '\n' :: margin)))
  rw [toList_text, Plan.sql, ValuesPlan.toList_indented_sql]
  simpa using hstands

end Predicate

namespace Error

theorem toList_message (v : Value) (t : ColumnType) : (notConvertible v t).message.toList =
    "Cannot convert ".toList ++ (v.literal.toList ++ (" to ".toList ++ t.name.toList)) := by
  show ("Cannot convert " ++ (v.literal ++ " to " ++ t.name)).toList = _
  rw [String.toList_append, String.toList_append, String.toList_append, List.append_assoc]

theorem standsIn_message (v : Value) (t : ColumnType) :
    StandsIn v.literal.toList (notConvertible v t).message.toList := by
  refine ⟨_, _, toList_message v t, ?_⟩
  rintro _ ⟨⟩
  exact List.mem_cons_self

end Error

namespace Value

variable {v : Value} {s : String}

/-- What stands before the quoted text of a literal. -/
def keyword : Value → List Char
  | date _ => ['D', 'A', 'T', 'E', ' ']
  | timestamp _ => ['T', 'I', 'M', 'E', 'S', 'T', 'A', 'M', 'P', ' ']
  | _ => []

/-- The value with the lines of its text indented. -/
def indented : Value → Value
  | text s => text (String.ofList (indentLines s.toList))
  | date s => date (String.ofList (indentLines s.toList))
  | timestamp s => timestamp (String.ofList (indentLines s.toList))
  | v => v

/-- The literal stands in `cs`, and there its quoted text reads as `t`, up to the literal's end. -/
def ReadsIn (v : Value) (t cs : List Char) : Prop :=
  ∃ before opened after, v.literal.toList = v.keyword ++ opened ∧
    cs = before ++ (v.literal.toList ++ after) ∧
    Quoted.read? (opened ++ after) = some (t, after)

/-- The literal is an optional keyword and a quoted text that reads as `s`, alone and wherever it is
written. A predicate shows its query with indented lines. -/
structure ReadsBack (v : Value) (s : String) : Prop where
  alone : ∃ opened, v.literal.toList = v.keyword ++ opened ∧
    Quoted.read? opened = some (s.toList, [])
  plan : ∀ q : ValuesPlan, ∀ cell ∈ q.cells, v ∈ cell.literals → v.ReadsIn s.toList q.sql.toList
  left : ∀ (p : Predicate) (plan : Plan), v ∈ p.left.literals →
    v.ReadsIn s.toList (p.text plan).toList
  query : ∀ (p : Predicate) (q : ValuesPlan), ∀ cell ∈ q.cells, v ∈ cell.literals →
    v.indented.ReadsIn (indentLines s.toList) (p.text (.values q)).toList
  error : ∀ t, v.ReadsIn s.toList (Error.notConvertible v t).message.toList

/-- What stands between the quotes. -/
def between (v : Value) (s : String) : List Char :=
  if v.type = .text then Quoted.body s.toList else s.toList

theorem toList_literal (h : v.stored? = some s) :
    v.literal.toList = v.keyword ++ Quoted.quote :: (v.between s ++ [Quoted.quote]) := by
  cases v <;> cases h
  case text =>
    rw [literal, Quoted.encode, String.toList_ofList]
    rfl
  case date => simp [literal, keyword, between, type, Quoted.quote]
  case timestamp => simp [literal, keyword, between, type, Quoted.quote]

theorem content?_between_iff {rest : List Char} (h : rest.head? ≠ some Quoted.quote) :
    Quoted.content? (v.between s ++ Quoted.quote :: rest) = some (s.toList, rest) ↔
      v.type = .text ∨ Quoted.quote ∉ s.toList := by
  unfold between
  split_ifs with htype
  · exact iff_of_true (Quoted.content?_body h s.toList) (.inl htype)
  · rw [Quoted.content?_bare_iff h, or_iff_right htype]

theorem stored?_indented (h : v.stored? = some s) :
    v.indented.stored? = some (String.ofList (indentLines s.toList)) := by
  cases v <;> cases h <;> rfl

theorem type_indented (v : Value) : v.indented.type = v.type := by
  cases v <;> rfl

theorem keyword_indented (v : Value) : v.indented.keyword = v.keyword := by
  cases v <;> rfl

theorem between_indented (v : Value) (s : String) :
    v.indented.between (String.ofList (indentLines s.toList)) = indentLines (v.between s) := by
  unfold between
  rw [type_indented, String.toList_ofList]
  split_ifs
  · exact (indentLines_body s.toList).symm
  · rfl

theorem indentLines_stored (h : v.stored? = some s) :
    indentLines v.literal.toList = v.indented.literal.toList := by
  have hkeyword : indentLines v.keyword = v.keyword := by
    cases v <;> rfl
  rw [toList_literal h, toList_literal (stored?_indented h),
    indentLines_append (by simp [Quoted.quote]), hkeyword, keyword_indented, between_indented,
    ← List.cons_append, indentLines_quoted]
  rfl

theorem head?_literal_ne (h : v.stored? = some s) : v.literal.toList.head? ≠ some '\n' := by
  rw [toList_literal h]
  cases v <;> simp [keyword, Quoted.quote]

theorem readsIn_of_standsIn {cs : List Char} (h : v.stored? = some s)
    (hquote : v.type = .text ∨ Quoted.quote ∉ s.toList) (hstands : StandsIn v.literal.toList cs) :
    v.ReadsIn s.toList cs := by
  obtain ⟨before, after, rfl, hafter⟩ := hstands
  have hhead : after.head? ≠ some Quoted.quote := by
    intro hquoted
    exact absurd (hafter _ hquoted) (by decide)
  refine ⟨before, _, after, toList_literal h, rfl, ?_⟩
  rw [List.cons_append, List.append_assoc]
  exact (content?_between_iff hhead).mpr hquote

theorem readsBack_iff (h : v.stored? = some s) :
    v.ReadsBack s ↔ v.type = .text ∨ Quoted.quote ∉ s.toList := by
  constructor
  · intro hreads
    obtain ⟨opened, hopened, hread⟩ := hreads.alone
    rw [toList_literal h, List.append_cancel_left_eq] at hopened
    rw [← hopened] at hread
    exact (content?_between_iff (by simp)).mp hread
  · intro hquote
    exact {
      alone := ⟨_, toList_literal h, (content?_between_iff (by simp)).mpr hquote⟩
      plan := fun q cell hcell hv =>
        readsIn_of_standsIn h hquote ((Expr.standsIn_text hv).trans (q.standsIn_sql hcell))
      left := fun p plan hv =>
        readsIn_of_standsIn h hquote ((Expr.standsIn_text hv).trans (p.standsIn_text_left plan))
      query := fun p q cell hcell hv => by
        -- the predicate indents the query, and the literal with it
        have hliteral := ((Expr.standsIn_text hv).trans (q.standsIn_sql hcell)).indentLines
          (head?_literal_ne h)
        rw [indentLines_stored h] at hliteral
        have hindented := hquote.imp v.type_indented.trans quote_notMem_indentLines
        rw [← String.toList_ofList (l := indentLines s.toList)] at hindented
        have hreads := readsIn_of_standsIn (stored?_indented h) hindented
          (hliteral.trans (p.standsIn_text_query q))
        rwa [String.toList_ofList] at hreads
      error := fun t => readsIn_of_standsIn h hquote (Error.standsIn_message v t) }

theorem stored?_of_convert {t : ColumnType} (ht : t = .date ∨ t = .timestamp)
    (h : (text s).convert t = .ok v) : v.stored? = some s ∧ v.type ≠ .text := by
  rw [convert_ok_iff] at h
  rcases ht with rfl | rfl
  · rw [convert?, Option.ite_none_right_eq_some, Option.some.injEq] at h
    obtain ⟨-, rfl⟩ := h
    exact ⟨rfl, by simp [type]⟩
  · rw [convert?, Option.ite_none_right_eq_some, Option.some.injEq] at h
    obtain ⟨-, rfl⟩ := h
    exact ⟨rfl, by simp [type]⟩

/-- The literal of a text reads back; that of a date or a timestamp does just if the value holds no
quote. This goes for the dates and timestamps that come from texts as well. -/
theorem literals_read_back_iff (s : String) :
    (∀ v : Value, v.stored? = some s →
      (v.ReadsBack s ↔ v.type = .text ∨ Quoted.quote ∉ s.toList)) ∧
    ∀ (t : ColumnType) (v : Value), t = .date ∨ t = .timestamp →
      (text s).convert t = .ok v → (v.ReadsBack s ↔ Quoted.quote ∉ s.toList) := by
  refine ⟨fun v hv => readsBack_iff hv, fun t v ht hconvert => ?_⟩
  obtain ⟨hv, htype⟩ := stored?_of_convert ht hconvert
  rw [readsBack_iff hv, or_iff_right htype]

theorem literals_read_back_iff_date :
    (text "it's").ReadsBack "it's" ∧
      (text "2024-01-01").convert .date = .ok (date "2024-01-01") ∧
      (date "2024-01-01").ReadsBack "2024-01-01" := by
  have hconvert : (text "2024-01-01").convert .date = .ok (date "2024-01-01") := by decide
  obtain ⟨htext, -⟩ := literals_read_back_iff "it's"
  obtain ⟨-, hdate⟩ := literals_read_back_iff "2024-01-01"
  exact ⟨(htext (text "it's") rfl).mpr (.inl rfl), hconvert,
    (hdate .date _ (.inl rfl) hconvert).mpr (by decide)⟩

/-- A text with a quote in it can become a date, and then the literal ends at that quote. -/
theorem literal_ends_early :
    (text "2024-'1-01").convert .date = .ok (date "2024-'1-01") ∧
      (date "2024-'1-01").literal = "DATE '2024-'1-01'" ∧
      Quoted.read? "'2024-'1-01'".toList = some ("2024-".toList, "1-01'".toList) ∧
      ¬(date "2024-'1-01").ReadsBack "2024-'1-01" := by
  refine ⟨by decide, by decide, by decide, ?_⟩
  rw [readsBack_iff rfl]
  decide

end Value

end QuantifiedComparison
