import QuantifiedComparison.Plan.Values
import QuantifiedComparison.Proofs.NumeralText
import QuantifiedComparison.Proofs.SqlTokens

/-!
# The tokens of written SQL

What a VALUES list is written as reads as the tokens of its parts: of its literals, columns and
operations in their order, row by row (`ValuesPlan.tokens_sql`). A literal that holds a text is one
quoted text, after a keyword or without. This takes names without quotes, and dates and timestamps
without quotes, since these are written as they are.
-/

namespace QuantifiedComparison

namespace Text

theorem lexes_plain {cs : List Char} (h : Plain cs) : Lexes cs (tokens cs) :=
  lexes_of_quote_notMem h.quote_notMem

theorem lexes_close : Lexes [')'] [.symbol ')'] :=
  Lexes.nil.symbol (by decide) (by decide) (by decide)

theorem Hex.plain_encode (bytes : List UInt8) : Plain (Hex.encode bytes) := by
  have hdigit : ∀ n < 16, Hex.digit n ≠ Quoted.quote ∧ Hex.digit n ≠ '\n' := by decide
  intro c hc
  obtain ⟨b, -, hb⟩ := List.mem_flatMap.mp hc
  have hbyte := b.toNat_lt
  simp only [List.mem_cons, List.not_mem_nil, or_false] at hb
  rcases hb with rfl | rfl
  · exact hdigit _ (by omega)
  · exact hdigit _ (by omega)

end Text

open Text

namespace Value

/-- The text that a value holds, if it is written between quotes. -/
def stored? : Value → Option String
  | text s | date s | timestamp s => some s
  | _ => none

/-- A date and a timestamp are written as they are, so they may not hold quotes. -/
def Legible (v : Value) : Prop :=
  v.type ≠ .text → ∀ s ∈ v.stored?, Quoted.quote ∉ s.toList

def tokens : Value → List Token
  | text s => [.quoted s.toList]
  | date s => [.word ['D', 'A', 'T', 'E'], .quoted s.toList]
  | timestamp s => [.word ['T', 'I', 'M', 'E', 'S', 'T', 'A', 'M', 'P'], .quoted s.toList]
  | blob bytes => [.word ['X'], .quoted (Hex.encode bytes)]
  | v => Text.tokens v.literal.toList

theorem lexes_literal {v : Value} (h : v.Legible) : Lexes v.literal.toList v.tokens := by
  cases v with
  | null => exact lexes_plain (by decide)
  | integer i => exact lexes_plain (Integer.plain_text i)
  | float f => exact lexes_plain (Double.plain_text f)
  | text s => exact lexes_encode s
  | boolean b => cases b <;> exact lexes_plain (by decide)
  | date s =>
    have hs : Quoted.quote ∉ s.toList := h (by simp [type]) s rfl
    have hlexes := (lexes_bare hs).blank.after_word (c := 'D') (w := ['A', 'T', 'E'])
      (by decide) (by decide) (by decide)
    simpa [literal, tokens, Quoted.quote] using hlexes
  | timestamp s =>
    have hs : Quoted.quote ∉ s.toList := h (by simp [type]) s rfl
    have hlexes := (lexes_bare hs).blank.after_word (c := 'T')
      (w := ['I', 'M', 'E', 'S', 'T', 'A', 'M', 'P']) (by decide) (by decide) (by decide)
    simpa [literal, tokens, Quoted.quote] using hlexes
  | blob bytes =>
    have hlexes := (lexes_bare (Hex.plain_encode bytes).quote_notMem).after_word (c := 'X')
      (w := []) (by decide) (by decide) (by decide)
    simpa [literal, tokens, Quoted.quote] using hlexes

end Value

namespace Expr

/-- The literals from left to right. -/
def literals : Expr → List Value
  | literal v => [v]
  | column _ => []
  | binary _ l r => l.literals ++ r.literals

/-- Its literals can be told apart from what stands around them, and its names hold no quotes and no
line feeds. -/
structure Legible (e : Expr) : Prop where
  literals : ∀ v ∈ e.literals, v.Legible
  columns : ∀ c ∈ e.columns, Plain c.text.toList

def tokens : Expr → List Token
  | literal v => v.tokens
  | column c => Text.tokens c.text.toList
  | binary o l r =>
    .symbol '(' :: (l.tokens ++ (Text.tokens o.symbol.toList ++ (r.tokens ++ [.symbol ')'])))

theorem legible_binary {o : Arithmetic} {l r : Expr} :
    (binary o l r).Legible ↔ l.Legible ∧ r.Legible := by
  constructor
  · rintro ⟨hliterals, hcolumns⟩
    obtain ⟨hl, hr⟩ := List.forall_mem_append.mp hliterals
    obtain ⟨hl', hr'⟩ := List.forall_mem_append.mp hcolumns
    exact ⟨⟨hl, hl'⟩, ⟨hr, hr'⟩⟩
  · rintro ⟨hl, hr⟩
    exact ⟨List.forall_mem_append.mpr ⟨hl.literals, hr.literals⟩,
      List.forall_mem_append.mpr ⟨hl.columns, hr.columns⟩⟩

theorem toList_text_binary (o : Arithmetic) (l r : Expr) : (binary o l r).text.toList
    = '(' :: (l.text.toList ++ ' ' :: (o.symbol.toList ++ ' ' :: (r.text.toList ++ [')']))) := by
  simp [text]

theorem plain_symbol (o : Arithmetic) : Plain o.symbol.toList := by
  cases o <;> decide

theorem lexes_text : ∀ {e : Expr}, e.Legible → Lexes e.text.toList e.tokens
  | literal v, h => Value.lexes_literal (h.literals v List.mem_cons_self)
  | column c, h => lexes_plain (h.columns c List.mem_cons_self)
  | binary o l r, h => by
    obtain ⟨hl, hr⟩ := legible_binary.mp h
    have hright := (lexes_text hr).append lexes_close (by decide) (by decide)
    have hinner := (lexes_plain (plain_symbol o)).append hright.blank (by decide) (by decide)
    have hleft := (lexes_text hl).append hinner.blank (by decide) (by decide)
    rw [toList_text_binary]
    exact hleft.symbol (by decide) (by decide) (by decide)

end Expr

namespace ValuesPlan

/-- The names of its columns hold no quotes and no line feeds, and its cells are legible. -/
structure Legible (q : ValuesPlan) : Prop where
  names : ∀ c ∈ q.columns, Plain c.1.toList
  cells : ∀ cell ∈ q.cells, cell.Legible

theorem Legible.mem_row {q : ValuesPlan} (h : q.Legible) {row : List Expr} (hrow : row ∈ q.rows) :
    ∀ cell ∈ row, cell.Legible :=
  fun cell hcell => h.cells cell (List.mem_flatten.mpr ⟨row, hrow, hcell⟩)

theorem plain_select : Plain "SELECT * FROM (VALUES".toList := by decide

theorem plain_alias : Plain ") AS V".toList := by decide

def rowText (row : List Expr) : List Char :=
  '(' :: ([',', ' '].intercalate (row.map fun cell => cell.text.toList) ++ [')'])

def rowTokens (row : List Expr) : List Token :=
  .symbol '(' :: ([Token.symbol ','].intercalate (row.map Expr.tokens) ++ [.symbol ')'])

def tokens (q : ValuesPlan) : List Token :=
  Text.tokens "SELECT * FROM (VALUES".toList ++
    ([Token.symbol ','].intercalate (q.rows.map rowTokens) ++
      (Text.tokens ") AS V".toList ++
        .symbol '(' :: ([Token.symbol ','].intercalate
          (q.columns.map fun c => Text.tokens c.1.toList) ++ [.symbol ')'])))

theorem toList_listed (parts : List String) :
    (listed parts).toList = [',', ' '].intercalate (parts.map String.toList) :=
  String.toList_intercalate

theorem toList_row (row : List Expr) :
    ("(" ++ listed (row.map Expr.text) ++ ")").toList = rowText row := by
  rw [String.toList_append, String.toList_append, toList_listed, List.map_map]
  rfl

theorem toList_sql (q : ValuesPlan) : q.sql.toList = "SELECT * FROM (VALUES".toList ++
    ' ' :: ([',', ' '].intercalate (q.rows.map rowText) ++
      (") AS V".toList ++
        '(' :: ([',', ' '].intercalate (q.columns.map fun c => c.1.toList) ++ [')']))) := by
  have hhead : "SELECT * FROM (VALUES ".toList = "SELECT * FROM (VALUES".toList ++ [' '] := by
    simp
  have halias : ") AS V(".toList = ") AS V".toList ++ ['('] := by simp
  unfold sql
  dsimp only
  rw [String.toList_append, String.toList_append, String.toList_append, String.toList_append,
    hhead, halias]
  simp only [toList_listed, List.map_map, Function.comp_def, toList_row, List.append_assoc]
  rfl

theorem lexes_row {row : List Expr} (h : ∀ cell ∈ row, cell.Legible) :
    Lexes (rowText row) (rowTokens row) := by
  have hcells := lexes_listed fun cell hcell => Expr.lexes_text (h cell hcell)
  have hclosed := hcells.append lexes_close (by decide) (by decide)
  exact hclosed.symbol (by decide) (by decide) (by decide)

/-- The tokens of what a VALUES list is written as are those of its parts. -/
theorem lexes_sql {q : ValuesPlan} (h : q.Legible) : Lexes q.sql.toList q.tokens := by
  have hnames := lexes_listed fun c hc => lexes_plain (h.names c hc)
  have hlist := (hnames.append lexes_close (by decide) (by decide)).symbol (c := '(') (by decide)
    (by decide) (by decide)
  have halias := (lexes_plain plain_alias).append hlist (by decide) (by decide)
  have hrows := lexes_listed fun row hrow => lexes_row (h.mem_row hrow)
  rw [toList_sql]
  exact (lexes_plain plain_select).append (hrows.append halias (by decide) (by decide)).blank
    (by decide) (by decide)

theorem tokens_sql {q : ValuesPlan} (h : q.Legible) : Text.tokens q.sql.toList = q.tokens := by
  have hlexes := lexes_sql h [] nofun
  rwa [List.append_nil, tokens_nil, List.append_nil] at hlexes

end ValuesPlan

end QuantifiedComparison
