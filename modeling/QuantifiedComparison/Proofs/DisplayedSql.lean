import QuantifiedComparison.Proofs.StoredText

/-!
# The SQL that a predicate shows

A predicate shows the SQL of its query with indented lines. Between tokens that changes nothing, but
a quoted text can hold a line feed too, and gets the margin after it. So what is shown is the SQL of
another query, whose texts are indented (`indentLines_sql`), and has the tokens of the query's SQL
just if no text holds a line feed (`tokens_indentLines_sql_iff`).
-/

namespace QuantifiedComparison

namespace Text

section Listed

variable {α β : Type}

theorem map_intercalate (f : α → β) (sep : α) : ∀ ass : List (List α),
    ([sep].intercalate ass).map f = [f sep].intercalate (ass.map (List.map f))
  | [] => rfl
  | [as] => by
    rw [List.map_singleton, List.intercalate_singleton, List.intercalate_singleton]
  | as :: bs :: ass => by
    simp only [List.map_cons, List.intercalate_cons_cons, List.map_append, List.map_nil]
    rw [map_intercalate f sep (bs :: ass), List.map_cons]

theorem forall_mem_intercalate {P : α → Prop} {sep : α} (h : P sep) : ∀ {ass : List (List α)},
    (∀ a ∈ [sep].intercalate ass, P a) ↔ ∀ as ∈ ass, ∀ a ∈ as, P a
  | [] => by simp
  | [as] => by simp
  | as :: bs :: ass => by
    rw [List.intercalate_cons_cons, List.append_assoc, List.forall_mem_append,
      List.forall_mem_append, forall_mem_intercalate h, List.forall_mem_cons]
    simp [h]

end Listed

theorem indentLines_plain {cs : List Char} (h : Plain cs) : indentLines cs = cs :=
  indentLines_of_lineFeed_notMem h.lineFeed_notMem

theorem indentLines_listed : ∀ css : List (List Char),
    indentLines ([',', ' '].intercalate css) = [',', ' '].intercalate (css.map indentLines)
  | [] => rfl
  | [cs] => by
    rw [List.map_singleton, List.intercalate_singleton, List.intercalate_singleton]
  | cs :: ds :: css => by
    simp only [List.map_cons, List.intercalate_cons_cons, List.append_assoc, List.cons_append,
      List.nil_append]
    rw [indentLines_append (by simp), indentLines_cons_of_ne (by decide) (by decide),
      indentLines_cons_of_ne (by decide) (by decide), indentLines_listed (ds :: css), List.map_cons]

/-- The token with `f` of what it holds between quotes. -/
def Token.mapContent (f : List Char → List Char) : Token → Token
  | quoted content => quoted (f content)
  | t => t

/-- No line feed between the token's quotes. -/
def Token.OneLine : Token → Prop
  | quoted content => '\n' ∉ content
  | _ => True

theorem Token.mapContent_eq_self_iff {t : Token} : t.mapContent indentLines = t ↔ t.OneLine := by
  cases t with
  | quoted content => rw [mapContent, quoted.injEq, indentLines_eq_self_iff, OneLine]
  | _ => exact iff_of_true rfl trivial

theorem map_mapContent_iff {ts : List Token} :
    ts.map (Token.mapContent indentLines) = ts ↔ ∀ t ∈ ts, t.OneLine := by
  have hmap := List.map_inj_left (l := ts) (f := Token.mapContent indentLines) (g := id)
  rw [List.map_id] at hmap
  simpa only [id, Token.mapContent_eq_self_iff] using hmap

/-- Without quotes no token holds a quoted text. -/
theorem oneLine_tokens {cs : List Char} : Quoted.quote ∉ cs → ∀ t ∈ tokens cs, t.OneLine := by
  induction cs using tokens.induct with
  | case1 => simp [tokens_nil]
  | case2 c cs hblank ih =>
    intro hquote
    rw [tokens_blank hblank]
    exact ih fun h => hquote (List.mem_cons_of_mem c h)
  | case3 c cs hblank hword ih =>
    intro hquote
    have hdrop : Quoted.quote ∉ cs.dropWhile isWordChar :=
      fun h => hquote (List.mem_cons_of_mem c ((List.dropWhile_suffix isWordChar).subset h))
    rw [tokens_word (Bool.eq_false_iff.mpr hblank) hword]
    exact List.forall_mem_cons.mpr ⟨trivial, ih hdrop⟩
  | case4 cs _ _ content rest _ _ => exact fun hquote => absurd List.mem_cons_self hquote
  | case5 cs _ _ _ => exact fun hquote => absurd List.mem_cons_self hquote
  | case6 c cs hblank hword hne ih =>
    intro hquote
    rw [tokens_symbol (Bool.eq_false_iff.mpr hblank) (Bool.eq_false_iff.mpr hword) hne]
    exact List.forall_mem_cons.mpr ⟨trivial, ih fun h => hquote (List.mem_cons_of_mem c h)⟩

theorem oneLine_close : ∀ t ∈ [Token.symbol ')'], t.OneLine :=
  List.forall_mem_singleton.mpr trivial

theorem oneLine_plain {cs : List Char} (h : Plain cs) : ∀ t ∈ tokens cs, t.OneLine :=
  oneLine_tokens h.quote_notMem

theorem map_mapContent_plain {cs : List Char} (h : Plain cs) :
    (tokens cs).map (Token.mapContent indentLines) = tokens cs :=
  map_mapContent_iff.mpr (oneLine_plain h)

end Text

open Text

namespace Value

/-- No line feed in the text that the value holds. -/
def OneLine (v : Value) : Prop :=
  ∀ s ∈ v.stored?, '\n' ∉ s.toList

/-- What is not written between quotes has neither quotes nor line feeds. -/
theorem plain_literal {v : Value} (hstored : v.stored? = none) (hblob : ∀ bytes, v ≠ blob bytes) :
    Plain v.literal.toList := by
  cases v with
  | null => decide
  | integer i => exact Integer.plain_text i
  | float f => exact Double.plain_text f
  | boolean b => cases b <;> decide
  | blob bytes => exact absurd rfl (hblob bytes)
  | text s => cases hstored
  | date s => cases hstored
  | timestamp s => cases hstored

theorem tokens_indented (v : Value) :
    v.indented.tokens = v.tokens.map (Token.mapContent indentLines) := by
  cases v with
  | text s => simp [indented, tokens, Token.mapContent]
  | date s => simp [indented, tokens, Token.mapContent]
  | timestamp s => simp [indented, tokens, Token.mapContent]
  | blob bytes =>
    have hbytes := indentLines_plain (Hex.plain_encode bytes)
    simp [indented, tokens, Token.mapContent, hbytes]
  | _ => exact (map_mapContent_plain (plain_literal rfl (by simp [indented]))).symm

theorem oneLine_tokens_iff {v : Value} : (∀ t ∈ v.tokens, t.OneLine) ↔ v.OneLine := by
  cases v with
  | text s => simp [tokens, Token.OneLine, OneLine, stored?]
  | date s => simp [tokens, Token.OneLine, OneLine, stored?]
  | timestamp s => simp [tokens, Token.OneLine, OneLine, stored?]
  | blob bytes =>
    have hbytes := (Hex.plain_encode bytes).lineFeed_notMem
    simp [tokens, Token.OneLine, OneLine, stored?, hbytes]
  | _ =>
    refine iff_of_true (oneLine_plain (plain_literal rfl (by simp))) ?_
    simp [OneLine, stored?]

/-- Indentation turns the literal into that of the value with indented text. -/
theorem indentLines_literal (v : Value) :
    indentLines v.literal.toList = v.indented.literal.toList := by
  cases v with
  | text s => exact indentLines_stored rfl
  | date s => exact indentLines_stored rfl
  | timestamp s => exact indentLines_stored rfl
  | blob bytes =>
    have hbytes := (Hex.plain_encode bytes).lineFeed_notMem
    exact indentLines_of_lineFeed_notMem (by simp [literal, hbytes])
  | _ => exact indentLines_plain (plain_literal rfl (by simp))

theorem Legible.indented {v : Value} (h : v.Legible) : v.indented.Legible := by
  intro htype t ht
  rcases hstored : v.stored? with _ | s
  · have hnone : v.indented.stored? = none := by
      cases v <;> cases hstored <;> rfl
    rw [hnone] at ht
    cases ht
  · rw [stored?_indented hstored] at ht
    obtain rfl := Option.some.inj ht
    rw [String.toList_ofList]
    exact quote_notMem_indentLines (h (by rwa [type_indented] at htype) s hstored)

end Value

namespace Expr

/-- The expression with the texts of its literals indented. -/
def indented : Expr → Expr
  | literal v => literal v.indented
  | column c => column c
  | binary o l r => binary o l.indented r.indented

theorem literals_indented : ∀ e : Expr, e.indented.literals = e.literals.map Value.indented
  | literal _ => rfl
  | column _ => rfl
  | binary o l r => by
    rw [indented, literals, literals, List.map_append, literals_indented l, literals_indented r]

theorem columns_indented : ∀ e : Expr, e.indented.columns = e.columns
  | literal _ => rfl
  | column _ => rfl
  | binary o l r => by
    rw [indented, columns, columns, columns_indented l, columns_indented r]

theorem Legible.indented {e : Expr} (h : e.Legible) : e.indented.Legible where
  literals := by
    rw [literals_indented]
    exact List.forall_mem_map.mpr fun v hv => (h.literals v hv).indented
  columns := by
    rw [columns_indented]
    exact h.columns

theorem indentLines_text : ∀ {e : Expr}, e.Legible →
    indentLines e.text.toList = e.indented.text.toList
  | literal v, _ => v.indentLines_literal
  | column c, h => indentLines_plain (h.columns c List.mem_cons_self)
  | binary o l r, h => by
    obtain ⟨hl, hr⟩ := legible_binary.mp h
    have ho := indentLines_plain (plain_symbol o)
    have hblank : ∀ cs, indentLines (' ' :: cs) = ' ' :: indentLines cs :=
      fun _ => indentLines_cons_of_ne (by decide) (by decide)
    rw [indented, toList_text_binary, toList_text_binary, indentLines_cons_of_ne (by decide)
      (by decide), indentLines_append (by simp), indentLines_text hl, hblank,
      indentLines_append (by simp), ho, hblank, indentLines_append (by simp), indentLines_text hr]
    rfl

theorem tokens_indented : ∀ {e : Expr}, e.Legible →
    e.indented.tokens = e.tokens.map (Token.mapContent indentLines)
  | literal v, _ => v.tokens_indented
  | column c, h => (map_mapContent_plain (h.columns c List.mem_cons_self)).symm
  | binary o l r, h => by
    obtain ⟨hl, hr⟩ := legible_binary.mp h
    simp only [indented, tokens, List.map_cons, List.map_append, List.map_nil, Token.mapContent,
      tokens_indented hl, tokens_indented hr, map_mapContent_plain (plain_symbol o)]

theorem oneLine_tokens_iff : ∀ {e : Expr}, e.Legible →
    ((∀ t ∈ e.tokens, t.OneLine) ↔ ∀ v ∈ e.literals, v.OneLine)
  | literal v, _ => by
    rw [tokens, literals, List.forall_mem_singleton, Value.oneLine_tokens_iff]
  | column c, h => by
    have hcolumn := oneLine_plain (h.columns c List.mem_cons_self)
    exact iff_of_true hcolumn nofun
  | binary o l r, h => by
    obtain ⟨hl, hr⟩ := legible_binary.mp h
    have ho := oneLine_plain (plain_symbol o)
    rw [tokens, literals, List.forall_mem_append, List.forall_mem_cons, List.forall_mem_append,
      List.forall_mem_append, List.forall_mem_append, oneLine_tokens_iff hl, oneLine_tokens_iff hr]
    constructor
    · rintro ⟨-, hleft, -, hright, -⟩
      exact ⟨hleft, hright⟩
    · rintro ⟨hleft, hright⟩
      exact ⟨trivial, hleft, ho, hright, oneLine_close⟩

end Expr

namespace ValuesPlan

/-- The query with the texts of its literals indented. -/
def indented (q : ValuesPlan) : ValuesPlan :=
  { q with rows := q.rows.map (·.map Expr.indented) }

/-- No literal in a cell holds a line feed. -/
def OneLine (q : ValuesPlan) : Prop :=
  ∀ cell ∈ q.cells, ∀ v ∈ cell.literals, v.OneLine

variable {q : ValuesPlan}

theorem Legible.indented (h : q.Legible) : q.indented.Legible where
  names := h.names
  cells := by
    show ∀ cell ∈ (q.rows.map (·.map Expr.indented)).flatten, cell.Legible
    rw [← List.map_flatten]
    exact List.forall_mem_map.mpr fun cell hcell => (h.cells cell hcell).indented

theorem indentLines_row {row : List Expr} (h : ∀ cell ∈ row, cell.Legible) :
    indentLines (rowText row) = rowText (row.map Expr.indented) := by
  have hcells : (row.map fun cell => cell.text.toList).map indentLines
      = (row.map Expr.indented).map fun cell => cell.text.toList := by
    rw [List.map_map, List.map_map]
    exact List.map_congr_left fun cell hcell => Expr.indentLines_text (h cell hcell)
  rw [rowText, rowText, indentLines_cons_of_ne (by decide) (by decide),
    indentLines_append (by decide), indentLines_listed, hcells]
  rfl

/-- The indented SQL is that of the query with indented texts. -/
theorem indentLines_sql (h : q.Legible) : indentLines q.sql.toList = q.indented.sql.toList := by
  have hrows : (q.rows.map rowText).map indentLines = q.indented.rows.map rowText := by
    rw [indented, List.map_map, List.map_map]
    exact List.map_congr_left fun row hrow => indentLines_row (h.mem_row hrow)
  have hnames : (q.columns.map fun c => c.1.toList).map indentLines
      = q.columns.map fun c => c.1.toList := by
    rw [List.map_map]
    exact List.map_congr_left fun c hc =>
      indentLines_plain (h.names c hc)
  rw [toList_sql, toList_sql, indentLines_append (by simp), indentLines_plain plain_select,
    indentLines_cons_of_ne (by decide) (by decide), indentLines_append (by simp),
    indentLines_listed, hrows, indentLines_append (by simp), indentLines_plain plain_alias,
    indentLines_cons_of_ne (by decide) (by decide), indentLines_append (by simp),
    indentLines_listed, hnames]
  rfl

theorem map_rowTokens {row : List Expr} (h : ∀ cell ∈ row, cell.Legible) :
    (rowTokens row).map (Token.mapContent indentLines) = rowTokens (row.map Expr.indented) := by
  have hcells : (row.map Expr.tokens).map (List.map (Token.mapContent indentLines))
      = (row.map Expr.indented).map Expr.tokens := by
    rw [List.map_map, List.map_map]
    exact List.map_congr_left fun cell hcell => (Expr.tokens_indented (h cell hcell)).symm
  rw [rowTokens, rowTokens, List.map_cons, List.map_append, map_intercalate, hcells]
  rfl

theorem tokens_indented (h : q.Legible) :
    q.indented.tokens = q.tokens.map (Token.mapContent indentLines) := by
  have hrows : (q.rows.map rowTokens).map (List.map (Token.mapContent indentLines))
      = q.indented.rows.map rowTokens := by
    rw [indented, List.map_map, List.map_map]
    exact List.map_congr_left fun row hrow => map_rowTokens (h.mem_row hrow)
  have hnames : (q.columns.map fun c => Text.tokens c.1.toList).map
      (List.map (Token.mapContent indentLines))
      = q.columns.map fun c => Text.tokens c.1.toList := by
    rw [List.map_map]
    exact List.map_congr_left fun c hc => map_mapContent_plain (h.names c hc)
  rw [tokens, tokens, List.map_append, map_mapContent_plain plain_select, List.map_append,
    map_intercalate, hrows, List.map_append, map_mapContent_plain plain_alias, List.map_cons,
    List.map_append, map_intercalate, hnames]
  rfl

theorem oneLine_rowTokens_iff {row : List Expr} (h : ∀ cell ∈ row, cell.Legible) :
    (∀ t ∈ rowTokens row, t.OneLine) ↔ ∀ cell ∈ row, ∀ v ∈ cell.literals, v.OneLine := by
  rw [rowTokens, List.forall_mem_cons, List.forall_mem_append, forall_mem_intercalate trivial,
    List.forall_mem_map, and_iff_left oneLine_close]
  refine (and_iff_right trivial).trans (forall₂_congr fun cell hcell => ?_)
  exact Expr.oneLine_tokens_iff (h cell hcell)

theorem oneLine_tokens_iff (h : q.Legible) : (∀ t ∈ q.tokens, t.OneLine) ↔ q.OneLine := by
  have hrows : (∀ t ∈ [Token.symbol ','].intercalate (q.rows.map rowTokens), t.OneLine) ↔
      q.OneLine := by
    rw [forall_mem_intercalate trivial, List.forall_mem_map, OneLine, cells,
      List.forall_mem_flatten]
    exact forall₂_congr fun row hrow => oneLine_rowTokens_iff (h.mem_row hrow)
  have hnames : ∀ t ∈ [Token.symbol ','].intercalate
      (q.columns.map fun c => Text.tokens c.1.toList), t.OneLine :=
    (forall_mem_intercalate trivial).mpr
      (List.forall_mem_map.mpr fun c hc => oneLine_plain (h.names c hc))
  rw [tokens, List.forall_mem_append, List.forall_mem_append, List.forall_mem_append,
    List.forall_mem_cons, List.forall_mem_append, hrows]
  constructor
  · exact fun h => h.2.1
  · intro hcells
    exact ⟨oneLine_plain plain_select, hcells, oneLine_plain plain_alias, trivial, hnames,
      oneLine_close⟩

theorem tokens_indentLines_sql (h : q.Legible) : Text.tokens (indentLines q.sql.toList)
    = (Text.tokens q.sql.toList).map (Token.mapContent indentLines) := by
  rw [indentLines_sql h, tokens_sql h.indented, tokens_indented h, tokens_sql h]

theorem tokens_indentLines_sql_iff (h : q.Legible) :
    Text.tokens (indentLines q.sql.toList) = Text.tokens q.sql.toList ↔ q.OneLine := by
  rw [tokens_indentLines_sql h, map_mapContent_iff, tokens_sql h, oneLine_tokens_iff h]

theorem legible_ofValues {name : String} {type : ColumnType} {values : List Value}
    (hname : Plain name.toList) (hvalues : ∀ v ∈ values, v.Legible) :
    (ofValues name type values).Legible where
  names := List.forall_mem_singleton.mpr hname
  cells := by
    intro cell hcell
    obtain ⟨row, hrow, hcell⟩ := List.mem_flatten.mp hcell
    obtain ⟨v, hv, rfl⟩ := List.mem_map.mp hrow
    obtain rfl := List.mem_singleton.mp hcell
    exact ⟨List.forall_mem_singleton.mpr (hvalues v hv), nofun⟩

end ValuesPlan

namespace Predicate

theorem tokens_margin (cs : List Char) : tokens ('\n' :: (margin ++ cs)) = tokens cs := by
  have hblank : ∀ cs, tokens (' ' :: cs) = tokens cs := fun _ => tokens_blank (by decide)
  rw [tokens_blank (by decide), margin, List.cons_append, List.cons_append, List.cons_append,
    List.cons_append, hblank, hblank, hblank, hblank, List.nil_append]

/-- What a predicate shows between the parenthesis after its phrase and the last two has the tokens
of the query's SQL, with indented texts; these are the same tokens just if no text of the query
holds a line feed. -/
theorem shown_tokens_iff (p : Predicate) {q : ValuesPlan} (h : q.Legible) : ∃ inner,
    (p.text (.values q)).toList = '(' :: (p.left.text.toList ++
      ' ' :: (p.phrase.toList ++ '(' :: (inner ++ [')', ')']))) ∧
    tokens inner = (tokens q.sql.toList).map (Token.mapContent indentLines) ∧
    (tokens inner = tokens q.sql.toList ↔ q.OneLine) := by
  refine ⟨'\n' :: (margin ++ indentLines q.sql.toList), ?_, ?_, ?_⟩
  · rw [toList_text, Plan.sql, ValuesPlan.toList_indented_sql]
    rfl
  · rw [tokens_margin, ValuesPlan.tokens_indentLines_sql h]
  · rw [tokens_margin, ValuesPlan.tokens_indentLines_sql_iff h]

theorem shown_tokens_iff_quoted :
    let q := ValuesPlan.ofValues "v" .text [.text "it's", .null]
    q.Legible ∧ q.sql = "SELECT * FROM (VALUES ('it''s'), (NULL)) AS V(v)" ∧ ∃ inner,
      ((isIn (.literal .null) 0).text (.values q)).toList
        = '(' :: ("NULL".toList ++ ' ' :: ("IN".toList ++ '(' :: (inner ++ [')', ')']))) ∧
      tokens inner = tokens q.sql.toList := by
  intro q
  have hlegible : q.Legible :=
    ValuesPlan.legible_ofValues (by decide) (by simp [Value.Legible, Value.stored?, Value.type])
  obtain ⟨inner, htext, -, hiff⟩ := shown_tokens_iff (isIn (.literal .null) 0) hlegible
  refine ⟨hlegible, by decide, inner, htext, hiff.mpr ?_⟩
  simp [q, ValuesPlan.OneLine, ValuesPlan.ofValues, ValuesPlan.cells, Expr.literals, Value.OneLine,
    Value.stored?]

/-- A line feed in a text is shown with four blanks after it. -/
theorem shown_text_differs :
    (isIn (.literal .null) 0).text (.values (.ofValues "v" .text [.text "a\nb"]))
        = "(NULL IN(\n    SELECT * FROM (VALUES ('a\n    b')) AS V(v)))" ∧
      (ValuesPlan.ofValues "v" .text [.text "a\nb"]).sql
        = "SELECT * FROM (VALUES ('a\nb')) AS V(v)" ∧
      tokens "\n    SELECT * FROM (VALUES ('a\n    b')) AS V(v)".toList
        ≠ tokens "SELECT * FROM (VALUES ('a\nb')) AS V(v)".toList := by
  have hlegible : (ValuesPlan.ofValues "v" .text [.text "a\nb"]).Legible :=
    ValuesPlan.legible_ofValues (by decide) (by simp [Value.Legible, Value.type])
  have hinner : "\n    SELECT * FROM (VALUES ('a\n    b')) AS V(v)".toList
      = '\n' :: (margin ++ indentLines "SELECT * FROM (VALUES ('a\nb')) AS V(v)".toList) := by
    decide
  have hsql : (ValuesPlan.ofValues "v" .text [.text "a\nb"]).sql
      = "SELECT * FROM (VALUES ('a\nb')) AS V(v)" := by
    decide
  refine ⟨by decide, hsql, fun htokens => ?_⟩
  -- the tokens are not computed: both texts are brought into the form that the lemma speaks of
  rw [hinner, tokens_margin, ← hsql, ValuesPlan.tokens_indentLines_sql_iff hlegible] at htokens
  have hline := htokens (.literal (.text "a\nb")) (by decide) (.text "a\nb") (by decide)
  exact hline _ rfl (by decide)

end Predicate

end QuantifiedComparison
