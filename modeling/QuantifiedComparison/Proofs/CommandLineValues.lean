import Mathlib.Data.List.TakeWhile
import QuantifiedComparison.CommandLine
import QuantifiedComparison.Proofs.NumeralText
import QuantifiedComparison.Proofs.QuotedText

/-!
# Values on the command line

NULL, integers and booleans are read from the command line as they are printed. A text is read with
its quotes doubled, since they are left as they stand between the outer ones (`valueOf_text`), and
cut at its commas when it is one of the rows (`valuesOf_joined`).
-/

namespace QuantifiedComparison

namespace Text

section Trim

variable {c : Char} {cs : List Char}

theorem dropWhile_isBlank (h : ∀ c ∈ cs.head?, isBlank c = false) : cs.dropWhile isBlank = cs := by
  cases cs with
  | nil => rfl
  | cons c cs => rw [List.dropWhile_cons_of_neg (by simp [h c rfl])]

/-- A text with no blank at either end. -/
theorem trim_eq_self (hhead : ∀ c ∈ cs.head?, isBlank c = false)
    (hlast : ∀ c ∈ cs.getLast?, isBlank c = false) : trim cs = cs := by
  rw [trim, dropWhile_isBlank hhead, dropWhile_isBlank (by rwa [List.head?_reverse]),
    List.reverse_reverse]

theorem trim_ne_nil (hc : c ∈ cs) (h : isBlank c = false) : trim cs ≠ [] := by
  intro htrim
  have hall := List.dropWhile_eq_nil_iff.mp (List.reverse_eq_nil_iff.mp htrim)
  rw [← List.takeWhile_append_dropWhile (p := isBlank) (l := cs), List.mem_append] at hc
  rcases hc with hc | hc
  · rw [List.mem_takeWhile_imp hc] at h
    cases h
  · rw [hall c (List.mem_reverse.mpr hc)] at h
    cases h

end Trim

section Split

theorem splitOn_intercalate_eq {c : Char} : ∀ {css : List (List Char)}, css ≠ [] →
    ([c].intercalate css).splitOn c = css.flatMap (·.splitOn c)
  | [cs], _ => by
    rw [List.intercalate_singleton, List.flatMap_singleton]
  | cs :: ds :: css, _ => by
    rw [List.intercalate_cons_cons, List.append_assoc, List.singleton_append,
      List.splitOn_append_cons_self, splitOn_intercalate_eq (List.cons_ne_nil ds css)]
    rfl

theorem splitOn_eq_singleton_iff {c : Char} {cs ds : List Char} :
    cs.splitOn c = [ds] ↔ c ∉ cs ∧ cs = ds := by
  constructor
  · intro h
    have hjoined : [c].intercalate (cs.splitOn c) = cs := List.intercalate_splitOn c
    rw [h, List.intercalate_singleton] at hjoined
    refine ⟨fun hc => ?_, hjoined.symm⟩
    obtain ⟨before, after, rfl⟩ := List.append_of_mem hc
    have hlength := congrArg List.length h
    have hbefore := List.length_pos_iff.mpr (List.splitOn_ne_nil c before)
    have hafter := List.length_pos_iff.mpr (List.splitOn_ne_nil c after)
    rw [List.splitOn_append_cons_self, List.length_append, List.length_singleton] at hlength
    omega
  · rintro ⟨hc, rfl⟩
    exact List.splitOn_eq_singleton hc

theorem length_le_flatMap {α : Type} {f : α → List α} : ∀ {as : List α}, (∀ a ∈ as, f a ≠ []) →
    as.length ≤ (as.flatMap f).length
  | [], _ => Nat.le_refl _
  | a :: as, h => by
    obtain ⟨ha, has⟩ := List.forall_mem_cons.mp h
    have hlength := length_le_flatMap has
    have hpos := List.length_pos_iff.mpr ha
    rw [List.flatMap_cons, List.length_append, List.length_cons]
    omega

/-- Where each element becomes one or more, the list stays if each becomes itself. -/
theorem flatMap_eq_self_iff {α : Type} {f : α → List α} : ∀ {as : List α}, (∀ a ∈ as, f a ≠ []) →
    (as.flatMap f = as ↔ ∀ a ∈ as, f a = [a])
  | [], _ => by simp
  | a :: as, h => by
    obtain ⟨ha, has⟩ := List.forall_mem_cons.mp h
    have hlength := length_le_flatMap has
    rw [List.flatMap_cons, List.forall_mem_cons, ← flatMap_eq_self_iff has]
    constructor
    · intro heq
      -- the others become at least as many as they are, so there is no second from this one
      obtain ⟨b, bs, hb⟩ := List.exists_cons_of_ne_nil ha
      have hsum := congrArg List.length heq
      rw [hb, List.cons_append, List.length_cons, List.length_append, List.length_cons] at hsum
      obtain rfl : bs = [] := List.eq_nil_of_length_eq_zero (by omega)
      rw [hb, List.cons_append, List.nil_append] at heq
      obtain ⟨rfl, htail⟩ := List.cons.inj heq
      exact ⟨hb, htail⟩
    · rintro ⟨ha', htail⟩
      rw [ha', htail]
      rfl

end Split

end Text

open Text

namespace Value

/-- NULL, an integer, a boolean or a text. -/
def Basic (v : Value) : Prop :=
  v.type ∈ [.null, .integer, .boolean, .text]

instance : DecidablePred Basic := fun v =>
  inferInstanceAs (Decidable (v.type ∈ _))

end Value

namespace CommandLine

open Value

section Reading

variable {cs : List Char}

theorem natural?_quote (cs : List Char) : natural? (Quoted.quote :: cs) = none := by
  rw [natural?, if_neg]
  simp [Quoted.quote]

theorem quote_cons_ne {c : Char} (h : Quoted.quote ≠ c) {ds : List Char} :
    Quoted.quote :: cs ≠ c :: ds :=
  fun heq => h (List.cons.inj heq).1

theorem ofText?_quote (cs : List Char) : Integer.ofText? (Quoted.quote :: cs) = none := by
  rw [Integer.ofText?, integer?, natural?_quote]
  · rfl
  · exact fun _ => quote_cons_ne (by decide)
  · exact fun _ => quote_cons_ne (by decide)

theorem ofChars?_quote (cs : List Char) : Magnitude.ofChars? (Quoted.quote :: cs) = none := by
  have hword : ∀ {s : String}, s.toList.head? ≠ some Quoted.quote →
      String.ofList ((Quoted.quote :: cs).map Char.toLower) ≠ s := by
    rintro _ hs rfl
    rw [String.toList_ofList] at hs
    exact hs rfl
  unfold Magnitude.ofChars?
  split
  · rename_i heq
    exact absurd heq (hword (by decide))
  · rename_i heq
    exact absurd heq (hword (by decide))
  · rename_i heq
    exact absurd heq (hword (by decide))
  · rfl

theorem toFloat?_quote (cs : List Char) : Numeral.toFloat? (Quoted.quote :: cs) = none := by
  rw [Numeral.toFloat?, ofChars?_quote]
  · rfl
  · exact fun _ => quote_cons_ne (by decide)
  · exact fun _ => quote_cons_ne (by decide)

theorem unquoted?_quoted (cs : List Char) :
    unquoted? (Quoted.quote :: (cs ++ [Quoted.quote])) = some cs := by
  rw [unquoted?, if_pos ⟨rfl, List.getLast?_concat⟩, List.dropLast_concat]

end Reading

/-- The rows as one argument. -/
def joined (vs : List Value) : String :=
  String.intercalate "," (vs.map literal)

section Literals

variable {v : Value} {s : String}

theorem isBlank_of_isDigit {c : Char} (h : c.isDigit = true) : isBlank c = false := by
  have hblanks : blanks.any Char.isDigit = false := by decide
  rw [Bool.eq_false_iff]
  intro hblank
  rw [isBlank, Bool.or_eq_true, Bool.and_eq_true, decide_eq_true_eq, decide_eq_true_eq,
    List.contains_iff_mem] at hblank
  rcases hblank with ⟨-, hle⟩ | hmem
  · rw [Char.isDigit, Bool.and_eq_true, decide_eq_true_eq] at h
    have hvalue : '0'.val ≤ '\x0d'.val := UInt32.le_trans h.1 hle
    exact absurd hvalue (by decide)
  · exact List.any_eq_false.mp hblanks c hmem h

theorem isBlank_of_mem_text {i : Int64} {c : Char} (h : c ∈ (Integer.text i).toList) :
    isBlank c = false := by
  rcases Integer.isDigit_of_mem_text c h with rfl | hdigit
  · decide
  · exact isBlank_of_isDigit hdigit

theorem trim_text (s : String) : trim (text s).literal.toList = (text s).literal.toList := by
  rw [literal, Quoted.encode, String.toList_ofList]
  refine trim_eq_self ?_ ?_
  · rintro _ ⟨⟩
    decide
  · rw [List.getLast?_concat]
    rintro _ ⟨⟩
    decide

/-- Between the outer quotes the text is taken as it stands. -/
theorem valueOf_text (s : String) :
    valueOf (text s).literal.toList = text (String.ofList (Quoted.body s.toList)) := by
  rw [valueOf, trim_text, literal, Quoted.encode, String.toList_ofList, List.cons_append]
  rw [ofText?_quote, toFloat?_quote, unquoted?_quoted]

theorem valueOf_integer (i : Int64) : valueOf (integer i).literal.toList = integer i := by
  have htrim : trim (Integer.text i).toList = (Integer.text i).toList :=
    trim_eq_self (fun _ hc => isBlank_of_mem_text (List.mem_of_mem_head? hc))
      fun _ hc => isBlank_of_mem_text (List.mem_of_getLast? hc)
  rw [literal, valueOf, htrim, Integer.ofText?_text]

theorem valueOf_literal_iff (h : v.Basic) : valueOf v.literal.toList = v ↔
    ∀ s, v = text s → Quoted.quote ∉ s.toList := by
  cases v with
  | null => exact iff_of_true rfl nofun
  | boolean b => cases b <;> exact iff_of_true rfl nofun
  | integer i => exact iff_of_true (valueOf_integer i) nofun
  | text s =>
    rw [valueOf_text, text.injEq, ← String.toList_inj, String.toList_ofList,
      Quoted.body_eq_self_iff]
    constructor
    · rintro hs _ ⟨⟩
      exact hs
    · exact fun hs => hs s rfl
  | _ => exact absurd h (by simp [Basic, type])

theorem comma_mem_literal_iff (h : v.Basic) : ',' ∈ v.literal.toList ↔
    ∃ s, v = text s ∧ ',' ∈ s.toList := by
  cases v with
  | null => exact iff_of_false (by decide) nofun
  | boolean b => cases b <;> exact iff_of_false (by decide) nofun
  | integer i =>
    refine iff_of_false (fun hcomma => ?_) nofun
    exact absurd (Integer.isDigit_of_mem_text _ hcomma) (by decide)
  | text s =>
    have hcomma : ',' ∈ (text s).literal.toList ↔ ',' ∈ s.toList := by
      rw [literal, Quoted.encode, String.toList_ofList, List.mem_append, List.mem_cons,
        Quoted.mem_body]
      simp [Quoted.quote]
    rw [hcomma]
    constructor
    · exact fun hs => ⟨s, rfl, hs⟩
    · rintro ⟨_, ⟨⟩, hs⟩
      exact hs
  | _ => exact absurd h (by simp [Basic, type])

theorem exists_not_blank (h : v.Basic) : ∃ c ∈ v.literal.toList, isBlank c = false := by
  cases v with
  | null => exact ⟨'N', by decide, by decide⟩
  | boolean b => cases b <;> exact ⟨'E', by decide, by decide⟩
  | integer i =>
    obtain ⟨c, cs, hcs⟩ := List.exists_cons_of_ne_nil (Integer.text_ne_nil i)
    have hc : c ∈ (Integer.text i).toList := hcs ▸ List.mem_cons_self
    exact ⟨c, hc, isBlank_of_mem_text hc⟩
  | text s =>
    refine ⟨Quoted.quote, ?_, by decide⟩
    rw [literal, Quoted.encode, String.toList_ofList]
    exact List.mem_cons_self
  | _ => exact absurd h (by simp [Basic, type])

theorem toList_joined (vs : List Value) :
    (joined vs).toList = [','].intercalate (vs.map fun v => v.literal.toList) := by
  rw [joined, String.toList_intercalate, List.map_map]
  rfl

theorem trim_joined_ne_nil {vs : List Value} (h : v.Basic) :
    trim (joined (v :: vs)).toList ≠ [] := by
  obtain ⟨c, hc, hblank⟩ := exists_not_blank h
  refine trim_ne_nil ?_ hblank
  rw [toList_joined]
  cases vs with
  | nil => simpa using hc
  | cons w vs =>
    rw [List.map_cons, List.map_cons, List.intercalate_cons_cons, List.append_assoc]
    exact List.mem_append_left _ hc

/-- The rows are read piece by piece. -/
theorem valuesOf_joined {vs : List Value} (h : ∀ v ∈ vs, v.Basic) : valuesOf (joined vs)
    = vs.flatMap fun v => (v.literal.toList.splitOn ',').map valueOf := by
  cases vs with
  | nil => rfl
  | cons v vs =>
    rw [valuesOf, if_neg (trim_joined_ne_nil (h v List.mem_cons_self)), toList_joined,
      splitOn_intercalate_eq (by simp), List.map_flatMap, List.flatMap_map]

theorem pieces_eq_singleton_iff (h : v.Basic) :
    (v.literal.toList.splitOn ',').map valueOf = [v] ↔
      ∀ s, v = text s → Quoted.quote ∉ s.toList ∧ ',' ∉ s.toList := by
  rw [List.map_eq_singleton_iff]
  constructor
  · rintro ⟨cs, hpieces, hvalue⟩ s hs
    obtain ⟨hcomma, rfl⟩ := splitOn_eq_singleton_iff.mp hpieces
    exact ⟨(valueOf_literal_iff h).mp hvalue s hs,
      fun hmem => hcomma ((comma_mem_literal_iff h).mpr ⟨s, hs, hmem⟩)⟩
  · intro htexts
    refine ⟨_, splitOn_eq_singleton_iff.mpr ⟨fun hcomma => ?_, rfl⟩,
      (valueOf_literal_iff h).mpr fun s hs => (htexts s hs).1⟩
    obtain ⟨s, hs, hmem⟩ := (comma_mem_literal_iff h).mp hcomma
    exact (htexts s hs).2 hmem

theorem valuesOf_joined_iff {vs : List Value} (h : ∀ v ∈ vs, v.Basic) :
    valuesOf (joined vs) = vs ↔
      ∀ s, text s ∈ vs → Quoted.quote ∉ s.toList ∧ ',' ∉ s.toList := by
  have hne : ∀ v ∈ vs, (v.literal.toList.splitOn ',').map valueOf ≠ [] := by
    intro v _
    rw [ne_eq, List.map_eq_nil_iff]
    exact List.splitOn_ne_nil ',' _
  rw [valuesOf_joined h, flatMap_eq_self_iff hne]
  constructor
  · exact fun hpieces s hs => (pieces_eq_singleton_iff (h _ hs)).mp (hpieces _ hs) s rfl
  · exact fun htexts v hv =>
      (pieces_eq_singleton_iff (h v hv)).mpr fun s hs => htexts s (hs ▸ hv)

end Literals

section Arguments

theorem ofLong_setting {n : List Char} {p : Parameter}
    (hname : Parameter.ofLong (String.ofList n) = some p) (h : '=' ∉ n) (value : String) :
    Argument.ofLong (n ++ '=' :: value.toList) = .setting p value := by
  have hall : ∀ c ∈ n, decide (c ≠ '=') = true := by
    intro c hc
    rw [decide_eq_true_eq]
    rintro rfl
    exact h hc
  rw [Argument.ofLong, List.takeWhile_append_of_pos hall, List.dropWhile_append_of_pos hall,
    List.takeWhile_cons_of_neg (by decide), List.dropWhile_cons_of_neg (by decide),
    List.append_nil, hname]
  exact congrArg (Argument.setting p) String.ofList_toList

theorem ofText_left (value : String) :
    Argument.ofText ("--left=" ++ value) = .setting .left value := by
  rw [Argument.ofText, String.toList_append]
  exact ofLong_setting (n := ['l', 'e', 'f', 't']) rfl (by decide) value

theorem ofText_rows (value : String) :
    Argument.ofText ("--rows=" ++ value) = .setting .rows value := by
  rw [Argument.ofText, String.toList_append]
  exact ofLong_setting (n := ['r', 'o', 'w', 's']) rfl (by decide) value

theorem ofArguments_left_rows (left rows : String) :
    ∃ r, Request.ofArguments ["--left=" ++ left, "--rows=" ++ rows] = some r ∧
      r.left = left ∧ r.rows = rows := by
  have hread : Arguments.read {} ["--left=" ++ left, "--rows=" ++ rows]
      = some { settings := [(.rows, rows), (.left, left)] } := by
    rw [Arguments.read, ofText_left]
    show Arguments.read { settings := [(.left, left)] } _ = _
    rw [Arguments.read, ofText_rows]
    rfl
  rw [Request.ofArguments, hread]
  exact ⟨_, rfl, rfl, rfl⟩

/-- A value is read from the command line as it is printed unless it is a text with a quote, and a
list of values unless there is a text with a quote or a comma among them. -/
theorem arguments_read_back_iff {left : Value} {vs : List Value} (hleft : left.Basic)
    (hrows : ∀ v ∈ vs, v.Basic) : ∃ r,
      Request.ofArguments ["--left=" ++ left.literal, "--rows=" ++ joined vs] = some r ∧
      (valueOf r.left.toList = left ↔ ∀ s, left = .text s → Quoted.quote ∉ s.toList) ∧
      (valuesOf r.rows = vs ↔ ∀ s, .text s ∈ vs → Quoted.quote ∉ s.toList ∧ ',' ∉ s.toList) := by
  obtain ⟨r, hr, hl, hv⟩ := ofArguments_left_rows left.literal (joined vs)
  refine ⟨r, hr, ?_, ?_⟩
  · rw [hl]
    exact valueOf_literal_iff hleft
  · rw [hv]
    exact valuesOf_joined_iff hrows

theorem arguments_read_back_iff_four :
    let vs : List Value := [.null, .integer (-5), .boolean true, .text "so be it"]
    (Value.text "it is").Basic ∧ (∀ v ∈ vs, v.Basic) ∧
      ∃ r, Request.ofArguments ["--left='it is'", "--rows=NULL,-5,TRUE,'so be it'"] = some r ∧
        valueOf r.left.toList = .text "it is" ∧ valuesOf r.rows = vs := by
  intro vs
  have hleft : (Value.text "it is").Basic := by decide
  have hrows : ∀ v ∈ vs, v.Basic := by decide
  obtain ⟨r, hr, hl, hv⟩ := arguments_read_back_iff hleft hrows
  refine ⟨hleft, hrows, r, hr, hl.mpr ?_, hv.mpr ?_⟩
  · rintro _ ⟨⟩
    decide
  · intro s hs
    obtain rfl : s = "so be it" := by simpa [vs] using hs
    decide

/-- A quote in a text comes back doubled, and a comma cuts a text in two. -/
theorem argument_doubles_quotes :
    valueOf (Value.text "it's").literal.toList = .text "it''s" ∧
      valuesOf (joined [.text "a,b"]) = [.text "'a", .text "b'"] := by
  decide

end Arguments

end CommandLine

end QuantifiedComparison
