import QuantifiedComparison.Proofs.Release

/-!
# What an evaluation reads

A scan reads up to the first row that settles the predicate, and the rows after it do not matter
(`scan_settled`); if no row settles it, the scan reads all (`scan_unsettled`). A lookup asks for the
converted value, and for NULL if it did not find the value; what else is in the table does not
matter (`Asks.lookup_eq`). Over no rows, or for a NULL, nothing is asked.
-/

namespace QuantifiedComparison

theorem Usage.read_read (u : Usage) (m n : Nat) : (u.read m).read n = u.read (m + n) := by
  simp only [read, Nat.add_assoc]

/-- What was asked after that many more lookups. -/
def Usage.look (u : Usage) (n : Nat) : Usage :=
  { u with lookups := u.lookups + n }

namespace Probe

section Consume

variable {σ : Type} {step : σ → Row → Except Error (ForInStep σ)}

/-- Reading goes on after the row, whatever was read before. -/
def Passes (step : σ → Row → Except Error (ForInStep σ)) (row : Row) : Prop :=
  ∀ s, ∃ t, step s row = .ok (.yield t)

/-- Reading stops at the row, whatever was read before. -/
def Stops (step : σ → Row → Except Error (ForInStep σ)) (row : Row) : Prop :=
  ∀ s t, step s row ≠ .ok (.yield t)

/-- Consuming only reads rows. -/
theorem exists_usage_consume : ∀ {rows : List Row} {s : σ} {p : Probe}, p.Readable →
    p.pending = rows → ∃ n, (p.consume step s).2.usage = p.usage.read n
  | [], s, p, h, hp => by
    obtain ⟨q, hnext, husage⟩ := h.next_nil hp
    rw [consume_none step s hnext]
    exact ⟨0, husage⟩
  | row :: rows, s, p, h, hp => by
    obtain ⟨q, hnext, hq, husage, hread⟩ := h.next_cons hp
    rw [consume_some step s hnext]
    rcases step s row with e | t | t
    · exact ⟨1, husage⟩
    · exact ⟨1, husage⟩
    · obtain ⟨n, hn⟩ := exists_usage_consume (s := t) hread hq
      rw [husage, Usage.read_read] at hn
      exact ⟨1 + n, hn⟩

theorem usage_consume_passing : ∀ {rows : List Row} {s : σ} {p : Probe}, p.Readable →
    p.pending = rows → (∀ row ∈ rows, Passes step row) →
      (p.consume step s).2.usage = p.usage.read rows.length
  | [], s, p, h, hp, _ => by
    obtain ⟨q, hnext, husage⟩ := h.next_nil hp
    rw [consume_none step s hnext]
    exact husage
  | row :: rows, s, p, h, hp, hpasses => by
    obtain ⟨hrow, hrows⟩ := List.forall_mem_cons.mp hpasses
    obtain ⟨q, hnext, hq, husage, hread⟩ := h.next_cons hp
    obtain ⟨t, ht⟩ := hrow s
    rw [consume_some step s hnext, ht]
    dsimp only
    rw [usage_consume_passing hread hq hrows, husage, Usage.read_read, Nat.add_comm]
    rfl

/-- The row at which reading stops is the last one read. -/
theorem usage_consume_stopping {row : Row} {after : List Row} (hstops : Stops step row) :
    ∀ {before : List Row} {s : σ} {p : Probe}, p.Readable → p.pending = before ++ row :: after →
      (∀ row ∈ before, Passes step row) →
      (p.consume step s).2.usage = p.usage.read (before.length + 1)
  | [], s, p, h, hp, _ => by
    obtain ⟨q, hnext, -, husage, -⟩ := h.next_cons hp
    rw [consume_some step s hnext]
    rcases hstep : step s row with e | t | t
    · exact husage
    · exact husage
    · exact absurd hstep (hstops s t)
  | row' :: before, s, p, h, hp, hpasses => by
    obtain ⟨hrow, hbefore⟩ := List.forall_mem_cons.mp hpasses
    obtain ⟨q, hnext, hq, husage, hread⟩ := h.next_cons hp
    obtain ⟨t, ht⟩ := hrow s
    rw [consume_some step s hnext, ht]
    dsimp only
    rw [usage_consume_stopping hstops hread hq hbefore, husage, Usage.read_read, Nat.add_comm]
    rfl

theorem forIn_stopping {row : Row} (hstops : Stops step row) (after after' : List Row) :
    ∀ (before : List Row) (s : σ), (forIn (before ++ row :: after) s fun row s => step s row)
      = forIn (before ++ row :: after') s fun row s => step s row
  | [], s => by
    rw [List.nil_append, List.nil_append, List.forIn_cons, List.forIn_cons]
    rcases hstep : step s row with e | t | t
    · rfl
    · rfl
    · exact absurd hstep (hstops s t)
  | row' :: before, s => by
    rw [List.cons_append, List.cons_append, List.forIn_cons, List.forIn_cons]
    rcases step s row' with e | t | t
    · rfl
    · rfl
    · exact forIn_stopping hstops after after' before t

end Consume

theorem contains_opened {p : Probe} (hopen : p.closed = false) (key : Row) :
    p.contains key = (p.table.contains key, { p with usage := p.usage.look 1 }) := by
  rw [contains, hopen]
  rfl

end Probe

namespace Predicate

/-- A row that settles the comparison of a value with the rows: it fails there, or the row decides,
which for ALL a row without a value does as well. -/
inductive Settles (p : Predicate) (v : Value) : Row → Prop
  | failure {w : Value} {rest : Row} {e : Error} (hw : w ≠ .null)
    (h : p.comparison.outcome v w = .error e) : Settles p v (w :: rest)
  | match {w : Value} {rest : Row} (hany : p.quantifier = .any) (hw : w ≠ .null)
    (h : p.comparison.outcome v w = .ok true) : Settles p v (w :: rest)
  | mismatch {w : Value} {rest : Row} (hall : p.quantifier = .all) (hw : w ≠ .null)
    (h : p.comparison.outcome v w = .ok false) : Settles p v (w :: rest)
  | null {rest : Row} (hall : p.quantifier = .all) : Settles p v (.null :: rest)
  | empty (hall : p.quantifier = .all) : Settles p v []

section Scan

variable {p : Predicate} {v : Value} {row : Row}

theorem matchesRow_of_datum_none (h : datum? row = none) : p.matchesRow v row = .ok false := by
  rw [matchesRow, h]

theorem matchesRow_cons {w : Value} (hw : w ≠ .null) (rest : Row) :
    p.matchesRow v (w :: rest) = p.comparison.outcome v w := by
  have hdatum : datum? (w :: rest) = some w := datum?_value hw
  rw [matchesRow, hdatum]

theorem all_of_ne_vacuous {q : Quantifier}
    (h : (.ok false : Except Error Bool) ≠ .ok q.vacuous) : q = .all := by
  cases q with
  | any => exact absurd rfl h
  | all => rfl

theorem any_of_ne_vacuous {q : Quantifier}
    (h : (.ok true : Except Error Bool) ≠ .ok q.vacuous) : q = .any := by
  cases q with
  | any => rfl
  | all => exact absurd rfl h

theorem settles_iff : p.Settles v row ↔ p.matchesRow v row ≠ .ok p.quantifier.vacuous := by
  constructor
  · rintro (⟨hw, h⟩ | ⟨hany, hw, h⟩ | ⟨hall, hw, h⟩ | hall | hall)
    · rw [matchesRow_cons hw, h]
      exact nofun
    · rw [matchesRow_cons hw, h, hany]
      exact nofun
    · rw [matchesRow_cons hw, h, hall]
      exact nofun
    · rw [matchesRow_of_datum_none rfl, hall]
      exact nofun
    · rw [matchesRow_of_datum_none rfl, hall]
      exact nofun
  · intro h
    rcases row with _ | ⟨w, rest⟩
    · exact .empty (all_of_ne_vacuous h)
    by_cases hw : w = .null
    · obtain rfl := hw
      exact .null (all_of_ne_vacuous h)
    · rw [matchesRow_cons hw] at h
      rcases houtcome : p.comparison.outcome v w with e | matched
      · exact .failure hw houtcome
      · rw [houtcome] at h
        cases matched with
        | true => exact .match (any_of_ne_vacuous h) hw houtcome
        | false => exact .mismatch (all_of_ne_vacuous h) hw houtcome

theorem passes_of_not_settles (h : ¬p.Settles v row) : Probe.Passes (p.scanRow v) row := by
  rw [settles_iff, not_not] at h
  intro s
  rw [scanRow, h]
  exact ⟨_, congrArg Except.ok (if_pos rfl)⟩

theorem stops_of_settles (h : p.Settles v row) : Probe.Stops (p.scanRow v) row := by
  rw [settles_iff] at h
  intro s t
  rw [scanRow]
  rcases hmatched : p.matchesRow v row with e | matched
  · intro hstep
    cases hstep
  · rw [hmatched] at h
    rw [Except.map, if_neg fun heq => h (congrArg Except.ok heq)]
    intro hstep
    cases hstep

variable {policy : NullRowPolicy} {probe : Probe}

theorem scan_operand_error {e : Error} (h : operand v (probe.columnType 0) = .error e) :
    p.scan policy v probe = (.error e, probe) := by
  rw [scan, h]

theorem scan_operand {w : Value} (h : operand v (probe.columnType 0) = .ok w) :
    p.scan policy v probe
      = ((probe.consume (p.scanRow w) { result := p.quantifier.vacuous }).1.map
          fun s => policy.resolve p.quantifier s.result s.sawNull,
        (probe.consume (p.scanRow w) { result := p.quantifier.vacuous }).2) := by
  rw [scan, h]

theorem exists_usage_scan (hread : probe.Readable) :
    ∃ n, (p.scan policy v probe).2.usage = probe.usage.read n := by
  rcases h : operand v (probe.columnType 0) with e | w
  · rw [scan_operand_error h]
    exact ⟨0, rfl⟩
  · rw [scan_operand h]
    exact Probe.exists_usage_consume hread rfl

theorem scan_unsettled {w : Value} (hread : probe.Readable)
    (h : operand v (probe.columnType 0) = .ok w) (hnone : ∀ row ∈ probe.pending, ¬p.Settles w row) :
    (p.scan policy v probe).2.usage = probe.usage.read probe.pending.length := by
  rw [scan_operand h]
  exact Probe.usage_consume_passing hread rfl fun row hrow => passes_of_not_settles (hnone row hrow)

theorem scan_settled {w : Value} {before after : List Row} (hread : probe.Readable)
    (h : operand v (probe.columnType 0) = .ok w) (hpending : probe.pending = before ++ row :: after)
    (hbefore : ∀ row ∈ before, ¬p.Settles w row) (hrow : p.Settles w row) :
    (p.scan policy v probe).2.usage = probe.usage.read (before.length + 1) := by
  rw [scan_operand h]
  exact Probe.usage_consume_stopping (stops_of_settles hrow) hread hpending
    fun row hrow => passes_of_not_settles (hbefore row hrow)

/-- The rows after one that settles the predicate do not matter. -/
theorem scan_settled_congr {w : Value} {before after after' : List Row} {probe' : Probe}
    (hread : probe.Readable) (hread' : probe'.Readable)
    (h : operand v (probe.columnType 0) = .ok w) (htype : probe'.columnType 0 = probe.columnType 0)
    (hpending : probe.pending = before ++ row :: after)
    (hpending' : probe'.pending = before ++ row :: after') (hrow : p.Settles w row) :
    (p.scan policy v probe').1 = (p.scan policy v probe).1 := by
  rw [scan_operand h, scan_operand (htype ▸ h)]
  dsimp only
  rw [Probe.consume_eq_forIn _ _ hread hpending, Probe.consume_eq_forIn _ _ hread' hpending',
    Probe.forIn_stopping (stops_of_settles hrow) after' after]

end Scan

/-- What a lookup of a value asks for: its conversion, unless that fails, and NULL if the conversion
is not among the rows, or if the value has none because it is a fraction among integers. -/
inductive Asks (v : Value) (table : ResultTable) : List Row → Prop
  | untyped (htype : table.columnType 0 = .null) : Asks v table []
  | inconvertible {e : Error} (htype : table.columnType 0 ≠ .null)
    (h : v.convert (table.columnType 0) = .error e)
    (hkind : ¬(v.type = .float ∧ table.columnType 0 = .integer)) : Asks v table []
  | fraction {e : Error} (h : v.convert .integer = .error e) (hv : v.type = .float)
    (htype : table.columnType 0 = .integer) : Asks v table [[.null]]
  | found {w : Value} (htype : table.columnType 0 ≠ .null)
    (h : v.convert (table.columnType 0) = .ok w) (hfound : table.contains [w] ≠ .ok false) :
    Asks v table [[w]]
  | absent {w : Value} (htype : table.columnType 0 ≠ .null)
    (h : v.convert (table.columnType 0) = .ok w) (habsent : table.contains [w] = .ok false) :
    Asks v table [[w], [.null]]

section Lookup

variable {v : Value} {table : ResultTable} {t : ColumnType}

theorem lookupKey_of_convert {w : Value} (h : v.convert t = .ok w) :
    lookupKey v t = .ok (some w) := by
  unfold lookupKey
  split
  · rw [Value.convert_ok_iff.mp h]
  · rw [h]
    rfl

theorem lookupKey_of_fraction {e : Error} (h : v.convert .integer = .error e)
    (hv : v.type = .float) : lookupKey v .integer = .ok none := by
  obtain ⟨f, rfl⟩ := Value.exists_float hv
  have hnone : (Value.float f).convert? .integer = none := by
    rcases hsome : (Value.float f).convert? .integer with _ | w
    · rfl
    · rw [Value.convert_ok_iff.mpr hsome] at h
      cases h
  rw [lookupKey, hnone]

theorem lookupKey_of_inconvertible {e : Error} (h : v.convert t = .error e)
    (hkind : ¬(v.type = .float ∧ t = .integer)) : lookupKey v t = .error e := by
  unfold lookupKey
  split
  · exact absurd ⟨rfl, rfl⟩ hkind
  · rw [h]
    rfl

theorem exists_asks (v : Value) (table : ResultTable) : ∃ keys, Asks v table keys := by
  by_cases htype : table.columnType 0 = .null
  · exact ⟨_, .untyped htype⟩
  rcases h : v.convert (table.columnType 0) with e | w
  · by_cases hkind : v.type = .float ∧ table.columnType 0 = .integer
    · rw [hkind.2] at h
      exact ⟨_, .fraction h hkind.1 hkind.2⟩
    · exact ⟨_, .inconvertible htype h hkind⟩
  · by_cases habsent : table.contains [w] = .ok false
    · exact ⟨_, .absent htype h habsent⟩
    · exact ⟨_, .found htype h habsent⟩

theorem Asks.length_le {keys : List Row} (h : Asks v table keys) : keys.length ≤ 2 := by
  cases h <;> simp

variable {probe : Probe}

theorem lookupNull_opened (hopen : probe.closed = false) : lookupNull probe
    = ((probe.table.contains [.null]).map fun b => if b then .unknown else .fails,
      { probe with usage := probe.usage.look 1 }) := by
  rw [lookupNull, Probe.contains_opened hopen]

theorem lookup_untyped (htype : probe.columnType 0 = .null) :
    lookup v probe = (.ok .fails, probe) := by
  rw [lookup, if_pos htype]

theorem lookup_of_key_error (htype : probe.columnType 0 ≠ .null) {e : Error}
    (h : lookupKey v (probe.columnType 0) = .error e) : lookup v probe = (.error e, probe) := by
  rw [lookup, if_neg htype, h]

theorem lookup_of_no_key (htype : probe.columnType 0 ≠ .null)
    (h : lookupKey v (probe.columnType 0) = .ok none) : lookup v probe = lookupNull probe := by
  rw [lookup, if_neg htype, h]

theorem lookup_of_found (hopen : probe.closed = false) (htype : probe.columnType 0 ≠ .null)
    {w : Value} (h : lookupKey v (probe.columnType 0) = .ok (some w))
    (hfound : probe.table.contains [w] ≠ .ok false) : lookup v probe
      = ((probe.table.contains [w]).map fun _ => .holds,
        { probe with usage := probe.usage.look 1 }) := by
  rw [lookup, if_neg htype, h]
  dsimp only
  rw [Probe.contains_opened hopen]
  rcases hcontains : probe.table.contains [w] with e | found
  · rfl
  · cases found with
    | true => rfl
    | false => exact absurd hcontains hfound

theorem lookup_of_absent (hopen : probe.closed = false) (htype : probe.columnType 0 ≠ .null)
    {w : Value} (h : lookupKey v (probe.columnType 0) = .ok (some w))
    (habsent : probe.table.contains [w] = .ok false) : lookup v probe
      = ((probe.table.contains [.null]).map fun b => if b then .unknown else .fails,
        { probe with usage := probe.usage.look 2 }) := by
  rw [lookup, if_neg htype, h]
  dsimp only
  rw [Probe.contains_opened hopen, habsent]
  exact lookupNull_opened hopen

/-- A lookup is what it asks for: another table that has the same type and the same replies gives
the same answer. -/
theorem Asks.lookup_eq {keys : List Row} {probe' : Probe} (h : Asks v probe.table keys)
    (hopen : probe.closed = false) (hopen' : probe'.closed = false)
    (htype : probe'.columnType 0 = probe.columnType 0)
    (hcontains : ∀ key ∈ keys, probe'.table.contains key = probe.table.contains key) :
    lookup v probe'
      = ((lookup v probe).1, { probe' with usage := probe'.usage.look keys.length }) := by
  cases h with
  | untyped hnull =>
    rw [lookup_untyped hnull, lookup_untyped (htype.trans hnull)]
    rfl
  | inconvertible hne h hkind =>
    have hkey : lookupKey v (probe.columnType 0) = _ := lookupKey_of_inconvertible h hkind
    rw [lookup_of_key_error hne hkey, lookup_of_key_error (htype.trans_ne hne) (htype ▸ hkey)]
    rfl
  | fraction h hv hinteger =>
    have hinteger : probe.columnType 0 = .integer := hinteger
    have hne : probe.columnType 0 ≠ .null := by rw [hinteger]; exact nofun
    have hkey : lookupKey v (probe.columnType 0) = .ok none := by
      rw [hinteger]
      exact lookupKey_of_fraction h hv
    have hnull := hcontains _ (List.mem_singleton_self _)
    rw [lookup_of_no_key hne hkey, lookup_of_no_key (htype.trans_ne hne) (htype ▸ hkey),
      lookupNull_opened hopen, lookupNull_opened hopen', hnull]
    rfl
  | found hne h hfound =>
    have hkey : lookupKey v (probe.columnType 0) = _ := lookupKey_of_convert h
    have hreply := hcontains _ (List.mem_singleton_self _)
    rw [lookup_of_found hopen hne hkey hfound,
      lookup_of_found hopen' (htype.trans_ne hne) (htype ▸ hkey) (hreply ▸ hfound), hreply]
    rfl
  | absent hne h habsent =>
    have hkey : lookupKey v (probe.columnType 0) = _ := lookupKey_of_convert h
    have hreply := hcontains _ List.mem_cons_self
    have hnull := hcontains _ (List.mem_cons_of_mem _ (List.mem_singleton_self _))
    rw [lookup_of_absent hopen hne hkey habsent,
      lookup_of_absent hopen' (htype.trans_ne hne) (htype ▸ hkey) (hreply.trans habsent), hnull]
    rfl

end Lookup

section Answer

variable {p : Predicate} {plan : Plan} {ctx : Context} {v : Value} {table : ResultTable}

/-- Where nothing is asked. -/
theorem answer_idle (hleft : p.left.eval ctx = .ok v) (h : table.rows = [] ∨ v = .null) :
    (p.answer ctx (.start { table })).2 = .start { table } := by
  rw [answer, hleft]
  dsimp only
  split_ifs with hcount hnull
  · rfl
  · rfl
  · rcases h with hrows | rfl
    · exact absurd (congrArg List.length hrows) hcount
    · exact absurd rfl hnull

theorem answer_asking (hleft : p.left.eval ctx = .ok v) (hrows : table.rows ≠ []) (hv : v ≠ .null) :
    p.answer ctx (.start { table }) =
      match p.strategy ctx.settings with
      | .scan =>
        ((p.scan ctx.settings.nullRows v (.start { table })).1.map Truth.toValue,
          (p.scan ctx.settings.nullRows v (.start { table })).2)
      | .lookup =>
        ((lookup v (.start { table })).1.map Truth.toValue, (lookup v (.start { table })).2) := by
  have hcount : (Probe.start { table }).rowCount ≠ 0 :=
    fun h => hrows (List.length_eq_zero_iff.mp h)
  rw [answer, hleft]
  dsimp only
  rw [if_neg hcount, Value.isNull_eq_false_iff.mpr hv, if_neg Bool.false_ne_true]
  cases p.strategy ctx.settings <;> rfl

theorem evaluate_of_response (hrun : plan.run ctx = .ok { table }) (registry : Registry) :
    let answered := p.answer ctx (.start { table })
    (p.evaluate plan ctx registry).outcome = answered.1 ∧ (p.evaluate plan ctx registry).usage
      = { answered.2.usage with closes := answered.2.usage.closes + 1 } := by
  intro answered
  rw [evaluate, Plan.withProbe_ok hrun]
  exact ⟨rfl, answered.2.usage_close⟩

/-- What is asked of a run that is closed without being read. -/
def untouched : Usage where
  runs := 1
  closes := 1

theorem usage_idle (hrun : plan.run ctx = .ok { table }) (hleft : p.left.eval ctx = .ok v)
    (h : table.rows = [] ∨ v = .null) (registry : Registry) :
    (p.evaluate plan ctx registry).usage = untouched := by
  rw [(evaluate_of_response hrun registry).2, answer_idle hleft h]
  rfl

/-- A run of the query whose rows a value is compared with, and how. -/
structure Asking (p : Predicate) (plan : Plan) (ctx : Context) (v : Value) (table : ResultTable)
    (strategy : Strategy) : Prop where
  run : plan.run ctx = .ok { table }
  left : p.left.eval ctx = .ok v
  value : v ≠ .null
  rows : table.rows ≠ []
  strategy : p.strategy ctx.settings = strategy

namespace Asking

section Scan

variable (h : p.Asking plan ctx v table .scan) (registry : Registry)
include h

theorem outcome_scan : (p.evaluate plan ctx registry).outcome
    = (p.scan ctx.settings.nullRows v (.start { table })).1.map Truth.toValue := by
  rw [(evaluate_of_response h.run registry).1, answer_asking h.left h.rows h.value, h.strategy]

theorem usage_scan {n : Nat}
    (hscan : (p.scan ctx.settings.nullRows v (.start { table })).2.usage
      = (Probe.start { table }).usage.read n) :
    (p.evaluate plan ctx registry).usage = untouched.read n := by
  rw [(evaluate_of_response h.run registry).2, answer_asking h.left h.rows h.value, h.strategy,
    hscan]
  rfl

theorem exists_usage : ∃ n, (p.evaluate plan ctx registry).usage = untouched.read n := by
  obtain ⟨n, hn⟩ := exists_usage_scan (Probe.readable_start table)
  exact ⟨n, h.usage_scan registry hn⟩

theorem usage_inconvertible {e : Error} (he : operand v (table.columnType 0) = .error e) :
    (p.evaluate plan ctx registry).usage = untouched.read 0 :=
  h.usage_scan registry (by rw [scan_operand_error he]; rfl)

variable {w : Value} (hw : operand v (table.columnType 0) = .ok w)
include hw

theorem usage_unsettled (hnone : ∀ row ∈ table.rows, ¬p.Settles w row) :
    (p.evaluate plan ctx registry).usage = untouched.read table.rows.length :=
  h.usage_scan registry (scan_unsettled (Probe.readable_start table) hw hnone)

variable {before after : List Row} {row : Row} (hsplit : table.rows = before ++ row :: after)
  (hbefore : ∀ row' ∈ before, ¬p.Settles w row') (hrow : p.Settles w row)
include hsplit hbefore hrow

theorem usage_settled :
    (p.evaluate plan ctx registry).usage = untouched.read (before.length + 1) :=
  h.usage_scan registry (scan_settled (Probe.readable_start table) hw hsplit hbefore hrow)

theorem evaluate_settled_congr {plan' : Plan} {after' : List Row} (hrun' : plan'.run ctx
      = .ok { table := { table with rows := before ++ row :: after' } }) :
    (p.evaluate plan' ctx registry).outcome = (p.evaluate plan ctx registry).outcome ∧
      (p.evaluate plan' ctx registry).usage = (p.evaluate plan ctx registry).usage := by
  have h' : p.Asking plan' ctx v { table with rows := before ++ row :: after' } .scan :=
    { h with run := hrun', rows := by simp }
  constructor
  · have hread' := Probe.readable_start { table with rows := before ++ row :: after' }
    rw [h.outcome_scan, h'.outcome_scan,
      scan_settled_congr (Probe.readable_start table) hread' hw rfl hsplit rfl hrow]
  · rw [h.usage_settled registry hw hsplit hbefore hrow,
      h'.usage_settled registry hw rfl hbefore hrow]

end Scan

section Lookup

variable (h : p.Asking plan ctx v table .lookup) (registry : Registry) {keys : List Row}
  (hkeys : Asks v table keys)
include h hkeys

theorem evaluate_lookup {plan' : Plan} {table' : ResultTable}
    (hrun' : plan'.run ctx = .ok { table := table' }) (hrows' : table'.rows ≠ [])
    (htype : table'.columnType 0 = table.columnType 0)
    (hcontains : ∀ key ∈ keys, table'.contains key = table.contains key) :
    (p.evaluate plan' ctx registry).outcome = (p.evaluate plan ctx registry).outcome ∧
      (p.evaluate plan' ctx registry).usage = untouched.look keys.length := by
  have hkeys : Asks v (Probe.start { table }).table keys := hkeys
  have hlookup : lookup v (.start { table := table' }) = _ :=
    hkeys.lookup_eq rfl rfl htype hcontains
  obtain ⟨houtcome, -⟩ := evaluate_of_response (p := p) h.run registry
  obtain ⟨houtcome', husage'⟩ := evaluate_of_response (p := p) hrun' registry
  rw [answer_asking h.left h.rows h.value, h.strategy] at houtcome
  rw [answer_asking h.left hrows' h.value, h.strategy, hlookup] at houtcome' husage'
  exact ⟨houtcome'.trans houtcome.symm, husage'⟩

theorem usage_lookup : (p.evaluate plan ctx registry).usage = untouched.look keys.length :=
  (h.evaluate_lookup registry hkeys h.run h.rows rfl fun _ _ => rfl).2

end Lookup

end Asking

end Answer

end Predicate

end QuantifiedComparison
