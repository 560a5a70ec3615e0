import QuantifiedComparison.Predicate.Evaluation
import QuantifiedComparison.Proofs.SingleColumn

/-!
# Scans

A scan is the search for the first value that settles its predicate: one whose comparison decides,
or cannot be made (`scan_start`). Values before it only tell whether a NULL was seen, and that
matters to an ANY alone, since an ALL is settled by a NULL.
-/

namespace QuantifiedComparison

/-- What was asked after that many more rows were read. -/
def Usage.read (u : Usage) (n : Nat) : Usage :=
  { u with rowsRead := u.rowsRead + n }

namespace Probe

/-- Open, and without faults to meet. -/
structure Readable (p : Probe) : Prop where
  opened : p.closed = false
  faultless : ∀ n, p.faults.onNext n = none

theorem readable_start (table : ResultTable) : (start { table }).Readable :=
  ⟨rfl, fun _ => rfl⟩

theorem next_nil {p : Probe} (hread : p.faults.onNext p.reads = none) (hopen : p.closed = false)
    (hp : p.pending = []) : p.next = (.ok none, { p with reads := p.reads + 1 }) := by
  simp [next, hread, hopen, hp]

theorem next_cons {p : Probe} (hread : p.faults.onNext p.reads = none) (hopen : p.closed = false)
    {row : Row} {rest : List Row} (hp : p.pending = row :: rest) :
    p.next = (.ok (some row),
      { p with reads := p.reads + 1, pending := rest, usage := p.usage.read 1 }) := by
  simp [next, hread, hopen, hp, Usage.read]

theorem Readable.next_nil {p : Probe} (h : p.Readable) (hp : p.pending = []) :
    ∃ q, p.next = (.ok none, q) ∧ q.usage = p.usage :=
  ⟨_, Probe.next_nil (h.faultless _) h.opened hp, rfl⟩

theorem Readable.next_cons {p : Probe} (h : p.Readable) {row : Row} {rest : List Row}
    (hp : p.pending = row :: rest) :
    ∃ q, p.next = (.ok (some row), q) ∧ q.pending = rest ∧ q.usage = p.usage.read 1 ∧
      q.Readable :=
  ⟨_, Probe.next_cons (h.faultless _) h.opened hp, rfl, rfl, h.opened, h.faultless⟩

section Consume

variable {σ : Type} (step : σ → Row → Except Error (ForInStep σ)) (s : σ)

theorem consume_none {p q : Probe} (h : p.next = (.ok none, q)) :
    p.consume step s = (.ok s, q) := by
  rw [consume]
  split <;> (rename_i heq; rw [h] at heq; cases heq)
  rfl

theorem consume_some {p q : Probe} {row : Row} (h : p.next = (.ok (some row), q)) :
    p.consume step s =
      match step s row with
      | .error e => (.error e, q)
      | .ok (.done t) => (.ok t, q)
      | .ok (.yield t) => consume step t q := by
  conv_lhs => rw [consume]
  split <;> (rename_i heq; rw [h] at heq; cases heq)
  rfl

/-- Only the rows that are left decide what comes of consuming them. -/
theorem consume_eq_forIn {rows : List Row} {p : Probe} (h : p.Readable) (hp : p.pending = rows) :
    (p.consume step s).1 = forIn rows s fun row s => step s row := by
  induction rows generalizing s p with
  | nil =>
    obtain ⟨q, hnext, -⟩ := h.next_nil hp
    rw [consume_none step s hnext]
    rfl
  | cons row rows ih =>
    obtain ⟨q, hnext, hq, -, hread⟩ := h.next_cons hp
    rw [consume_some step s hnext, List.forIn_cons]
    rcases step s row with e | t | t
    · rfl
    · rfl
    · exact ih t hread hq

end Consume

/-- Rows are read up to the last if neither their reads nor the one that finds no row meets a
fault. -/
theorem consume_append : ∀ {rows before : List Row} {p : Probe}, p.closed = false →
    p.pending = rows → (∀ n ≤ rows.length, p.faults.onNext (p.reads + n) = none) →
    (p.consume (fun rows row => .ok (.yield (rows ++ [row]))) before).1 = .ok (before ++ rows)
  | [], before, p, hopen, hp, hreads => by
    rw [consume_none _ _ (next_nil (hreads 0 (Nat.zero_le _)) hopen hp), List.append_nil]
  | row :: rest, before, p, hopen, hp, hreads => by
    rw [consume_some _ _ (next_cons (hreads 0 (Nat.zero_le _)) hopen hp),
      List.append_cons before row rest]
    refine consume_append hopen rfl fun n hn => ?_
    rw [Nat.add_assoc, Nat.add_comm 1 n]
    exact hreads (n + 1) (Nat.succ_le_succ hn)

theorem toRows_of_reads {r : Response}
    (hreads : ∀ n ≤ r.table.rows.length, r.faults.onNext n = none) :
    (start r).toRows.1 = .ok r.table.rows :=
  consume_append rfl rfl fun n hn => (congrArg r.faults.onNext (Nat.zero_add n)).trans (hreads n hn)

theorem toRows_start (table : ResultTable) : (start { table }).toRows.1 = .ok table.rows :=
  toRows_of_reads fun _ _ => rfl

end Probe

/-- The truth of a search: what is not found among values with a NULL may yet be there. -/
def Truth.ofSearch (found sawNull : Bool) : Truth :=
  if found then .holds else if sawNull then .unknown else .fails

theorem Truth.ofSearch_eq_holds_iff {found sawNull : Bool} :
    Truth.ofSearch found sawNull = .holds ↔ found = true := by
  revert found sawNull
  decide

theorem Truth.ofSearch_eq_fails_iff {found sawNull : Bool} :
    Truth.ofSearch found sawNull = .fails ↔ found = false ∧ sawNull = false := by
  revert found sawNull
  decide

theorem Truth.ofSearch_inj {a b sawNull : Bool} :
    Truth.ofSearch a sawNull = .ofSearch b sawNull ↔ a = b := by
  revert a b sawNull
  decide

theorem NullRowPolicy.resolve_any (policy : NullRowPolicy) (found sawNull : Bool) :
    policy.resolve .any found sawNull = .ofSearch found sawNull := by
  cases policy <;> cases found <;> cases sawNull <;> rfl

namespace Predicate

/-- Whether a scan stops at the value. -/
def stopsAt (p : Predicate) (left w : Value) : Bool :=
  match p.matchesRow left [w] with
  | .ok matched => matched != p.quantifier.vacuous
  | .error _ => true

/-- What a scan of the values says. -/
def scanTruth (p : Predicate) (policy : NullRowPolicy) (left : Value) (ws : List Value) :
    Except Error Truth :=
  match ws.find? (p.stopsAt left) with
  | none => .ok (policy.resolve p.quantifier p.quantifier.vacuous (ws.any (·.isNull)))
  | some w => (p.matchesRow left [w]).map fun matched =>
      policy.resolve p.quantifier matched w.isNull

theorem matchesRow_null (p : Predicate) (left : Value) :
    p.matchesRow left [.null] = .ok false :=
  rfl

theorem datum?_value {w : Value} (hw : w ≠ .null) : datum? [w] = some w := by
  rw [datum?, List.head?_cons, Option.filter_some, if_pos]
  rw [Value.isNull_eq_false_iff.mpr hw]
  rfl

theorem matchesRow_value (p : Predicate) (left : Value) {w : Value} (hw : w ≠ .null) :
    p.matchesRow left [w] = p.comparison.outcome left w := by
  rw [matchesRow, datum?_value hw]

theorem datum?_single (w : Value) : (datum? [w]).isNone = w.isNull := by
  cases w <;> rfl

section Row

variable (p : Predicate) {left w : Value} (s : Scan)

theorem stopsAt_eq_false_iff :
    p.stopsAt left w = false ↔ p.matchesRow left [w] = .ok p.quantifier.vacuous := by
  unfold stopsAt
  rcases p.matchesRow left [w] with e | matched
  · exact ⟨nofun, nofun⟩
  · simp

theorem scanRow_of_passed (h : p.stopsAt left w = false) :
    p.scanRow left s [w] = .ok (.yield { s with sawNull := s.sawNull || w.isNull }) := by
  rw [scanRow, (p.stopsAt_eq_false_iff).mp h, datum?_single]
  exact congrArg Except.ok (if_pos rfl)

theorem scanRow_of_stopped (h : p.stopsAt left w = true) :
    p.scanRow left s [w] = (p.matchesRow left [w]).map fun matched =>
      .done { result := matched, sawNull := s.sawNull || w.isNull } := by
  rw [scanRow, datum?_single]
  rcases hm : p.matchesRow left [w] with e | matched
  · rfl
  · refine congrArg Except.ok (if_neg ?_)
    rintro rfl
    rw [(p.stopsAt_eq_false_iff).mpr hm] at h
    cases h

/-- A NULL before the value that settles the predicate does not matter: an ALL would have stopped
there, and an ANY that stops at a value holds. -/
theorem resolve_of_stopped {saw matched : Bool} (hsaw : saw = true → p.quantifier = .any)
    (hmatched : matched ≠ p.quantifier.vacuous) (policy : NullRowPolicy) (null : Bool) :
    policy.resolve p.quantifier matched (saw || null)
      = policy.resolve p.quantifier matched null := by
  cases saw with
  | false => rfl
  | true =>
    rw [hsaw rfl] at hmatched ⊢
    obtain rfl : matched = true := by simpa [Quantifier.vacuous] using hmatched
    rfl

/-- A scan that passes a NULL is for ANY. -/
theorem any_of_passed_null (h : p.stopsAt left .null = false) : p.quantifier = .any := by
  rw [stopsAt_eq_false_iff, matchesRow_null, Except.ok.injEq] at h
  cases hq : p.quantifier with
  | any => rfl
  | all => rw [hq] at h; cases h

end Row

-- By induction on the values. `hsaw` is the invariant: only an ANY gets past a NULL.
theorem forIn_scanRow (p : Predicate) (policy : NullRowPolicy) (left : Value) (ws : List Value)
    {saw : Bool} (hsaw : saw = true → p.quantifier = .any) :
    (forIn (ws.map ([·])) ({ result := p.quantifier.vacuous, sawNull := saw } : Scan)
        fun row s => p.scanRow left s row).map
      (fun s => policy.resolve p.quantifier s.result s.sawNull)
    = match ws.find? (p.stopsAt left) with
      | none => .ok (policy.resolve p.quantifier p.quantifier.vacuous (saw || ws.any (·.isNull)))
      | some w => (p.matchesRow left [w]).map fun matched =>
          policy.resolve p.quantifier matched w.isNull := by
  induction ws generalizing saw with
  | nil =>
    rw [List.find?_nil, List.any_nil, Bool.or_false]
    rfl
  | cons w ws ih =>
    rw [List.map_cons, List.forIn_cons]
    cases hw : p.stopsAt left w with
    | true =>
      rw [p.scanRow_of_stopped _ hw, List.find?_cons_of_pos hw]
      dsimp only
      rcases hm : p.matchesRow left [w] with e | matched
      · rfl
      · refine congrArg Except.ok (p.resolve_of_stopped hsaw ?_ policy w.isNull)
        rintro rfl
        rw [(p.stopsAt_eq_false_iff).mpr hm] at hw
        cases hw
    | false =>
      have hsaw' : (saw || w.isNull) = true → p.quantifier = .any := by
        intro h
        rcases Bool.or_eq_true_iff.mp h with h | h
        · exact hsaw h
        · rw [Value.isNull_iff.mp h] at hw
          exact p.any_of_passed_null hw
      rw [p.scanRow_of_passed _ hw, List.find?_cons_of_neg (by simp [hw])]
      rw [List.any_cons, ← Bool.or_assoc]
      exact ih hsaw'

section NothingFails

variable {p : Predicate} {left : Value} {ws : List Value} {g : Value → Bool}

theorem stopsAt_of_ok {w : Value} {matched : Bool} (h : p.matchesRow left [w] = .ok matched) :
    p.stopsAt left w = (matched != p.quantifier.vacuous) := by
  rw [stopsAt, h]

theorem scanTruth_any (hq : p.quantifier = .any) (policy : NullRowPolicy)
    (h : ∀ w ∈ ws, p.matchesRow left [w] = .ok (g w)) :
    p.scanTruth policy left ws = .ok (.ofSearch (ws.any g) (ws.any (·.isNull))) := by
  have hstop : ∀ w ∈ ws, p.stopsAt left w = g w := by
    intro w hw
    rw [stopsAt_of_ok (h w hw), hq]
    exact Bool.bne_false _
  unfold scanTruth
  cases hfind : ws.find? (p.stopsAt left) with
  | none =>
    have hnone : ws.any g = false := by
      rw [List.any_eq_false]
      intro w hw
      rw [← hstop w hw]
      exact List.find?_eq_none.mp hfind w hw
    rw [hq, hnone, NullRowPolicy.resolve_any]
    rfl
  | some w =>
    have hmem := List.mem_of_find?_eq_some hfind
    have hgw : g w = true := by
      rw [← hstop w hmem]
      exact List.find?_some hfind
    have hsome : ws.any g = true := List.any_eq_true.mpr ⟨w, hmem, hgw⟩
    dsimp only
    rw [h w hmem, hgw, hsome, hq]
    rfl

theorem scanTruth_all (hq : p.quantifier = .all) (policy : NullRowPolicy)
    (h : ∀ w ∈ ws, p.matchesRow left [w] = .ok (g w)) :
    p.scanTruth policy left ws = .ok
      (match ws.find? (!g ·) with
      | none => .holds
      | some w => policy.resolve .all false w.isNull) := by
  have hfind : ws.find? (p.stopsAt left) = ws.find? (!g ·) := by
    refine find?_congr fun w hw => ?_
    rw [stopsAt_of_ok (h w hw), hq]
    exact Bool.bne_true (g w)
  rw [scanTruth, hfind]
  cases hsome : ws.find? (!g ·) with
  | none =>
    rw [hq]
    rfl
  | some w =>
    have hgw : g w = false := by simpa using List.find?_some hsome
    dsimp only
    rw [h w (List.mem_of_find?_eq_some hsome), hgw, hq]
    rfl

end NothingFails

theorem scan_start (p : Predicate) (policy : NullRowPolicy) (left : Value) {table : ResultTable}
    {t : ColumnType} (h : table.SingleColumn t) :
    (p.scan policy left (.start { table })).1
      = (operand left t).bind (p.scanTruth policy · table.firsts) := by
  have hconsume := fun v => Probe.consume_eq_forIn (p.scanRow v)
    { result := p.quantifier.vacuous } (Probe.readable_start table) h.rows
  have htype : (Probe.start { table }).columnType 0 = t := h.columnType
  unfold scan
  rw [htype]
  rcases operand left t with e | v
  · rfl
  · show (Probe.consume (p.scanRow v) _ _).1.map _ = _
    rw [hconsume v]
    exact p.forIn_scanRow policy v table.firsts (nofun : false = true → _)

end Predicate

end QuantifiedComparison
