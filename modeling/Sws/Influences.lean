import Mathlib.Data.Finset.Max
import Mathlib.Data.Set.List
import Sws.Database.Draining
import Sws.Database.Playlists
import Sws.Sql.Ordering
import Sws.Sql.Spanning

/-! Influences between artists: the writer puts both strings into its text as they are, and the reader
makes a pair of the first column twice. -/
namespace Sws.Influences

open Database Sql

/-- `db::insert_influence`: neither string is escaped. -/
def insertInfluence (artist influence : Text) : Text :=
  "REPLACE INTO _influences VALUES('" ++ artist ++ "', '" ++ influence ++ "');"

/-- The query of `db::influences`. -/
def influencesQuery : Text := "SELECT artist, influence from _influences ORDER BY artist;"

/-- The pair `db::influences` makes of a row: both components are the column `0`. -/
def pairOfRow (r : Row) : Option (Text × Text) := do
  return (← r[0]?.bind columnText, ← r[0]?.bind columnText)

def influences (scan : Scan) (db : Db) : Option (List (Text × Text)) :=
  match orderedQuery scan db influencesQuery with
  | .ok rows => rows.mapM pairOfRow
  | .error .rejected => some []
  | .error .unmodelled => none

/-- The texts that a sequence of calls pushes. -/
def texts (pairs : List (Text × Text)) : List Text := pairs.map fun p => insertInfluence p.1 p.2

/-- `influences` returns the pairs, each once, ordered by artist. -/
def Returns (scan : Scan) (db : Db) (pairs : List (Text × Text)) : Prop :=
  ∃ result, influences scan db = some result ∧ result.Nodup ∧ (∀ p, p ∈ result ↔ p ∈ pairs) ∧
    (result.map (·.1)).Pairwise fun s t => precedes s t = true

/-- The table of influences is there, and empty. -/
def Fresh (db : Db) : Prop :=
  ∃ t, db.lookup "_influences" = some t ∧ Declared .influences t ∧ t.rows = []

/-! ### The query -/

section Query

variable {scan : Scan} {db : Db} {t : Table}

theorem query_tokens : statements (lex (cStr influencesQuery)) =
    [[.keyword .select, .id "artist", .sym .comma, .id "influence", .keyword .from, .id "_influences",
      .reserved "ORDER", .id "BY", .id "artist"], []] :=
  text_eval (f := fun q => statements (lex (cStr q))) (by rfl)

theorem ordered_query_eq : orderedQuery scan db influencesQuery =
    selectOrdered scan db "artist" (.select false ["artist", "influence"] "_influences" []) := by
  unfold orderedQuery
  rw [query_tokens]
  rfl

theorem artist_cell (declared : Declared .influences t) (r : Row) : t.cell r "artist" = r[0]?.getD .null := by
  obtain ⟨name, columns, key, rows⟩ := t
  cases declared.columns
  rfl

theorem influence_cell (declared : Declared .influences t) (r : Row) :
    t.cell r "influence" = r[1]?.getD .null := by
  obtain ⟨name, columns, key, rows⟩ := t
  cases declared.columns
  rfl

/-- **What is read has twice the artist.** -/
theorem components_of_influences {result : List (Text × Text)} (read : influences scan db = some result) :
    ∀ p ∈ result, p.1 = p.2 := by
  unfold influences at read
  intro p member
  split at read
  · obtain ⟨r, -, pair⟩ := (mem_of_read read p).mp member
    obtain ⟨artist, first, pair⟩ := Option.bind_eq_some_iff.mp pair
    obtain ⟨influence, second, done⟩ := Option.bind_eq_some_iff.mp pair
    cases done
    exact Option.some.inj (first.symm.trans second)
  · cases read
    cases member
  · cases read

end Query

/-! ### Texts without quotes -/

/-- The rows of pairs. -/
def pairRows (pairs : List (Text × Text)) : List Row := pairs.map fun p => [.text p.1, .text p.2]

section Plain

variable {scan : Scan} {db : Db} {t : Table} {a i : Text} {held pairs : List (Text × Text)}

/-- Up to the first literal. -/
theorem scans_opening : Scans .start (text "REPLACE INTO _influences VALUES('")
    [.keyword .replace, .keyword .into, .id "_influences", .keyword .values, .sym .lparen]
    (.quoted quote []) := scans_text rfl

/-- From the end of the last literal on. -/
theorem scans_closing (s : Text) :
    Scans (.quoted quote s) (text "');") [.string s, .sym .rparen, .sym .semi] .start :=
  scans_close rfl rfl

theorem insert_influence_denotes (artist : quote ∉ a) (influence : quote ∉ i) :
    Denotes (insertInfluence a i) (.insert true "_influences" none [[.text a, .text i]]) := by
  have between : Scans (.quoted quote a) (text "', '") [.string a, .sym .comma] (.quoted quote []) :=
    scans_close rfl rfl
  have reads := Reads.literal scans_opening (clean_text rfl) (by simp)
    (Reads.literal between (clean_text rfl) (by simp) (Reads.close (scans_closing i) (clean_text rfl)))
  have shape : insertInfluence a i = text "REPLACE INTO _influences VALUES('" ++
      (doubled quote a ++ (text "', '" ++ (doubled quote i ++ text "');"))) := by
    simp [insertInfluence, doubled_of_not_mem artist, doubled_of_not_mem influence]
  rw [← shape] at reads
  exact .of_tokens reads rfl (by simp [finish]) rfl

theorem clean_insert_influence (artist : nul ∉ a) (influence : nul ∉ i) : nul ∉ insertInfluence a i := by
  have before : nul ∉ text "REPLACE INTO _influences VALUES('" := clean_text rfl
  have between : nul ∉ text "', '" := clean_text rfl
  have after : nul ∉ text "');" := clean_text rfl
  simp [insertInfluence, before, between, after, artist, influence]

theorem full_row_pair (declared : Declared .influences t) (v w : Text) :
    t.fullRow none [.text v, .text w] = .ok [.text v, .text w] := by
  obtain ⟨name, columns, key, rows⟩ := t
  cases declared.columns
  rfl

theorem missing_pair (declared : Declared .influences t) (v w : Text) :
    t.missing [.text v, .text w] = false := by
  obtain ⟨name, columns, key, rows⟩ := t
  cases declared.columns
  rfl

theorem pair_conflicts (declared : Declared .influences t) (p q : Text × Text) :
    t.Conflicts [.text p.1, .text p.2] [.text q.1, .text q.2] ↔ p = q := by
  have key : t.key ≠ [] ∧ ∀ v w : Text, t.keyOf [.text v, .text w] = [.text v, .text w] := by
    obtain ⟨name, columns, key, rows⟩ := t
    obtain ⟨⟨⟩, ⟨⟩⟩ := declared
    exact ⟨List.cons_ne_nil _ _, fun _ _ => rfl⟩
  simp [Table.Conflicts, key.1, key.2, Prod.ext_iff]

/-- One pair in. -/
theorem exec_insert_influence (artist : quote ∉ a) (influence : quote ∉ i)
    (clean : nul ∉ insertInfluence a i) (found : db.lookup "_influences" = some t)
    (declared : Declared .influences t) (rows : t.rows = pairRows held) :
    ∃ after u, exec db (insertInfluence a i) = some (after, true) ∧
      after.lookup "_influences" = some u ∧ Declared .influences u ∧ u.rows = pairRows (moved held (a, i)) := by
  have inserted : t.insertRow true [.text a, .text i] = .ok (t.replace [.text a, .text i]) := by
    rw [Table.insertRow, missing_pair declared]
    rfl
  have ran : execute db (.insert true "_influences" none [[.text a, .text i]]) =
      .ok (db.put (t.replace [.text a, .text i])) := by
    rw [insert_eq [[.text a, .text i]] found (by rw [List.mapM_cons, full_row_pair declared]; rfl),
      List.foldlM_cons, inserted]
    rfl
  have name : fold t.name = fold (text "_influences") := Db.fold_name_of_lookup found
  have there := Db.lookup_put_self (u := t.replace [.text a, .text i]) found name
  refine ⟨_, _, ?_, there, ⟨declared.columns, declared.key⟩, ?_⟩
  · rw [(insert_influence_denotes artist influence).exec_eq, if_neg clean, ran]
    rfl
  · have kept : t.rows.filter (fun s => ¬ t.Conflicts [.text a, .text i] s) =
        pairRows (held.filter (· ≠ (a, i))) := by
      rw [rows, pairRows, pairRows, List.filter_map]
      refine congrArg (List.map _) (List.filter_congr fun p _ => ?_)
      simp [pair_conflicts declared (a, i) p, eq_comm]
    rw [Table.replace, kept]
    simp [pairRows, moved]

theorem exec_influences (plain : ∀ p ∈ pairs, quote ∉ p.1 ∧ quote ∉ p.2)
    (clean : ∀ p ∈ pairs, nul ∉ p.1 ∧ nul ∉ p.2) (found : db.lookup "_influences" = some t)
    (declared : Declared .influences t) (rows : t.rows = pairRows held) :
    ∃ after u, execAll db (texts pairs) = some after ∧ after.lookup "_influences" = some u ∧
      Declared .influences u ∧ u.rows = pairRows (pairs.foldl moved held) := by
  induction pairs generalizing db t held with
  | nil => exact ⟨db, t, rfl, found, declared, rows⟩
  | cons p pairs ih =>
    obtain ⟨⟨artist, influence⟩, plain⟩ := List.forall_mem_cons.mp plain
    obtain ⟨⟨first, second⟩, clean⟩ := List.forall_mem_cons.mp clean
    obtain ⟨middle, u, ran, found', declared', rows'⟩ := exec_insert_influence artist influence
      (clean_insert_influence first second) found declared rows
    obtain ⟨after, w, onwards, last⟩ := ih plain clean found' declared' rows'
    exact ⟨after, w, exec_all_cons ran onwards, last⟩

/-- Rows of pairs in another order are the rows of these pairs in another order. -/
theorem pairs_of_perm {sorted : List Row} (perm : sorted.Perm (pairRows held)) :
    ∃ order, sorted = pairRows order ∧ order.Perm held := by
  obtain ⟨order, rfl⟩ : ∃ order, pairRows order = sorted := by
    have among : sorted ∈ Set.range (List.map fun p : Text × Text => ([.text p.1, .text p.2] : Row)) := by
      rw [Set.range_list_map]
      intro r member
      obtain ⟨p, -, same⟩ := List.mem_map.mp (perm.mem_iff.mp member)
      exact ⟨p, same⟩
    exact among
  refine ⟨order, rfl, (List.map_perm_map_iff fun p q same => ?_).mp perm⟩
  simpa [Prod.ext_iff] using same

/-- The table is read in the order of the artists. -/
theorem influences_eq (scan : Scan) (found : db.lookup "_influences" = some t)
    (declared : Declared .influences t) (rows : t.rows = pairRows held) :
    ∃ order : List (Text × Text), influences scan db = some (order.map fun p => (p.1, p.1)) ∧
      order.Perm held ∧ (order.map (·.1)).Pairwise fun s t => precedes s t = true := by
  have known : ((["artist", "artist", "influence"] : List Text).any fun c => (t.index? c).isNone) = false := by
    obtain ⟨name, columns, key, rows⟩ := t
    cases declared.columns
    rfl
  obtain ⟨sorted, answer, perm, ascends⟩ := select_ordered_eq scan
    ((source_eq (by decide)).trans found) known (show ([] : List Condition).forM t.admits = .ok () from rfl)
  have all : t.rows.filter (t.selects []) = t.rows := List.filter_eq_self.mpr fun _ _ => rfl
  rw [all, rows] at perm
  obtain ⟨order, rfl, pairs⟩ := pairs_of_perm perm
  refine ⟨order, ?_, pairs, ?_⟩
  · have columns : (pairRows order).map (fun r => (["artist", "influence"] : List Text).map (t.cell r)) =
        pairRows order := by
      rw [pairRows, List.map_map]
      refine List.map_congr_left fun p _ => ?_
      simp [artist_cell declared, influence_cell declared]
    have each : (fun p : Text × Text => pairOfRow [.text p.1, .text p.2]) = fun p => pure (p.1, p.1) := rfl
    unfold influences
    rw [ordered_query_eq, answer, columns]
    dsimp only
    rw [pairRows, List.mapM_map]
    exact (congrArg (List.mapM · order) each).trans List.mapM_pure
  · rw [pairRows, List.pairwise_map] at ascends
    rw [List.pairwise_map]
    refine ascends.imp fun {p q} before => ?_
    simp only [artist_cell declared] at before
    exact before

/-- **Equal components without quotes.** -/
theorem returns_of_plain (scan : Scan) (clean : ∀ p ∈ pairs, nul ∉ p.1 ∧ nul ∉ p.2) (fresh : Fresh db)
    (plain : ∀ p ∈ pairs, p.1 = p.2 ∧ quote ∉ p.1) :
    ∃ after, execAll db (texts pairs) = some after ∧ Returns scan after pairs := by
  obtain ⟨t, found, declared, rows⟩ := fresh
  have quotes : ∀ p ∈ pairs, quote ∉ p.1 ∧ quote ∉ p.2 := by
    intro p member
    obtain ⟨same, free⟩ := plain p member
    exact ⟨free, same ▸ free⟩
  obtain ⟨after, u, ran, found', declared', rows'⟩ := exec_influences quotes clean found declared
    (show t.rows = pairRows [] from rows)
  obtain ⟨order, read, perm, ascends⟩ := influences_eq scan found' declared' rows'
  have members (p : Text × Text) : p ∈ order ↔ p ∈ pairs := by
    rw [perm.mem_iff, mem_moved]
    simp
  have whole : (order.map fun p => (p.1, p.1)) = order := by
    refine (List.map_congr_left fun p member => ?_).trans (List.map_id order)
    exact Prod.ext rfl (plain p ((members p).mp member)).1
  rw [whole] at read
  exact ⟨after, ran, order, read, perm.nodup_iff.mpr (nodup_moved List.nodup_nil), members, ascends⟩

end Plain

/-! ### Texts with quotes -/

section Quotes

variable {scan : Scan} {db after : Db} {t : Table} {a m : Text} {pairs : List (Text × Text)}

/-- What stands before the first quote of a text, and after the last. -/
def head : Text := "REPLACE INTO _influences VALUES("

def tail : Text := ");"

theorem opening_eq : text "REPLACE INTO _influences VALUES('" = head ++ [quote] := by decide

theorem closing_eq : text "');" = quote :: tail := by decide

theorem insert_influence_twice (a : Text) : insertInfluence a a = twice head a tail := by
  have between : text "', '" = [quote, ',', ' ', quote] := by decide
  simp [insertInfluence, opening_eq, between, closing_eq, twice]

/-- A text that is one literal between parentheses: its only row has one cell. -/
theorem single_literal_denotes (m : Text) :
    Denotes (head ++ quote :: (doubled quote m ++ quote :: tail))
      (.insert true "_influences" none [[.text m]]) := by
  have reads := Reads.literal scans_opening (clean_text rfl) (by simp) (Reads.close (scans_closing m) (clean_text rfl))
  rw [opening_eq, closing_eq, List.append_assoc] at reads
  exact .of_tokens reads rfl (by simp [finish]) rfl

/-- A row of one value is one of a table of one column. -/
theorem not_wide_of_single {v : Value} {r : Row} (built : t.fullRow none [v] = .ok r) :
    ¬ 1 < t.columns.length := by
  unfold Table.fullRow at built
  dsimp only at built
  split at built
  next fits =>
    have length := fits.2
    simp only [Option.getD_none, List.length_map, List.length_singleton] at length
    omega
  · cases built

/-- Such a row stands in no table of two columns. -/
theorem lacks_single {n : Text} {ok : Bool} (lacks : db.Lacks n m)
    (ran : exec db (head ++ quote :: (doubled quote m ++ quote :: tail)) = some (after, ok)) :
    after.Lacks n m := by
  rw [(single_literal_denotes m).exec_eq] at ran
  split at ran
  · cases ran
    exact lacks
  · rcases outcome_eq_some_iff.mp ran with ⟨-, done⟩ | ⟨-, -, rfl⟩
    · obtain ⟨t, u, full, found, built, inserted, same, rfl⟩ := insert_ok done
      by_cases own : fold (text "_influences") = fold n
      · refine lacks_put lacks own found same.name same.columns fun wide _ r held text => ?_
        rcases row_of_insert_all inserted held with kept | new
        · exact ⟨r, kept, text⟩
        · obtain ⟨values, member, one⟩ := mem_of_map_m built new
          cases List.mem_singleton.mp member
          exact absurd wide (not_wide_of_single one)
      · intro v found'
        rw [execute_frame done own] at found'
        exact lacks v found'
    · exact lacks

/-- **One call.** No text with at least as many quotes as the artist comes in, unless the artist is shorter. -/
theorem lacks_insert {n : Text} {ok : Bool} (clean : nul ∉ a) (some_ : quote ∈ m)
    (most : a.count quote ≤ m.count quote) (least : a.count quote = m.count quote → m.length ≤ a.length)
    (lacks : db.Lacks n m) (ran : exec db (insertInfluence a a) = some (after, ok)) : after.Lacks n m := by
  have whole : cStr (insertInfluence a a) = insertInfluence a a :=
    c_str_of_no_nul (clean_insert_influence clean clean)
  by_cases literal : .string m ∈ lex (cStr (insertInfluence a a))
  · rw [whole] at literal
    obtain ⟨before, rest, spans⟩ := quotes_of_lex literal
    rw [insert_influence_twice] at spans
    have first : quote ∉ head := by decide
    have last : quote ∉ tail := by decide
    have fewer : a.count quote < m.count quote := by
      by_contra many
      have same : a.count quote = m.count quote := by omega
      have longer := length_lt_of_spans first last spans same some_
      have short := least same
      omega
    obtain ⟨rfl, rfl⟩ := bounds_of_spans first last spans fewer
    rw [insert_influence_twice, spans] at ran
    exact lacks_single lacks ran
  · exact lacks_exec lacks literal ran

theorem lacks_all {n : Text} (clean : ∀ p ∈ pairs, nul ∉ p.1) (same : ∀ p ∈ pairs, p.1 = p.2)
    (some_ : quote ∈ m) (most : ∀ p ∈ pairs, p.1.count quote ≤ m.count quote)
    (least : ∀ p ∈ pairs, p.1.count quote = m.count quote → m.length ≤ p.1.length)
    (lacks : db.Lacks n m) (ran : execAll db (texts pairs) = some after) : after.Lacks n m := by
  induction pairs generalizing db with
  | nil =>
    cases ran
    exact lacks
  | cons p pairs ih =>
    simp only [List.forall_mem_cons] at clean same most least
    obtain ⟨⟨middle, ok⟩, first, onwards⟩ := Option.bind_eq_some_iff.mp ran
    have one : exec db (insertInfluence p.1 p.2) = some (middle, ok) := first
    rw [← same.1] at one
    exact ih clean.2 same.2 most.2 least.2 (lacks_insert clean.1 some_ most.1 least.1 lacks one) onwards

/-- A cell that is read with a quote is a text: numbers have none. -/
theorem text_of_quoted {v : Value} {s : Text} (read : columnText v = some s) (quoted : quote ∈ s) :
    v = .text s := by
  cases v with
  | text x =>
    cases read
    rfl
  | int n =>
    cases read
    exact absurd quoted (not_mem_decimal (by decide) (by decide) n)
  | null | real => cases read

theorem mem_of_cell {r : Row} {c s : Text} (cell : t.cell r c = .text s) : .text s ∈ r := by
  unfold Table.cell at cell
  cases index : t.index? c with
  | none =>
    rw [index] at cell
    cases cell
  | some i =>
    cases at_ : r[i]? with
    | none => simp [index, at_] at cell
    | some v =>
      simp only [index, Option.bind_some, at_, Option.getD_some] at cell
      exact cell ▸ List.mem_of_getElem? at_

/-- An artist with a quote that is read stands in the table. -/
theorem carries_of_read {result : List (Text × Text)} {p : Text × Text} (read : influences scan db = some result)
    (member : p ∈ result) (quoted : quote ∈ p.1) : ¬ db.Lacks "_influences" p.1 := by
  unfold influences at read
  rw [ordered_query_eq] at read
  split at read
  next rows answer =>
    obtain ⟨t, source, known, each⟩ := select_ordered_ok answer
    obtain ⟨r, held, pair⟩ := (mem_of_read read p).mp member
    obtain ⟨s, row, rfl⟩ := each r held
    obtain ⟨artist, first, pair⟩ := Option.bind_eq_some_iff.mp pair
    obtain ⟨influence, second, done⟩ := Option.bind_eq_some_iff.mp pair
    cases done
    have inside : .text artist ∈ s := mem_of_cell (text_of_quoted first quoted)
    have wide := two_columns (by decide) (known "artist" (by simp)) (known "influence" (by simp))
    rw [source_eq (by decide)] at source
    exact fun lacks => lacks t source (.inl ⟨wide, s, row, inside⟩)
  · cases read
    cases member
  · cases read

/-- Of the artists with a quote, one with most quotes, and of these a shortest. -/
theorem exists_extreme (some_ : ∃ p ∈ pairs, quote ∈ p.1) :
    ∃ p ∈ pairs, quote ∈ p.1 ∧ (∀ q ∈ pairs, q.1.count quote ≤ p.1.count quote) ∧
      ∀ q ∈ pairs, q.1.count quote = p.1.count quote → p.1.length ≤ q.1.length := by
  obtain ⟨p, member, quoted⟩ := some_
  obtain ⟨most, among, highest⟩ := Finset.exists_max_image pairs.toFinset (fun q => q.1.count quote)
    ⟨p, List.mem_toFinset.mpr member⟩
  have alike : (pairs.toFinset.filter fun q => q.1.count quote = most.1.count quote).Nonempty :=
    ⟨most, Finset.mem_filter.mpr ⟨among, rfl⟩⟩
  obtain ⟨least, chosen, shortest⟩ := Finset.exists_min_image _ (fun q => q.1.length) alike
  obtain ⟨held, same⟩ := Finset.mem_filter.mp chosen
  have bound (q : Text × Text) (inside : q ∈ pairs) : q.1.count quote ≤ least.1.count quote := by
    rw [same]
    exact highest q (List.mem_toFinset.mpr inside)
  have positive : 0 < p.1.count quote := List.count_pos_iff.mpr quoted
  refine ⟨least, List.mem_toFinset.mp held, ?_, bound, fun q inside equal => ?_⟩
  · apply List.count_pos_iff.mp
    have above := bound p member
    omega
  · apply shortest
    exact Finset.mem_filter.mpr ⟨List.mem_toFinset.mpr inside, equal.trans same⟩

end Quotes

/-! ### What is returned -/

section Returned

variable {scan : Scan} {db after : Db} {pairs : List (Text × Text)}

/-- No artist with a quote is returned. -/
theorem plain_of_returns (clean : ∀ p ∈ pairs, nul ∉ p.1 ∧ nul ∉ p.2) (fresh : Fresh db)
    (ran : execAll db (texts pairs) = some after) (returns : Returns scan after pairs) :
    ∀ p ∈ pairs, p.1 = p.2 ∧ quote ∉ p.1 := by
  obtain ⟨result, read, -, members, -⟩ := returns
  have same : ∀ p ∈ pairs, p.1 = p.2 := fun p member =>
    components_of_influences read p ((members p).mpr member)
  intro p member
  refine ⟨same p member, fun quoted => ?_⟩
  obtain ⟨m, held, some_, most, least⟩ := exists_extreme ⟨p, member, quoted⟩
  have lacks : db.Lacks "_influences" m.1 := by
    obtain ⟨t, found, declared, rows⟩ := fresh
    intro u found'
    cases found.symm.trans found'
    rintro (⟨-, r, inside, -⟩ | ⟨d, column, default⟩)
    · rw [rows] at inside
      cases inside
    · rw [declared.columns] at column
      rcases List.mem_pair.mp column with rfl | rfl <;> cases default
  exact carries_of_read read ((members m).mpr held) some_
    (lacks_all (fun q inside => (clean q inside).1) same some_ most least lacks ran)

/-- **What `influences` returns.** Pairs of equal components without quotes are executed and returned, each
once and in order; and of all the sequences whose texts are executed, these are the only ones that are. -/
theorem influences_returned_iff (scan : Scan) (clean : ∀ p ∈ pairs, nul ∉ p.1 ∧ nul ∉ p.2) (fresh : Fresh db) :
    ((∀ p ∈ pairs, p.1 = p.2 ∧ quote ∉ p.1) → ∃ after, execAll db (texts pairs) = some after) ∧
      ∀ after, execAll db (texts pairs) = some after →
        (Returns scan after pairs ↔ ∀ p ∈ pairs, p.1 = p.2 ∧ quote ∉ p.1) := by
  constructor
  · intro plain
    obtain ⟨after, ran, -⟩ := returns_of_plain scan clean fresh plain
    exact ⟨after, ran⟩
  · intro after ran
    constructor
    · exact plain_of_returns clean fresh ran
    · intro plain
      obtain ⟨after', ran', returns⟩ := returns_of_plain scan clean fresh plain
      cases ran.symm.trans ran'
      exact returns

/-- A database with an empty table of influences. -/
def fresh : Db :=
  Db.empty.create
    { name := "_influences", columns := Shape.influences.columns, key := Shape.influences.key }

theorem fresh_fresh : Fresh fresh := ⟨_, rfl, ⟨rfl, rfl⟩, rfl⟩

theorem own_influence_returned :
    ∃ after, execAll fresh (texts [("Queen", "Queen"), ("Bach", "Bach"), ("Queen", "Queen")]) = some after ∧
      Returns .stored after [("Queen", "Queen"), ("Bach", "Bach"), ("Queen", "Queen")] := by
  have clean : ∀ p ∈ ([("Queen", "Queen"), ("Bach", "Bach"), ("Queen", "Queen")] : List (Text × Text)),
      nul ∉ p.1 ∧ nul ∉ p.2 := by decide
  have plain : ∀ p ∈ ([("Queen", "Queen"), ("Bach", "Bach"), ("Queen", "Queen")] : List (Text × Text)),
      p.1 = p.2 ∧ quote ∉ p.1 := by decide
  obtain ⟨runs, only⟩ := influences_returned_iff .stored clean fresh_fresh
  obtain ⟨after, ran⟩ := runs plain
  exact ⟨after, ran, (only after ran).mpr plain⟩

/-- One artist influenced by another. -/
theorem other_influence_not_returned : ¬ ∀ (scan : Scan) (db after : Db) (pairs : List (Text × Text)),
    (∀ p ∈ pairs, nul ∉ p.1 ∧ nul ∉ p.2) → Fresh db → execAll db (texts pairs) = some after →
      Returns scan after pairs := by
  intro all
  have clean : ∀ p ∈ ([("Queen", "Bach")] : List (Text × Text)), nul ∉ p.1 ∧ nul ∉ p.2 := by decide
  have plain : ∀ p ∈ ([("Queen", "Bach")] : List (Text × Text)), quote ∉ p.1 ∧ quote ∉ p.2 := by decide
  obtain ⟨t, found, declared, rows⟩ := fresh_fresh
  obtain ⟨after, -, ran, -⟩ := exec_influences plain clean found declared (show t.rows = pairRows [] from rows)
  obtain ⟨result, read, -, members, -⟩ := all .stored fresh after _ clean fresh_fresh ran
  have same := components_of_influences read _ ((members _).mpr List.mem_cons_self)
  exact absurd same (by decide)

end Returned

end Sws.Influences
