import Sws.Database.Playlists
import Sws.Database.Stock
import Sws.Sql.Like

/-! `select_where` and `select_like`: the clause that the active criteria of a filter are put into, and the
rows it selects. -/
namespace Sws.Searching

open Database Sql

/-- `db::more`. -/
def more (b : Bool) : Text := if b then " AND" else ""

/-- One of the conditional additions to the clause, with the flag for whether it has begun. -/
def criterion (active : Bool) (piece : Text) (clause : Text × Bool) : Text × Bool :=
  if active then (clause.1 ++ more clause.2 ++ piece, true) else clause

/-- The comparison of `select_where` for a column of texts. -/
def equality (column value : Text) : Text := " " ++ column ++ "='" ++ escape value ++ "'"

/-- The comparison of `select_like`. -/
def likeness (column value : Text) : Text := " " ++ column ++ " LIKE '%" ++ escape value ++ "%'"

/-- `where_clause` and `where` after the five criteria. -/
def whereClause (compare : Text → Text → Text) (s : Song) : Text × Bool :=
  let clause : Text × Bool := ("", false)
  let clause := criterion (s.album ≠ "") (compare "album" s.album) clause
  let clause := criterion (s.artist ≠ "") (compare "artist" s.artist) clause
  let clause := criterion s.favorite (" favorite=" ++ ofBool s.favorite) clause
  let clause := criterion (s.title ≠ "") (compare "title" s.title) clause
  criterion (0 < s.year) (" year=" ++ decimal s.year.toNat) clause

/-- The text that is compiled, where there is one. -/
def searchText (compare : Text → Text → Text) (s : Song) : Option Text :=
  let (clause, begun) := whereClause compare s
  if begun then some ("SELECT path from db_catalog WHERE" ++ clause ++ ";") else none

/-- `db::select_where`. -/
def selectWhere (scan : Scan) (db : Db) (s : Song) : Option (List Text) :=
  match searchText equality s with
  | some q => firstColumn (query scan db q)
  | none => some []

/-- `db::select_like`. -/
def selectLike (scan : Scan) (db : Db) (s : Song) : Option (List Text) :=
  match searchText likeness s with
  | some q => firstColumn (searchQuery scan db q)
  | none => some []

/-! ### The clause -/

/-- A piece of the clause. -/
inductive Clause
  | equality (column value : Text)
  | likeness (column value : Text)
  | number (column : Text) (n : Nat)

namespace Clause

def column : Clause → Text
  | equality c _ | likeness c _ | number c _ => c

def sql : Clause → Text
  | equality c v => Searching.equality c v
  | likeness c v => Searching.likeness c v
  | number c n => " " ++ c ++ "=" ++ decimal n

/-- Where the scanner is after the piece, with its last token open. -/
def mode : Clause → Mode
  | equality _ v => .quotedEnd quote v
  | likeness _ v => .quotedEnd quote ('%' :: (v ++ ['%']))
  | number _ n => .digits (digits n)

/-- The tokens before the last one. -/
def opening : Clause → List Token
  | equality c _ | number c _ => [.id c, .sym .eq]
  | likeness c _ => [.id c, .id "LIKE"]

def tokens (c : Clause) : List Token := c.opening ++ finish c.mode

def condition : Clause → Condition
  | equality c v | likeness c v => { operand := .column c, value := .text v }
  | number c n => { operand := .column c, value := .int n }

def criterion : Clause → Criterion
  | equality c v => .equals c (.text v)
  | likeness c v => .like c ('%' :: (v ++ ['%']))
  | number c n => .equals c (.int n)

end Clause

/-- The clauses of a filter, the inactive ones left out. -/
def clauses (compare : Text → Text → Clause) (s : Song) : List Clause :=
  (if s.album ≠ "" then [compare "album" s.album] else []) ++
    (if s.artist ≠ "" then [compare "artist" s.artist] else []) ++
    (if s.favorite then [.number "favorite" 1] else []) ++
    (if s.title ≠ "" then [compare "title" s.title] else []) ++
    (if 0 < s.year then [.number "year" s.year.toNat] else [])

/-- Pieces with `AND` between them. -/
def conjoined : List Text → Text
  | [] => ""
  | p :: ps => p ++ ps.flatMap fun p => text " AND" ++ p

section Texts

theorem conjoined_concat (ps : List Text) (p : Text) :
    conjoined (ps ++ [p]) = conjoined ps ++ more (!ps.isEmpty) ++ p := by
  cases ps with
  | nil => simp [conjoined, more, text]
  | cons first ps => simp [conjoined, more]

/-- An addition to pieces that are there. -/
theorem criterion_eq (active : Bool) (p : Text) (ps : List Text) :
    criterion active p (conjoined ps, !ps.isEmpty) =
      (conjoined (ps ++ if active then [p] else []), !(ps ++ if active then [p] else []).isEmpty) := by
  cases active with
  | false => simp [criterion]
  | true => simp [criterion, conjoined_concat]

/-- The clause of a filter is what its active criteria are, with `AND` between them. -/
theorem where_clause_eq {compare : Text → Text → Clause} (s : Song) :
    whereClause (fun c v => (compare c v).sql) s =
      (conjoined ((clauses compare s).map Clause.sql), !(clauses compare s).isEmpty) := by
  have start : ((text "", false) : Text × Bool) = (conjoined [], !([] : List Text).isEmpty) := rfl
  have favorite : (if s.favorite then [text " favorite=" ++ ofBool s.favorite] else []) =
      (if s.favorite then [Clause.number "favorite" 1] else []).map Clause.sql := by
    cases s.favorite with
    | false => rfl
    | true => decide
  have year : text " year=" ++ decimal s.year.toNat = (Clause.number "year" s.year.toNat).sql := by
    have head : text " year=" = text " " ++ text "year" ++ text "=" := by decide
    rw [head]
    rfl
  have shape (active : Prop) [Decidable active] (c : Clause) :
      (if decide active = true then [c.sql] else []) = (if active then [c] else []).map Clause.sql := by
    by_cases yes : active <;> simp [yes]
  rw [whereClause, ← List.isEmpty_map (f := Clause.sql)]
  simp only [start, criterion_eq, favorite, year, shape, clauses, List.nil_append, List.map_append]

end Texts

/-! ### Its tokens -/

/-- The columns the criteria are about. -/
def columns : List Text := ["album", "artist", "favorite", "title", "year"]

/-- A mode that a space or a semicolon ends. -/
structure Spaced (m : Mode) : Prop where
  space : step m ' ' = (finish m, .start)
  semi : step m ';' = (finish m ++ [.sym .semi], .start)

section Scanning

variable {m : Mode} {c : Text} {q : Text} {tokens : List Token}

theorem scans_column (known : c ∈ columns) : Scans .start c [] (.word c) ∧ wordToken c = .id c := by
  have all : ∀ c ∈ columns, scanner.run .start c = ([], .word c) ∧ wordToken c = .id c := by decide +kernel
  exact all c known

theorem clean_column (known : c ∈ columns) : nul ∉ c := by
  have all : ∀ c ∈ columns, nul ∉ c := by decide
  exact all c known

theorem clean_number (known : c ∈ columns) (n : Nat) : nul ∉ (Clause.number c n).sql :=
  clean_append (clean_append (clean_append (clean_text rfl) (clean_column known)) (clean_text rfl))
    (nul_not_mem_decimal n)

theorem Spaced.scans (spaced : Spaced m) {s : Text} {next : Mode} (read : Scans .start s tokens next) :
    Scans m (text " " ++ s) (finish m ++ tokens) next := by
  have space : Scans m (text " ") (finish m) .start := by
    simp [Scans, text, Transducer.run, scanner, spaced.space]
  exact space.append read

/-- The end of a column's name, at the beginning of a fixed piece. -/
theorem scans_column_end (known : c ∈ columns) {x : Char} {cs : Text} {next : Mode}
    (read : scanner.run .start (x :: cs) = (tokens, next)) (plain : isIdChar x = false)
    (apart : (x == quote) = false) :
    Scans (.word c) (text (String.ofList (x :: cs))) (.id c :: tokens) next := by
  obtain ⟨-, own⟩ := scans_column known
  have other : x ≠ quote := beq_eq_false_iff_ne.mp apart
  apply scans_text
  simp only [Transducer.run, scanner, step, Prod.mk.injEq] at read ⊢
  simp [plain, other, emit, own, read]

theorem spaced_where : Spaced (.word "WHERE") := ⟨by decide, by decide⟩

theorem spaced_and : Spaced (.word "AND") := ⟨by decide, by decide⟩

theorem spaced_quoted_end (s : Text) : Spaced (.quotedEnd quote s) := by
  constructor
  · simp [step, finish, emit, enter, Sql.isSpace, show ' ' ≠ quote by decide]
  · simp [step, finish, emit, show ';' ≠ quote by decide, show enter ';' = ([.sym .semi], .start) by decide]

theorem spaced_digits (n : Text) : Spaced (.digits n) := by
  constructor
  · simp [step, finish, endNumber, emit, enter, Sql.isSpace, show isIdChar ' ' = false by decide]
  · simp [step, finish, endNumber, emit, show isIdChar ';' = false by decide,
      show Char.isDigit ';' = false by decide, show enter ';' = ([.sym .semi], .start) by decide]

theorem spaced_clause (c : Clause) : Spaced c.mode := by
  cases c with
  | equality c v | likeness c v => exact spaced_quoted_end _
  | number c n => exact spaced_digits _

/-- A column, what opens a literal after it, and the literal. -/
theorem reads_compared (spaced : Spaced m) (quiet : .sym .semi ∉ finish m) (known : c ∈ columns)
    {start value : Text} {opening : List Token} (clean : nul ∉ start) (silent : .sym .semi ∉ opening)
    (opens : Scans (.word c) start opening (.quoted quote [])) (rest : Reads (.quotedEnd quote value) q tokens) :
    Reads m (text " " ++ c ++ start ++ (doubled quote value ++ (text "'" ++ q)))
      (finish m ++ (opening ++ tokens)) := by
  obtain ⟨word, -⟩ := scans_column known
  have head := spaced.scans word
  rw [List.append_nil] at head
  have close : Scans (.quoted quote value) (text "'") [] (.quotedEnd quote value) := by
    simp [Scans, text, Transducer.run, scanner, step, quote]
  have before : nul ∉ text " " ++ c ++ start :=
    clean_append (clean_append (clean_text rfl) (clean_column known)) clean
  have reads := Reads.literal (head.append opens) before (by simpa [silent] using quiet)
    (Reads.fixed close (clean_text rfl) (by simp) rest)
  simpa using reads

/-- A piece of the clause, and what follows it. -/
theorem reads_clause (spaced : Spaced m) (quiet : .sym .semi ∉ finish m) (c : Clause)
    (known : c.column ∈ columns) (rest : Reads c.mode q (finish c.mode ++ tokens)) :
    Reads m (c.sql ++ q) (finish m ++ (c.tokens ++ tokens)) := by
  cases c with
  | equality column value =>
    have opens : Scans (.word column) (text "='") [.id column, .sym .eq] (.quoted quote []) :=
      scans_column_end known rfl rfl rfl
    have reads := reads_compared spaced quiet known (clean_text rfl) (by simp) opens rest
    simpa [Clause.sql, equality, escape_eq_doubled, Clause.tokens, Clause.opening, Clause.column] using reads
  | likeness column value =>
    have opens : Scans (.word column) (text " LIKE '") [.id column, .id "LIKE"] (.quoted quote []) :=
      scans_column_end known rfl rfl rfl
    have reads := reads_compared spaced quiet known (clean_text rfl) (by simp) opens rest
    -- The percent signs are inside the literal.
    have shape : (Clause.likeness column value).sql ++ q = text " " ++ column ++ text " LIKE '" ++
        (doubled quote ('%' :: (value ++ ['%'])) ++ (text "'" ++ q)) := by
      have first : text " LIKE '%" = text " LIKE '" ++ ['%'] := by decide
      have last : text "%'" = '%' :: text "'" := by decide
      have inside : doubled quote ('%' :: (value ++ ['%'])) = '%' :: (doubled quote value ++ ['%']) := by
        simp [doubled, quote]
      rw [inside]
      simp [Clause.sql, likeness, escape_eq_doubled, first, last]
    rw [shape]
    simpa [Clause.tokens, Clause.opening, Clause.column] using reads
  | number column n =>
    obtain ⟨word, -⟩ := scans_column known
    have head := spaced.scans word
    rw [List.append_nil] at head
    have opens : Scans (.word column) (text "=") [.id column] .equals := scans_column_end known rfl rfl rfl
    have number := (head.append opens).append (scans_decimal equals_opens_number n)
    have sign : signTokens n = [] := rfl
    have equals : finish .equals = [.sym .eq] := rfl
    have reads := Reads.fixed number (clean_number known n) (by simpa [sign, equals] using quiet) rest
    simpa [Clause.sql, Clause.tokens, Clause.opening, Clause.column, sign, equals] using reads

/-- No piece of the clause ends the statement, or is illegal. -/
theorem quiet_clause (c : Clause) : .sym .semi ∉ c.tokens ∧ .illegal ∉ c.tokens := by
  cases c with
  | equality c v | likeness c v | number c v =>
    simp [Clause.tokens, Clause.opening, Clause.mode, finish, quotedToken]

/-- The pieces after the first one. -/
def later (cs : List Clause) : List Token := cs.flatMap fun c => .keyword .and :: c.tokens

theorem reads_later (spaced : Spaced m) (quiet : .sym .semi ∉ finish m) {cs : List Clause}
    (known : ∀ c ∈ cs, c.column ∈ columns) :
    Reads m ((cs.map Clause.sql).flatMap (fun p => text " AND" ++ p) ++ text ";")
      (finish m ++ (later cs ++ [.sym .semi])) := by
  induction cs generalizing m with
  | nil =>
    have close : Scans m (text ";") (finish m ++ [.sym .semi]) .start := by
      simp [Scans, text, Transducer.run, scanner, spaced.semi]
    have reads := Reads.close close (clean_text rfl)
    have none : finish .start = [] := rfl
    rw [none, List.append_nil] at reads
    exact reads
  | cons c cs ih =>
    obtain ⟨first, others⟩ := List.forall_mem_cons.mp known
    have word : Scans .start (text "AND") [] (.word "AND") := scans_text rfl
    have both : Scans m (text " " ++ text "AND") (finish m ++ []) (.word "AND") := spaced.scans word
    have ended : finish (.word "AND") = [.keyword .and] := by decide
    have silent : .sym .semi ∉ finish c.mode := fun member =>
      (quiet_clause c).1 (List.mem_append_right _ member)
    have rest := reads_clause spaced_and (by decide) c first (ih (spaced_clause c) silent others)
    have reads := Reads.fixed both (clean_append (clean_text rfl) (clean_text rfl)) (by simpa using quiet) rest
    have head : text " " ++ text "AND" = text " AND" := by decide
    rw [head, ended] at reads
    simpa [later] using reads

/-- The tokens of a query, without the semicolon. -/
def queryTokens (c : Clause) (cs : List Clause) : List Token :=
  [.keyword .select, .id "path", .keyword .from, .id "db_catalog", .keyword .where] ++ (c.tokens ++ later cs)

/-- The text of a query for some clauses. -/
def queryText (cs : List Clause) : Text :=
  "SELECT path from db_catalog WHERE" ++ conjoined (cs.map Clause.sql) ++ ";"

theorem reads_query {c : Clause} {cs : List Clause} (known : ∀ d ∈ c :: cs, d.column ∈ columns) :
    Reads .start (queryText (c :: cs)) (queryTokens c cs ++ [.sym .semi]) := by
  obtain ⟨first, others⟩ := List.forall_mem_cons.mp known
  have head : Scans .start (text "SELECT path from db_catalog WHERE")
      [.keyword .select, .id "path", .keyword .from, .id "db_catalog"] (.word "WHERE") := scans_text rfl
  have ended : finish (.word "WHERE") = [.keyword .where] := by decide
  have silent : .sym .semi ∉ finish c.mode := fun member =>
    (quiet_clause c).1 (List.mem_append_right _ member)
  have rest := reads_clause spaced_where (by decide) c first (reads_later (spaced_clause c) silent others)
  have reads := Reads.fixed head (clean_text rfl) (by simp) rest
  rw [ended] at reads
  have shape : queryText (c :: cs) = text "SELECT path from db_catalog WHERE" ++ (c.sql ++
      ((cs.map Clause.sql).flatMap (fun p => text " AND" ++ p) ++ text ";")) := by
    simp [queryText, conjoined]
  rw [shape]
  simpa [queryTokens] using reads

end Scanning

/-! ### Its meaning -/

namespace Clause

def atoms : Clause → List Atom
  | equality c v => [.name c, .sym .eq, .lit (.text v)]
  | likeness c v => [.name c, .name "LIKE", .lit (.text ('%' :: (v ++ ['%'])))]
  | number c n => [.name c, .sym .eq, .lit (.int n)]

/-- A clause that is no pattern. -/
def Exact : Clause → Prop
  | likeness .. => False
  | _ => True

end Clause

section Parsing

theorem atoms_clause (c : Clause) (rest : List Token) : atoms (c.tokens ++ rest) = c.atoms ++ atoms rest := by
  cases c with
  | equality c v | likeness c v => rfl
  | number c n =>
    have number := atoms_decimal n rest
    have sign : signTokens n = [] := rfl
    rw [sign, List.nil_append] at number
    exact congrArg (fun more => .name c :: .sym .eq :: more) number

theorem atoms_later (cs : List Clause) :
    atoms (later cs) = cs.flatMap fun c => .kw .and :: c.atoms := by
  induction cs with
  | nil => rfl
  | cons c cs ih =>
    have unfolded : later (c :: cs) = .keyword .and :: (c.tokens ++ later cs) := rfl
    rw [unfolded, List.flatMap_cons, ← ih, List.cons_append, ← atoms_clause]
    rfl

theorem conditions_eq {c : Clause} {cs : List Clause} (exact_ : ∀ d ∈ c :: cs, d.Exact) :
    conditions (c.atoms ++ cs.flatMap fun c => .kw .and :: c.atoms) =
      some ((c :: cs).map Clause.condition) := by
  induction cs generalizing c with
  | nil =>
    cases c with
    | likeness => exact absurd (exact_ _ List.mem_cons_self) id
    | equality | number => rfl
  | cons d cs ih =>
    obtain ⟨first, others⟩ := List.forall_mem_cons.mp exact_
    have rest := ih others
    rw [List.flatMap_cons, List.cons_append]
    cases c with
    | likeness => exact absurd first id
    | equality c v => exact congrArg (Option.map ((Clause.equality c v).condition :: ·)) rest
    | number c n => exact congrArg (Option.map ((Clause.number c n).condition :: ·)) rest

theorem criteria_eq (c : Clause) (cs : List Clause) :
    criteria (c.atoms ++ cs.flatMap fun c => .kw .and :: c.atoms) =
      some ((c :: cs).map Clause.criterion) := by
  have word : fold (text "LIKE") = text "like" := by decide
  induction cs generalizing c with
  | nil =>
    cases c with
    | likeness => simp [Clause.atoms, criteria, word, Clause.criterion]
    | equality | number => rfl
  | cons d cs ih =>
    have rest := ih d
    rw [List.flatMap_cons, List.cons_append]
    cases c with
    | equality c v => exact congrArg (Option.map ((Clause.equality c v).criterion :: ·)) rest
    | number c n => exact congrArg (Option.map ((Clause.number c n).criterion :: ·)) rest
    | likeness c v =>
      refine (if_pos word).trans ?_
      exact congrArg (Option.map ((Clause.likeness c v).criterion :: ·)) rest

theorem illegal_not_mem_query (c : Clause) (cs : List Clause) : .illegal ∉ queryTokens c cs := by
  have after : .illegal ∉ later cs := by
    simp only [later, List.mem_flatMap, not_exists, not_and]
    intro d _
    simpa using (quiet_clause d).2
  simpa [queryTokens, (quiet_clause c).2] using after

theorem semi_not_mem_query (c : Clause) (cs : List Clause) : .sym .semi ∉ queryTokens c cs := by
  have after : .sym .semi ∉ later cs := by
    simp only [later, List.mem_flatMap, not_exists, not_and]
    intro d _
    simpa using (quiet_clause d).1
  simpa [queryTokens, (quiet_clause c).1] using after

theorem atoms_query (c : Clause) (cs : List Clause) : atoms (queryTokens c cs) =
    .kw .select :: .name "path" :: .kw .from :: .name "db_catalog" :: .kw .where ::
      (c.atoms ++ cs.flatMap fun c => .kw .and :: c.atoms) := by
  rw [← atoms_later, ← atoms_clause]
  rfl

/-- The text of clauses without patterns is a query for their conjunction. -/
theorem query_denotes {c : Clause} {cs : List Clause} (known : ∀ d ∈ c :: cs, d.column ∈ columns)
    (exact_ : ∀ d ∈ c :: cs, d.Exact) : Denotes (queryText (c :: cs))
      (.select false ["path"] "db_catalog" ((c :: cs).map Clause.condition)) := by
  refine .of_reads (reads_query known) (semi_not_mem_query c cs)
    (parse_of_atoms (illegal_not_mem_query c cs) rfl ?_)
  rw [atoms_query]
  simp only [statement, selection, conditions_eq exact_]
  rfl

theorem query_searches (c : Clause) (cs : List Clause) : search? (queryTokens c cs) =
    some ⟨["path"], "db_catalog", (c :: cs).map Clause.criterion⟩ := by
  rw [search?, if_neg (illegal_not_mem_query c cs), atoms_query]
  simp only [searching, criteria_eq]
  rfl

end Parsing

/-! ### Its rows -/

/-- Some criterion of the filter is active. -/
def Asks (s : Song) : Prop :=
  s.album ≠ "" ∨ s.artist ≠ "" ∨ s.favorite = true ∨ s.title ≠ "" ∨ 0 < s.year

instance (s : Song) : Decidable (Asks s) := inferInstanceAs (Decidable (_ ∨ _))

/-- The texts of a filter. -/
def wanted (s : Song) : List Text := [s.album, s.artist, s.title]

/-- A row that meets every active criterion, with the texts compared by `test`. -/
structure Meets (test : Text → Text → Prop) (s : Song) (e : Entry) : Prop where
  album : s.album ≠ "" → test s.album e.album
  artist : s.artist ≠ "" → test s.artist e.artist
  favorite : s.favorite = true → e.favorite = 1
  title : s.title ≠ "" → test s.title e.title
  year : 0 < s.year → e.year = s.year.toNat

theorem meets_iff {test : Text → Text → Prop} {s : Song} {e : Entry} : Meets test s e ↔
    (s.album ≠ "" → test s.album e.album) ∧ (s.artist ≠ "" → test s.artist e.artist) ∧
      (s.favorite = true → e.favorite = 1) ∧ (s.title ≠ "" → test s.title e.title) ∧
      (0 < s.year → e.year = s.year.toNat) :=
  ⟨fun ⟨album, artist, favorite, title, year⟩ => ⟨album, artist, favorite, title, year⟩,
    fun ⟨album, artist, favorite, title, year⟩ => ⟨album, artist, favorite, title, year⟩⟩

instance (test : Text → Text → Prop) [∀ v t, Decidable (test v t)] (s : Song) (e : Entry) :
    Decidable (Meets test s e) :=
  decidable_of_iff _ meets_iff.symm

/-- The row has the criterion's text. -/
def Same (v t : Text) : Prop := t = v

instance (v t : Text) : Decidable (Same v t) := inferInstanceAs (Decidable (t = v))

/-- The row's text is like the criterion between two signs for any number of characters. -/
def Resembles (v t : Text) : Prop := patternCompare ('%' :: (v ++ ['%'])) t = true

instance (v t : Text) : Decidable (Resembles v t) := inferInstanceAs (Decidable (_ = true))

/-- The pattern that the text is put into is within SQLite's limit. -/
def Fits (v : Text) : Prop := v.length + 2 ≤ patternLimit

instance (v : Text) : Decidable (Fits v) := inferInstanceAs (Decidable (_ ≤ _))

/-- The text is ASCII without wildcards, and its pattern is within the limit. -/
structure Literal (v : Text) : Prop where
  fits : Fits v
  percent : '%' ∉ v
  underscore : '_' ∉ v
  ascii : ∀ b ∈ v, b.toNat < 0x80

section Rows

variable {db : Db} {t : Table} {entries : List Entry} {s : Song} {e : Entry} {scan : Scan}
  {compare : Text → Text → Clause} {test test' : Text → Text → Prop}

theorem Meets.mono (meets : Meets test s e) (weaker : ∀ v ∈ wanted s, ∀ t, test v t → test' v t) :
    Meets test' s e where
  album := fun active => weaker _ (by simp [wanted]) _ (meets.album active)
  artist := fun active => weaker _ (by simp [wanted]) _ (meets.artist active)
  favorite := meets.favorite
  title := fun active => weaker _ (by simp [wanted]) _ (meets.title active)
  year := meets.year

/-- A text that is searched for stands in the row as the test says. -/
theorem Meets.test_of_mem (meets : Meets test s e) {v : Text} (member : v ∈ wanted s) (active : v ≠ "") :
    test v e.album ∨ test v e.artist ∨ test v e.title := by
  simp only [wanted, List.mem_cons, List.not_mem_nil, or_false] at member
  rcases member with rfl | rfl | rfl
  · exact .inl (meets.album active)
  · exact .inr (.inl (meets.artist active))
  · exact .inr (.inr (meets.title active))

theorem asks_of_mem {v : Text} (member : v ∈ wanted s) (active : v ≠ "") : Asks s := by
  simp only [wanted, List.mem_cons, List.not_mem_nil, or_false] at member
  rcases member with rfl | rfl | rfl
  · exact .inl active
  · exact .inr (.inl active)
  · exact .inr (.inr (.inr (.inl active)))

theorem clauses_eq_nil_iff : clauses compare s = [] ↔ ¬ Asks s := by
  simp only [clauses, List.append_eq_nil_iff, ite_eq_right_iff, List.cons_ne_self, Asks]
  tauto

/-- What holds of every clause of a filter. -/
theorem forall_clauses_iff {p : Clause → Prop} : (∀ c ∈ clauses compare s, p c) ↔
    (s.album ≠ "" → p (compare "album" s.album)) ∧ (s.artist ≠ "" → p (compare "artist" s.artist)) ∧
      (s.favorite = true → p (.number "favorite" 1)) ∧ (s.title ≠ "" → p (compare "title" s.title)) ∧
      (0 < s.year → p (.number "year" s.year.toNat)) := by
  have one (active : Prop) [Decidable active] (c : Clause) :
      (∀ d ∈ if active then [c] else [], p d) ↔ (active → p c) := by
    by_cases yes : active <;> simp [yes]
  simp only [clauses, List.forall_mem_append, one]
  tauto

/-- The paths of the rows that are selected. -/
theorem first_column_selected (declared : Declared .catalog t) (stored : t.rows = entries.map Entry.row)
    {rows : List Row} {selected : Row → Bool} (perm : rows.Perm (t.rows.filter selected))
    [DecidablePred (Meets test s)] (agree : ∀ e ∈ entries, selected e.row = true ↔ Meets test s e) :
    ∃ paths, firstColumn (.ok (rows.map fun r => (["path"] : List Text).map (t.cell r))) = some paths ∧
      paths.Perm ((entries.filter fun e => Meets test s e).map (·.path)) := by
  apply first_column_perm
  apply (perm.map _).trans
  apply List.Perm.of_eq
  have kept : entries.filter (selected ∘ Entry.row) = entries.filter fun e => Meets test s e :=
    List.filter_congr fun e held => by
      rw [Function.comp_apply, Bool.eq_iff_iff, agree e held, decide_eq_true_iff]
  have cell (e : Entry) : (["path"] : List Text).map (t.cell e.row) = [.text e.path] := by
    rw [List.map_singleton, e.cell_path declared]
  rw [stored, List.filter_map, kept, List.map_map, pathRows, List.map_map]
  exact List.map_congr_left fun e _ => cell e

/-- The cells that criteria are about. -/
theorem criteria_cells (declared : Declared .catalog t) (e : Entry) :
    t.cell e.row "album" = .text e.album ∧ t.cell e.row "artist" = .text e.artist ∧
      t.cell e.row "favorite" = .int e.favorite ∧ t.cell e.row "title" = .text e.title ∧
      t.cell e.row "year" = .int e.year := by
  obtain ⟨name, columns, key, rows⟩ := t
  cases declared.columns
  exact ⟨rfl, rfl, rfl, rfl, rfl⟩

/-- What holds of a column's cell where it is compared with a value. -/
theorem holds_iff {r : Row} {c : Text} {v w : Value} (cell : t.cell r c = w) (there : w ≠ .null) :
    t.holds r { operand := .column c, value := v } = true ↔ w = v := by
  simp [Table.holds, cell, there]

theorem admitted_all {α : Type} {f : α → Except Fault Unit} {l : List α} (each : ∀ a ∈ l, f a = .ok ()) :
    l.forM f = .ok () := by
  induction l with
  | nil => rfl
  | cons a l ih =>
    obtain ⟨first, others⟩ := List.forall_mem_cons.mp each
    change (f a >>= fun _ => l.forM f) = _
    rw [first]
    exact ih others

theorem path_known (declared : Declared .catalog t) :
    ((["path"] : List Text).any fun c => (t.index? c).isNone) = false := by
  obtain ⟨name, columns, key, rows⟩ := t
  cases declared.columns
  rfl

theorem conditions_admitted (declared : Declared .catalog t) :
    ((clauses Clause.equality s).map Clause.condition).forM t.admits = .ok () := by
  obtain ⟨name, columns, key, rows⟩ := t
  cases declared.columns
  apply admitted_all
  rw [List.forall_mem_map, forall_clauses_iff]
  exact ⟨fun _ => rfl, fun _ => rfl, fun _ => rfl, fun _ => rfl, fun _ => rfl⟩

theorem criteria_admitted (declared : Declared .catalog t) :
    ((clauses Clause.likeness s).map Clause.criterion).forM (Criterion.admitted t) = .ok () := by
  obtain ⟨name, columns, key, rows⟩ := t
  cases declared.columns
  apply admitted_all
  rw [List.forall_mem_map, forall_clauses_iff]
  exact ⟨fun _ => rfl, fun _ => rfl, fun _ => rfl, fun _ => rfl, fun _ => rfl⟩

/-- The patterns are within the limit where the texts fit. -/
theorem short_iff : (∀ c ∈ (clauses Clause.likeness s).map Clause.criterion, c.Short) ↔ ∀ v ∈ wanted s, Fits v := by
  have own (c v : Text) : (Clause.likeness c v).criterion.Short ↔ Fits v := by
    have length : ('%' :: (v ++ ['%'])).length = v.length + 2 := by rw [List.length_cons, List.length_append]; rfl
    change ('%' :: (v ++ ['%'])).length ≤ patternLimit ↔ Fits v
    rw [length, Fits]
  have active (v : Text) : (v ≠ "" → Fits v) ↔ Fits v := by
    refine ⟨fun fits => ?_, fun fits _ => fits⟩
    by_cases none_ : v = ""
    · subst none_
      decide
    · exact fits none_
  rw [List.forall_mem_map, forall_clauses_iff, own, own, own, active, active, active]
  simp [wanted, Clause.criterion, Criterion.Short]

/-- The conjunction of the equalities selects the rows that meet the filter. -/
theorem selects_iff (declared : Declared .catalog t) (s : Song) (e : Entry) :
    t.selects ((clauses Clause.equality s).map Clause.condition) e.row = true ↔ Meets Same s e := by
  obtain ⟨album, artist, favorite, title, year⟩ := criteria_cells declared e
  rw [Table.selects, List.all_eq_true, List.forall_mem_map, forall_clauses_iff, meets_iff]
  simp only [Clause.condition, holds_iff album, holds_iff artist, holds_iff favorite, holds_iff title,
    holds_iff year, Same, ne_eq, reduceCtorEq, not_false_eq_true, Value.text.injEq, Value.int.injEq,
    Nat.cast_one]

theorem searches_iff (declared : Declared .catalog t) (s : Song) (e : Entry) :
    (((clauses Clause.likeness s).map Clause.criterion).all fun c => c.holds t e.row) = true ↔
      Meets Resembles s e := by
  obtain ⟨album, artist, favorite, title, year⟩ := criteria_cells declared e
  rw [List.all_eq_true, List.forall_mem_map, forall_clauses_iff, meets_iff]
  simp only [Clause.criterion, Criterion.holds, holds_iff favorite, holds_iff year, album, artist, title,
    Resembles, ne_eq, reduceCtorEq, not_false_eq_true, Value.int.injEq, Nat.cast_one]

end Rows

/-! ### Its text -/

/-- The comparisons of the two searches. -/
inductive Compares : (Text → Text → Clause) → Prop
  | equality : Compares .equality
  | likeness : Compares .likeness

section Query

variable {s : Song} {compare : Text → Text → Clause}

theorem asked (compare : Text → Text → Clause) (asks : Asks s) : clauses compare s ≠ [] :=
  fun none => clauses_eq_nil_iff.mp none asks

theorem search_text_eq (compare : Text → Text → Clause) (s : Song) :
    searchText (fun c v => (compare c v).sql) s = if Asks s then some (queryText (clauses compare s)) else none := by
  rw [searchText, where_clause_eq]
  by_cases asks : Asks s
  · have some : (clauses compare s).isEmpty = false := by simpa using asked compare asks
    simp [asks, some, queryText]
  · have none : clauses compare s = [] := clauses_eq_nil_iff.mpr asks
    simp [asks, none]

theorem known_columns (compares : Compares compare) : ∀ c ∈ clauses compare s, c.column ∈ columns := by
  have named (c v : Text) : (compare c v).column = c := by cases compares <;> rfl
  rw [forall_clauses_iff, named, named, named]
  simp [Clause.column, columns]

theorem clean_sql {c v : Text} (compares : Compares compare) (known : c ∈ columns) :
    nul ∉ (compare c v).sql ↔ nul ∉ v := by
  have named := clean_column known
  cases compares with
  | equality =>
    have space : nul ∉ text " " := clean_text rfl
    have opening : nul ∉ text "='" := clean_text rfl
    have closing : nul ∉ text "'" := clean_text rfl
    simp [Clause.sql, equality, escape_eq_doubled, mem_doubled, named, space, opening, closing]
  | likeness =>
    have space : nul ∉ text " " := clean_text rfl
    have opening : nul ∉ text " LIKE '%" := clean_text rfl
    have closing : nul ∉ text "%'" := clean_text rfl
    simp [Clause.sql, likeness, escape_eq_doubled, mem_doubled, named, space, opening, closing]

theorem clean_conjoined {ps : List Text} : nul ∉ conjoined ps ↔ ∀ p ∈ ps, nul ∉ p := by
  have word : nul ∉ text " AND" := clean_text rfl
  cases ps with
  | nil => simp [conjoined, text]
  | cons p ps => simp [conjoined, word]

/-- The query is whole where the texts that are searched for are. -/
theorem clean_query_iff (compares : Compares compare) :
    nul ∉ queryText (clauses compare s) ↔ ∀ v ∈ wanted s, nul ∉ v := by
  have head : nul ∉ text "SELECT path from db_catalog WHERE" := clean_text rfl
  have close : nul ∉ text ";" := clean_text rfl
  have whole : nul ∉ queryText (clauses compare s) ↔ nul ∉ conjoined ((clauses compare s).map Clause.sql) := by
    simp [queryText, head, close]
  have active (v : Text) : (v ≠ "" → nul ∉ v) ↔ nul ∉ v := by
    refine ⟨fun clean held => clean (List.ne_nil_of_mem held) held, fun clean _ => clean⟩
  have favorite := clean_number (c := "favorite") (by decide) 1
  have year := clean_number (c := "year") (by decide) s.year.toNat
  rw [whole, clean_conjoined, List.forall_mem_map, forall_clauses_iff, clean_sql compares (by decide),
    clean_sql compares (by decide), clean_sql compares (by decide), active, active, active]
  simp [wanted, favorite, year]

end Query

/-! ### What it finds -/

section Searches

variable {db : Db} {t : Table} {entries : List Entry} {s : Song} {e : Entry} {test : Text → Text → Prop}

/-- A text that is cut is in no row. -/
theorem not_meets_of_cut (clean : e.Clean) (kept : ∀ v t, test v t → nul ∈ v → nul ∈ t) {v : Text}
    (member : v ∈ wanted s) (cut : nul ∈ v) : ¬ Meets test s e := by
  intro meets
  rcases meets.test_of_mem member (List.ne_nil_of_mem cut) with one | one | one
  · exact clean.album (kept v _ one cut)
  · exact clean.artist (kept v _ one cut)
  · exact clean.title (kept v _ one cut)

theorem search_text_equality : searchText equality s =
    if Asks s then some (queryText (clauses .equality s)) else none :=
  search_text_eq .equality s

theorem search_text_likeness : searchText likeness s =
    if Asks s then some (queryText (clauses .likeness s)) else none :=
  search_text_eq .likeness s

/-- The query of `select_where`, as it is read. -/
def sought (s : Song) : Stmt :=
  .select false ["path"] "db_catalog" ((clauses .equality s).map Clause.condition)

theorem denotes_sought (asks : Asks s) : Denotes (queryText (clauses .equality s)) (sought s) := by
  have known := known_columns (s := s) .equality
  have plain : ∀ c ∈ clauses Clause.equality s, c.Exact :=
    forall_clauses_iff.mpr ⟨fun _ => trivial, fun _ => trivial, fun _ => trivial, fun _ => trivial, fun _ => trivial⟩
  obtain ⟨c, cs, shape⟩ := List.exists_cons_of_ne_nil (asked .equality asks)
  rw [shape] at known plain
  rw [sought, shape]
  exact query_denotes known plain

theorem select_where_asked (asks : Asks s) (scan : Scan) (db : Db) :
    selectWhere scan db s = firstColumn (query scan db (queryText (clauses .equality s))) := by
  simp only [selectWhere, search_text_equality, if_pos asks]

theorem select_like_asked (asks : Asks s) (scan : Scan) (db : Db) :
    selectLike scan db s = firstColumn (searchQuery scan db (queryText (clauses .likeness s))) := by
  simp only [selectLike, search_text_likeness, if_pos asks]

/-- Without a criterion nothing is asked. -/
theorem select_unasked (quiet : ¬ Asks s) (scan : Scan) (db : Db) :
    selectWhere scan db s = some [] ∧ selectLike scan db s = some [] := by
  simp only [selectWhere, selectLike, search_text_equality, search_text_likeness, if_neg quiet, and_self]

theorem select_where_eq (stocked : Stocked db entries) (scan : Scan) (asks : Asks s)
    (whole : ∀ v ∈ wanted s, nul ∉ v) : ∃ paths, selectWhere scan db s = some paths ∧
      paths.Perm ((entries.filter fun e => Meets Same s e).map (·.path)) := by
  obtain ⟨t, found, declared, stored, -⟩ := stocked
  have clean := (clean_query_iff .equality).mpr whole
  rw [select_where_asked asks, (denotes_sought asks).query_eq, if_neg clean, sought,
    select_eq scan ((source_eq (by decide)).trans found) (path_known declared) (conditions_admitted declared)]
  exact first_column_selected declared stored ((scan.perm _ t).filter _) fun e _ => selects_iff declared s e

/-- The query of `select_like`, as it is read. -/
def sieve (s : Song) : Search := ⟨["path"], "db_catalog", (clauses .likeness s).map Clause.criterion⟩

theorem sieve_source (found : db.lookup "db_catalog" = some t) : db.source (sieve s).table = some t :=
  (source_eq (show fold (text "db_catalog") ≠ text "sqlite_master" by decide)).trans found

theorem select_like_whole (asks : Asks s) (whole : ∀ v ∈ wanted s, nul ∉ v) (scan : Scan) (db : Db) :
    selectLike scan db s = firstColumn (searchRows scan db (sieve s)) := by
  have clean := (clean_query_iff .likeness).mpr whole
  have known := known_columns (s := s) .likeness
  obtain ⟨c, cs, shape⟩ := List.exists_cons_of_ne_nil (asked .likeness asks)
  rw [select_like_asked asks, sieve]
  rw [shape] at clean known ⊢
  rw [search_query_eq (reads_query known) clean (semi_not_mem_query c cs) (query_searches c cs)]

theorem select_like_eq (stocked : Stocked db entries) (scan : Scan) (asks : Asks s)
    (whole : ∀ v ∈ wanted s, nul ∉ v) (fits : ∀ v ∈ wanted s, Fits v) :
    ∃ paths, selectLike scan db s = some paths ∧
      paths.Perm ((entries.filter fun e => Meets Resembles s e).map (·.path)) := by
  obtain ⟨t, found, declared, stored, -⟩ := stocked
  obtain ⟨rows, read, perm⟩ := search_rows_short scan (sieve_source found) (path_known declared)
    (criteria_admitted declared) (short_iff.mpr fits)
  rw [select_like_whole asks whole, read]
  exact first_column_selected declared stored perm fun e _ => searches_iff declared s e

/-- With a text that does not fit, the first row that its pattern is compared with ends the search. -/
theorem select_like_long (stocked : Stocked db entries) (scan : Scan) (whole : ∀ v ∈ wanted s, nul ∉ v) {v : Text}
    (member : v ∈ wanted s) (long : ¬ Fits v) : selectLike scan db s = some [] := by
  obtain ⟨t, found, declared, -, -⟩ := stocked
  have active : v ≠ "" := by
    rintro rfl
    exact long (by decide)
  have broken : ∃ c ∈ (clauses Clause.likeness s).map Clause.criterion, ¬ c.Short := by
    by_contra short
    push Not at short
    exact long (short_iff.mp short v member)
  have read := search_rows_long scan (sieve_source found) (path_known declared) (criteria_admitted declared) broken
  rw [select_like_whole (asks_of_mem member active) whole, read]
  rfl

/-- A query that is cut in one of its texts is rejected. -/
theorem select_cut {v : Text} (member : v ∈ wanted s) (cut : nul ∈ v) (scan : Scan) (db : Db) :
    selectWhere scan db s = some [] ∧ selectLike scan db s = some [] := by
  have asks := asks_of_mem member (List.ne_nil_of_mem cut)
  have cut {compare : Text → Text → Clause} (compares : Compares compare) :
      nul ∈ queryText (clauses compare s) := by
    by_contra clean
    exact (clean_query_iff compares).mp clean v member cut
  constructor
  · rw [select_where_asked asks, (denotes_sought asks).query_eq, if_pos (cut .equality)]
    rfl
  · have known := known_columns (s := s) .likeness
    have cut := cut .likeness
    obtain ⟨c, cs, shape⟩ := List.exists_cons_of_ne_nil (asked .likeness asks)
    rw [select_like_asked asks]
    rw [shape] at known cut ⊢
    rw [search_query_cut (reads_query known) cut]
    rfl

/-- Nor is there a row with such a text. -/
theorem none_meets_cut (test : Text → Text → Prop) [DecidablePred (Meets test s)]
    (stocked : Stocked db entries) (kept : ∀ v t, test v t → nul ∈ v → nul ∈ t) {v : Text} (member : v ∈ wanted s)
    (cut : nul ∈ v) : (entries.filter fun e => Meets test s e) = [] := by
  obtain ⟨-, -, -, -, clean⟩ := stocked
  apply List.filter_eq_nil_iff.mpr
  intro e held
  rw [decide_eq_true_iff]
  exact not_meets_of_cut (clean e held) kept member cut

theorem stocked_of_entries (clean : ∀ e ∈ entries, e.Clean) :
    Stocked (Db.empty.create { emptyCatalog with rows := entries.map Entry.row }) entries :=
  ⟨_, Db.lookup_create_self rfl rfl, ⟨rfl, rfl⟩, rfl, clean⟩

/-- Two songs of one title, and one with a title like it. -/
def sales : List Entry :=
  [{ path := "a.mp3", title := "It's 100%" }, { path := "b.mp3", title := "It's 100 Days" },
    { path := "c.mp3", title := "It's 100%", year := 1999 }]

theorem clean_sales : ∀ e ∈ sales, e.Clean := by
  intro e held
  simp only [sales, List.mem_cons, List.not_mem_nil, or_false] at held
  rcases held with rfl | rfl | rfl <;> constructor <;> decide

/-- A filter for the title. -/
def sale : Song := { path := "", title := "It's 100%" }

/-- **Exact search.** `select_where` returns the path of every row that meets all active criteria, once for
each such row; the text it runs is read as their conjunction, and without a criterion it runs none. -/
theorem select_where_exact (stocked : Stocked db entries) (scan : Scan) (s : Song) :
    (¬ Asks s → searchText equality s = none ∧ selectWhere scan db s = some []) ∧
    (Asks s → ∃ q paths, searchText equality s = some q ∧ Denotes q (sought s) ∧
      selectWhere scan db s = some paths ∧
      paths.Perm ((entries.filter fun e => Meets Same s e).map (·.path))) := by
  rw [search_text_equality]
  constructor
  · intro quiet
    exact ⟨if_neg quiet, (select_unasked quiet scan db).1⟩
  · intro asks
    refine ⟨queryText (clauses .equality s), ?_⟩
    by_cases whole : ∀ v ∈ wanted s, nul ∉ v
    · obtain ⟨paths, selected, perm⟩ := select_where_eq stocked scan asks whole
      exact ⟨paths, if_pos asks, denotes_sought asks, selected, perm⟩
    · push Not at whole
      obtain ⟨v, member, cut⟩ := whole
      have none := none_meets_cut Same stocked (fun v t same cut => same ▸ cut) member cut
      refine ⟨[], if_pos asks, denotes_sought asks, (select_cut member cut scan db).1, ?_⟩
      rw [none, List.map_nil]

theorem sale_found : ∃ db paths, selectWhere .stored db sale = some paths ∧ paths.Perm ["a.mp3", "c.mp3"] := by
  obtain ⟨q, paths, -, -, selected, perm⟩ :=
    (select_where_exact (stocked_of_entries clean_sales) .stored sale).2 (by decide)
  exact ⟨_, paths, selected, perm⟩

/-- A row that has for every text of the filter what is made of it. -/
def bearing (s : Song) (f : Text → Text) : Entry where
  path := "a.mp3"
  album := f s.album
  artist := f s.artist
  title := f s.title
  favorite := 1
  year := s.year.toNat

theorem meets_bearing {f : Text → Text} : Meets test s (bearing s f) ↔ ∀ v ∈ wanted s, v ≠ "" → test v (f v) := by
  simp [meets_iff, bearing, wanted]

theorem stocked_bearing {f : Text → Text} (clean : ∀ v ∈ wanted s, nul ∉ f v) :
    Stocked (Db.empty.create { emptyCatalog with rows := [(bearing s f).row] }) [bearing s f] := by
  refine stocked_of_entries (List.forall_mem_singleton.mpr ?_)
  exact ⟨clean_text rfl, clean _ (by simp [wanted]), clean _ (by simp [wanted]), clean _ (by simp [wanted]),
    List.not_mem_nil, clean_text rfl⟩

/-- `select_like` returns every path that `select_where` does, whatever the catalog. -/
def Covers (s : Song) : Prop :=
  ∀ db entries scan scan', Stocked db entries → ∃ paths similar, selectWhere scan db s = some paths ∧
    selectLike scan' db s = some similar ∧ ∀ p ∈ paths, p ∈ similar

theorem covers_of_fits (fits : ∀ v ∈ wanted s, Fits v) : Covers s := by
  intro db entries scan scan' stocked
  by_cases asks : Asks s
  · by_cases whole : ∀ v ∈ wanted s, nul ∉ v
    · obtain ⟨paths, selected, perm⟩ := select_where_eq stocked scan asks whole
      obtain ⟨similar, found, perm'⟩ := select_like_eq stocked scan' asks whole fits
      refine ⟨paths, similar, selected, found, fun p held => ?_⟩
      obtain ⟨e, among, rfl⟩ := List.mem_map.mp (perm.mem_iff.mp held)
      obtain ⟨there, meets⟩ := List.mem_filter.mp among
      have resembles : Meets Resembles s e :=
        (of_decide_eq_true meets).mono fun v _ t same => same ▸ compare_of_same rfl
      exact perm'.mem_iff.mpr
        (List.mem_map_of_mem (List.mem_filter.mpr ⟨there, decide_eq_true resembles⟩))
    · push Not at whole
      obtain ⟨v, member, cut⟩ := whole
      exact ⟨[], [], (select_cut member cut scan db).1, (select_cut member cut scan' db).2, fun p held => held⟩
  · exact ⟨[], [], (select_unasked asks scan db).1, (select_unasked asks scan' db).2, fun p held => held⟩

/-- A row with the texts of the filter is found by `select_where` alone, if one of them does not fit. -/
theorem fits_of_covers (covers : Covers s) (whole : ∀ v ∈ wanted s, nul ∉ v) {v : Text} (member : v ∈ wanted s) :
    Fits v := by
  by_contra long
  have active : v ≠ "" := by
    rintro rfl
    exact long (by decide)
  have stocked := stocked_bearing (f := id) whole
  obtain ⟨paths, similar, selected, found, within⟩ := covers _ _ .stored .stored stocked
  obtain ⟨paths', selected', perm⟩ := select_where_eq stocked .stored (asks_of_mem member active) whole
  cases selected.symm.trans selected'
  cases found.symm.trans (select_like_long stocked .stored whole member long)
  have meets : Meets Same s (bearing s id) := meets_bearing.mpr fun _ _ _ => rfl
  have held : text "a.mp3" ∈ paths := by
    refine perm.mem_iff.mpr (List.mem_map.mpr ⟨bearing s id, ?_, rfl⟩)
    exact List.mem_filter.mpr ⟨List.mem_singleton_self _, decide_eq_true meets⟩
  exact List.not_mem_nil (within _ held)

/-- **Fuzzy search.** `select_like` returns every path that `select_where` does exactly for the filters whose
texts fit into a pattern, or one of whose texts is cut. -/
theorem select_where_subset_select_like_iff (s : Song) :
    Covers s ↔ (∃ v ∈ wanted s, nul ∈ v) ∨ ∀ v ∈ wanted s, Fits v := by
  by_cases cut : ∃ v ∈ wanted s, nul ∈ v
  · refine iff_of_true (fun db entries scan scan' _ => ?_) (.inl cut)
    obtain ⟨v, member, held⟩ := cut
    exact ⟨[], [], (select_cut member held scan db).1, (select_cut member held scan' db).2, fun p held => held⟩
  · rw [or_iff_right cut]
    push Not at cut
    exact ⟨fun covers v member => fits_of_covers covers cut member, covers_of_fits⟩

/-- How long a title of letters can be. -/
theorem letters_fit {n : Nat} (covers : Covers { path := "", title := List.replicate n 'a' }) :
    n + 2 ≤ patternLimit := by
  have letters : nul ∉ List.replicate n 'a' := fun held => absurd (List.eq_of_mem_replicate held) (by decide)
  have whole : ∀ v ∈ wanted { path := "", title := List.replicate n 'a' }, nul ∉ v := by
    simpa [wanted, text] using letters
  have fits := fits_of_covers covers whole (v := List.replicate n 'a') (by simp [wanted])
  rwa [Fits, List.length_replicate] at fits

/-- With 49,999 letters the pattern is one byte too long. -/
theorem long_title_missed : ¬ Covers { path := "", title := List.replicate 49999 'a' } := fun covers =>
  absurd (letters_fit covers) (by decide)

/-- `select_like` returns the paths of the rows that hold the texts of the filter as they are, whatever the
catalog. -/
def Verbatim (s : Song) : Prop :=
  ∀ db entries scan, Stocked db entries → ∃ paths, selectLike scan db s = some paths ∧
    paths.Perm ((entries.filter fun e => Asks s ∧ Meets Occurs s e).map (·.path))

/-- A text that is cut is found nowhere, and stands nowhere. -/
theorem verbatim_of_cut {v : Text} (member : v ∈ wanted s) (cut : nul ∈ v) : Verbatim s := by
  intro db entries scan stocked
  have kept (v t : Text) (occurs : Occurs v t) (held : nul ∈ v) : nul ∈ t := by
    by_contra absent
    exact not_occurs_of_absent (by decide) (by decide) held absent occurs
  have none := none_meets_cut Occurs stocked kept member cut
  rw [List.filter_eq_nil_iff] at none
  refine ⟨[], (select_cut member cut scan db).2, ?_⟩
  rw [List.filter_eq_nil_iff.mpr, List.map_nil]
  intro e held found
  exact none e held (decide_eq_true (of_decide_eq_true found).2)

theorem verbatim_of_literal (literal : ∀ v ∈ wanted s, Literal v) (whole : ∀ v ∈ wanted s, nul ∉ v) :
    Verbatim s := by
  intro db entries scan stocked
  by_cases asks : Asks s
  · have same (v : Text) (member : v ∈ wanted s) (t : Text) : Resembles v t ↔ Occurs v t :=
      compare_iff_occurs ⟨(literal v member).percent, (literal v member).underscore⟩ (literal v member).ascii
    have agree (e : Entry) : Asks s ∧ Meets Occurs s e ↔ Meets Resembles s e := by
      rw [and_iff_right asks]
      constructor
      · intro meets
        exact meets.mono fun v member t => (same v member t).mpr
      · intro meets
        exact meets.mono fun v member t => (same v member t).mp
    simp only [agree]
    exact select_like_eq stocked scan asks whole fun v member => (literal v member).fits
  · refine ⟨[], (select_unasked asks scan db).2, ?_⟩
    simp [asks]

/-- A row with the texts of the filter is not found, if one of them does not fit. -/
theorem fits_of_verbatim (verbatim : Verbatim s) (whole : ∀ v ∈ wanted s, nul ∉ v) {v : Text}
    (member : v ∈ wanted s) : Fits v := by
  by_contra long
  have active : v ≠ "" := by
    rintro rfl
    exact long (by decide)
  have stocked := stocked_bearing (f := id) whole
  obtain ⟨paths, found, perm⟩ := verbatim _ _ .stored stocked
  cases found.symm.trans (select_like_long stocked .stored whole member long)
  have meets : Meets Occurs s (bearing s id) := meets_bearing.mpr fun _ _ _ => List.infix_rfl
  simp [asks_of_mem member active, meets] at perm

/-- What stands in a row and what resembles it are the same for a filter that is searched for as it is. -/
theorem occurs_iff_resembles (verbatim : Verbatim s) (whole : ∀ v ∈ wanted s, nul ∉ v) (asks : Asks s)
    {f : Text → Text} (clean : ∀ v ∈ wanted s, nul ∉ f v) :
    (∀ v ∈ wanted s, v ≠ "" → Occurs v (f v)) ↔ ∀ v ∈ wanted s, v ≠ "" → Resembles v (f v) := by
  have stocked := stocked_bearing clean
  obtain ⟨paths, found, perm⟩ := verbatim _ _ .stored stocked
  obtain ⟨similar, found', perm'⟩ := select_like_eq stocked .stored asks whole fun v member =>
    fits_of_verbatim verbatim whole member
  cases found.symm.trans found'
  have same := perm.symm.trans perm'
  rw [← meets_bearing, ← meets_bearing]
  by_cases occurs : Meets Occurs s (bearing s f) <;> by_cases resembles : Meets Resembles s (bearing s f) <;>
    simp [asks, occurs, resembles] at same ⊢

/-- A text in the place of another. -/
def swapped (v t : Text) : Text → Text := fun w => if w = v then t else w

theorem literal_of_verbatim (verbatim : Verbatim s) (whole : ∀ v ∈ wanted s, nul ∉ v) {v : Text}
    (member : v ∈ wanted s) : Literal v := by
  by_cases active : v = ""
  · subst active
    constructor <;> simp [Fits, patternLimit, text]
  have asks := asks_of_mem member active
  have plain : '%' ∉ v ∧ '_' ∉ v := by
    by_contra wild
    rw [not_and_or, not_not, not_not] at wild
    have clean : ∀ w ∈ wanted s, nul ∉ tame w := fun w held cut => whole w held (nul_mem_tame.mp cut)
    have occurs := (occurs_iff_resembles verbatim whole asks clean).mpr fun w _ _ => compare_tame w
    exact not_occurs_tame wild (occurs v member active)
  refine ⟨fits_of_verbatim verbatim whole member, plain.1, plain.2, ?_⟩
  by_contra high
  push Not at high
  have clean {t : Text} (kept : nul ∈ t → nul ∈ v) : ∀ w ∈ wanted s, nul ∉ swapped v t w := by
    intro w held cut
    unfold swapped at cut
    split_ifs at cut
    · exact whole v member (kept cut)
    · exact whole w held cut
  have own (t : Text) : swapped v t v = t := if_pos rfl
  rcases disguised high with ⟨t, same, absent, kept⟩ | ⟨t, occurs, ⟨n, beyond, held, missing⟩, kept⟩
  · have occurs := (occurs_iff_resembles verbatim whole asks (clean kept)).mpr fun w _ _ => by
      unfold swapped
      split_ifs with swaps
      · exact compare_of_same (swaps ▸ same)
      · exact compare_of_same rfl
    exact absent (own t ▸ occurs v member active)
  · have resembles := (occurs_iff_resembles verbatim whole asks (clean kept)).mp fun w _ _ => by
      unfold swapped
      split_ifs with swaps
      · exact swaps ▸ occurs
      · exact List.infix_rfl
    have read := (compare_iff_within plain).mp (own t ▸ resembles v member active)
    obtain ⟨k, found, small⟩ := List.mem_map.mp (read.subset (List.mem_map_of_mem held))
    have own : lowered n = n := (lowered_eq_iff (by omega)).mpr rfl
    rw [own, lowered_eq_iff (by omega)] at small
    exact missing (small ▸ found)

/-- **Wildcards.** The texts of a filter are searched for as they are exactly where all are ASCII without
wildcards and fit into a pattern, or one of them is cut. -/
theorem verbatim_iff (s : Song) :
    Verbatim s ↔ (∃ v ∈ wanted s, nul ∈ v) ∨ ∀ v ∈ wanted s, Literal v := by
  by_cases cut : ∃ v ∈ wanted s, nul ∈ v
  · obtain ⟨v, member, held⟩ := cut
    exact iff_of_true (verbatim_of_cut member held) (.inl ⟨v, member, held⟩)
  · rw [or_iff_right cut]
    push Not at cut
    exact ⟨fun verbatim v member => literal_of_verbatim verbatim cut member,
      fun literal => verbatim_of_literal literal cut⟩

/-- The user's text is a pattern: rows without a percent sign are found too. -/
theorem percent_matches_anything : ¬ Verbatim { path := "", title := "100%" } := by
  intro verbatim
  have literal := literal_of_verbatim verbatim (by decide) (v := "100%") (by decide)
  exact literal.percent (by decide)

end Searches

end Sws.Searching
