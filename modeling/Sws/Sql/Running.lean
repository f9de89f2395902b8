import Sws.Sql.Engine
import Sws.Sql.Scanning

/-! How a text runs whose tokens are known, and what the operations on databases leave where. -/
namespace Sws.Sql

/-! ### One statement -/

theorem statements_of_no_semi {ts : List Token} (single : .sym .semi ∉ ts) : statements ts = [ts] := by
  induction ts with
  | nil => rfl
  | cons t ts ih =>
    obtain ⟨head, tail⟩ := not_or.mp (mt List.mem_cons.mpr single)
    rw [statements, ih tail]
    exact fun same => head same.symm

theorem statements_append_semi {ts : List Token} (single : .sym .semi ∉ ts) (rest : List Token) :
    statements (ts ++ .sym .semi :: rest) = ts :: statements rest := by
  induction ts with
  | nil => rfl
  | cons t ts ih =>
    obtain ⟨head, tail⟩ := not_or.mp (mt List.mem_cons.mpr single)
    rw [List.cons_append, statements, ih tail]
    exact fun same => head same.symm

theorem statements_cons {t : Token} (inside : t ≠ .sym .semi) (ts : List Token) :
    ∃ s more, statements (t :: ts) = (t :: s) :: more := by
  rw [statements]
  · cases statements ts with
    | nil => exact ⟨[], [], rfl⟩
    | cons s more => exact ⟨s, more, rfl⟩
  · exact inside

/-- What a result leaves, and whether `sqlite3_exec` reports success. -/
def outcome (db : Db) : Except Fault Db → Option (Db × Bool)
  | .ok after => some (after, true)
  | .error .rejected => some (db, false)
  | .error .unmodelled => none

theorem parse_of_atoms {ts : List Token} {s : Stmt} (legal : .illegal ∉ ts)
    (begins : ts.head?.any mayBegin = true) (parsed : statement (atoms ts) = some s) :
    parse ts = .ok s := by
  simp [parse, legal, begins, parsed]

theorem parse_nil : parse [] = .error .rejected := by simp [parse]

/-- The statement a text consists of, if it is one statement with its semicolon. -/
def single? (q : Text) : Option Stmt :=
  match statements (lex (cStr q)) with
  | [ts, []] => (parse ts).toOption
  | _ => none

theorem single_eq_some {q : Text} {s : Stmt} (one : single? q = some s) :
    ∃ ts, statements (lex (cStr q)) = [ts, []] ∧ parse ts = .ok s := by
  rw [single?] at one
  split at one
  next ts split =>
    refine ⟨ts, split, ?_⟩
    cases parsed : parse ts with
    | ok r => simpa [parsed, Except.toOption] using one
    | error fault => simp [parsed, Except.toOption] at one
  next => cases one

theorem single_of_lex {q : Text} {ts : List Token} {s : Stmt} (read : lex (cStr q) = ts ++ [.sym .semi])
    (inner : .sym .semi ∉ ts) (parsed : parse ts = .ok s) : single? q = some s := by
  rw [single?, read, statements_append_semi inner]
  simp [statements, parsed, Except.toOption]

theorem exec_single {q : Text} {s : Stmt} (one : single? q = some s) (db : Db) :
    exec db q = outcome db (execute db s) := by
  obtain ⟨ts, split, parsed⟩ := single_eq_some one
  rw [exec, split]
  cases ts with
  | nil => cases parse_nil.symm.trans parsed
  | cons t ts =>
    have bound : (Except.ok s >>= execute db) = execute db s := rfl
    simp only [runStatements, parsed, bound]
    cases execute db s with
    | ok after => rfl
    | error fault => cases fault <;> rfl

theorem query_single {q : Text} {s : Stmt} (one : single? q = some s) (scan : Scan) (db : Db) :
    query scan db q = select scan db s := by
  obtain ⟨ts, split, parsed⟩ := single_eq_some one
  rw [query, split]
  simp only [parsed]
  rfl

/-- A text whose first token begins no statement. -/
theorem exec_bad_start {q : Text} {t : Token} {ts : List Token}
    (read : lex (cStr q) = t :: ts) (inside : t ≠ .sym .semi) (bad : mayBegin t = false) :
    single? q = none ∧ ∀ db, exec db q = some (db, false) := by
  obtain ⟨s, more, split⟩ := statements_cons inside ts
  have rejected : parse (t :: s) = .error .rejected := by simp [parse, bad]
  have bound (db : Db) : ((Except.error .rejected : Except Fault Stmt) >>= execute db) =
      .error .rejected := rfl
  refine ⟨?_, fun db => by rw [exec, read, split, runStatements, rejected, bound]⟩
  rw [single?, read, split]
  split
  next same =>
    obtain ⟨rfl, -⟩ := List.cons.inj same
    rw [rejected]
    rfl
  next => rfl

/-- A text of one statement cut inside a literal. -/
theorem exec_cut {q : Text} {ts : List Token} (db : Db) (read : lex (cStr q) = ts ++ [.illegal])
    (single : .sym .semi ∉ ts) : exec db q = some (db, false) := by
  have whole : .sym .semi ∉ ts ++ [Token.illegal] := by simpa using single
  have rejected : parse (ts ++ [.illegal]) = .error .rejected := by simp [parse]
  have bound : ((Except.error .rejected : Except Fault Stmt) >>= execute db) = .error .rejected := rfl
  rw [exec, read, statements_of_no_semi whole]
  cases ts with
  | nil =>
    rw [List.nil_append] at rejected ⊢
    rw [runStatements, rejected, bound]
  | cons t ts => rw [List.cons_append, runStatements, ← List.cons_append, rejected, bound]

theorem query_cut {q : Text} {ts : List Token} (scan : Scan) (db : Db)
    (read : lex (cStr q) = ts ++ [.illegal]) (single : .sym .semi ∉ ts) :
    query scan db q = .error .rejected := by
  have whole : .sym .semi ∉ ts ++ [Token.illegal] := by simpa using single
  have rejected : parse (ts ++ [.illegal]) = .error .rejected := by simp [parse]
  rw [query, read, statements_of_no_semi whole]
  simp only [rejected]
  rfl

/-- The text is this statement; with a NUL in one of its arguments it is cut inside a literal. -/
structure Denotes (q : Text) (s : Stmt) : Prop where
  whole : nul ∉ q → single? q = some s
  cut : nul ∈ q → ∃ ts, lex (cStr q) = ts ++ [.illegal] ∧ .sym .semi ∉ ts

namespace Denotes

variable {q : Text} {s : Stmt}

theorem of_single (clean : nul ∉ q) (one : single? q = some s) : Denotes q s where
  whole := fun _ => one
  cut := fun cut => absurd cut clean

theorem of_reads {ts : List Token} (reads : Reads .start q (ts ++ [.sym .semi])) (inner : .sym .semi ∉ ts)
    (parsed : parse ts = .ok s) : Denotes q s where
  whole := fun clean => by
    refine single_of_lex ?_ inner parsed
    rw [c_str_of_no_nul clean]
    exact reads.whole clean
  cut := reads.cut

/-- The same where the tokens are known one by one. -/
theorem of_tokens {tokens : List Token} (reads : Reads .start q tokens)
    (ends : tokens.getLast? = some (.sym .semi)) (inner : .sym .semi ∉ tokens.dropLast)
    (parsed : parse tokens.dropLast = .ok s) : Denotes q s := by
  rw [← List.dropLast_append_getLast? _ ends] at reads
  exact of_reads reads inner parsed

/-- A cut text is no statement at all. -/
theorem single_eq (denotes : Denotes q s) : single? q = if nul ∈ q then none else some s := by
  by_cases cut : nul ∈ q
  · obtain ⟨early, read, within⟩ := denotes.cut cut
    have whole : .sym .semi ∉ early ++ [Token.illegal] := by simpa using within
    rw [if_pos cut, single?, read, statements_of_no_semi whole]
  · rw [if_neg cut, denotes.whole cut]

/-- What `sqlite3_exec` does with the text. -/
theorem exec_eq (denotes : Denotes q s) (db : Db) :
    exec db q = if nul ∈ q then some (db, false) else outcome db (execute db s) := by
  by_cases cut : nul ∈ q
  · obtain ⟨early, read, within⟩ := denotes.cut cut
    rw [if_pos cut, exec_cut db read within]
  · rw [if_neg cut, exec_single (denotes.whole cut)]

/-- A text that is executed has changed nothing, or it is whole and its statement has succeeded. -/
theorem exec_cases {db after : Db} {ok : Bool} (denotes : Denotes q s) (ran : exec db q = some (after, ok)) :
    after = db ∨ nul ∉ q ∧ execute db s = .ok after := by
  rw [denotes.exec_eq] at ran
  split_ifs at ran with cut
  · cases ran
    exact .inl rfl
  · cases result : execute db s with
    | ok next =>
      rw [result] at ran
      cases ran
      exact .inr ⟨cut, rfl⟩
    | error fault =>
      rw [result] at ran
      cases fault with
      | rejected =>
        cases ran
        exact .inl rfl
      | unmodelled => cases ran

/-- The rows of the text as a query. -/
theorem query_eq (denotes : Denotes q s) (scan : Scan) (db : Db) :
    query scan db q = if nul ∈ q then .error .rejected else select scan db s := by
  by_cases cut : nul ∈ q
  · obtain ⟨early, read, within⟩ := denotes.cut cut
    rw [if_pos cut, query_cut scan db read within]
  · rw [if_neg cut, query_single (denotes.whole cut)]

end Denotes

/-! ### Tables -/

namespace Db

variable {db : Db} {t u : Table} {n : Text}

theorem fold_name_of_lookup (found : db.lookup n = some t) : fold t.name = fold n := by
  simpa using List.find?_some found

theorem mem_of_lookup (found : db.lookup n = some t) : t ∈ db.tables := List.mem_of_find?_eq_some found

theorem lookup_eq_none_iff : db.lookup n = none ↔ ∀ t ∈ db.tables, fold t.name ≠ fold n := by
  simp [lookup, List.find?_eq_none]

theorem lookup_congr {m : Text} (same : fold m = fold n) : db.lookup m = db.lookup n := by
  simp only [lookup, same]

/-- A table that is there is found under its name. -/
theorem lookup_of_mem (held : t ∈ db.tables) (same : fold t.name = fold n) : db.lookup n = some t := by
  cases found : db.lookup n with
  | none => exact absurd same (lookup_eq_none_iff.mp found t held)
  | some u =>
    have names : fold u.name = fold t.name := (fold_name_of_lookup found).trans same.symm
    exact congrArg some (List.inj_on_of_nodup_map db.distinct (mem_of_lookup found) held names)

theorem lookup_put_self (found : db.lookup n = some t) (same : fold u.name = fold n) :
    (db.put u).lookup n = some u := by
  refine lookup_of_mem (List.mem_map.mpr ⟨t, mem_of_lookup found, ?_⟩) same
  rw [if_pos ((fold_name_of_lookup found).trans same.symm)]

theorem put_of_lookup (found : db.lookup n = some t) : db.put t = db := by
  refine ext ((List.map_congr_left fun u held => ?_).trans (List.map_id _))
  split
  next same => exact List.inj_on_of_nodup_map db.distinct (mem_of_lookup found) held same.symm
  next => rfl

theorem lookup_put_of_ne (other : fold u.name ≠ fold n) : (db.put u).lookup n = db.lookup n := by
  simp only [lookup, put]
  induction db.tables with
  | nil => rfl
  | cons v tables ih =>
    rw [List.map_cons, List.find?_cons, List.find?_cons, ih]
    by_cases same : fold v.name = fold u.name
    · simp [same, other]
    · simp [same]

theorem mem_put (held : t ∈ (db.put u).tables) : t = u ∨ t ∈ db.tables := by
  obtain ⟨v, member, rfl⟩ := List.mem_map.mp held
  by_cases same : fold v.name = fold u.name
  · simp [same]
  · simp [same, member]

theorem tables_create (free : db.lookup t.name = none) : (db.create t).tables = db.tables ++ [t] := by
  rw [create, dif_pos free]

theorem lookup_create_self (free : db.lookup t.name = none) (same : fold t.name = fold n) :
    (db.create t).lookup n = some t :=
  lookup_of_mem (by rw [tables_create free]; simp) same

theorem lookup_create_of_ne (other : fold t.name ≠ fold n) : (db.create t).lookup n = db.lookup n := by
  by_cases free : db.lookup t.name = none
  · simp [lookup, tables_create free, List.find?_append, other]
  · rw [create, dif_neg free]

theorem mem_create (held : u ∈ (db.create t).tables) : u = t ∨ u ∈ db.tables := by
  by_cases free : db.lookup t.name = none
  · rw [tables_create free] at held
    rcases List.mem_append.mp held with old | new
    · exact .inr old
    · exact .inl (List.mem_singleton.mp new)
  · rw [create, dif_neg free] at held
    exact .inr held

end Db

end Sws.Sql
