import Mathlib.Data.List.Nodup
import Sws.Sql.Parser

/-! What SQLite does with the modelled statements. Names of tables and columns are compared
ignoring ASCII case. A database never holds two tables of one name; the field `distinct`
carries this, so no proof about a database has to re-establish it. -/
namespace Sws.Sql

abbrev Row := List Value

structure Table where
  /-- The name as `CREATE TABLE` wrote it. -/
  name : Text
  columns : List ColumnDef
  /-- The primary-key columns; `[]` declares no key and no uniqueness. -/
  key : List Text := []
  rows : List Row := []
  deriving DecidableEq, Repr

structure Db where
  /-- The tables in the order of `sqlite_master`. -/
  tables : List Table
  distinct : (tables.map fun t => fold t.name).Nodup

namespace Db

@[ext] theorem ext {a b : Db} (same : a.tables = b.tables) : a = b := by
  cases a; cases b; cases same; rfl

instance : DecidableEq Db := fun a b => decidable_of_iff (a.tables = b.tables) ⟨ext, congrArg _⟩

def empty : Db := ⟨[], List.nodup_nil⟩

def lookup (db : Db) (n : Text) : Option Table := db.tables.find? fun t => fold t.name = fold n

/-- Replaces the table of this name, if there is one. -/
def put (db : Db) (t : Table) : Db where
  tables := db.tables.map fun u => if fold u.name = fold t.name then t else u
  distinct := by
    have names : (db.tables.map fun u => if fold u.name = fold t.name then t else u).map
        (fun u => fold u.name) = db.tables.map fun u => fold u.name := by
      rw [List.map_map]
      refine List.map_congr_left fun u _ => ?_
      by_cases same : fold u.name = fold t.name <;> simp [same]
    rw [names]
    exact db.distinct

/-- Adds a table at the end, if its name is free. -/
def create (db : Db) (t : Table) : Db :=
  if free : db.lookup t.name = none then
    { tables := db.tables ++ [t]
      distinct := by
        rw [List.map_append, List.nodup_append]
        refine ⟨db.distinct, by simp, ?_⟩
        intro n member m single same
        obtain ⟨u, held, rfl⟩ := List.mem_map.mp member
        have absent := List.find?_eq_none.mp free u held
        rw [List.mem_singleton.mp single] at same
        exact absurd same (by simpa using absent) }
  else db

/-- Removes the table of this name, if there is one. -/
def erase (db : Db) (n : Text) : Db where
  tables := db.tables.filter fun t => fold t.name ≠ fold n
  distinct := (List.filter_sublist.map _).nodup db.distinct

/-- The listing of tables as a table of its own. -/
def master (db : Db) : Table where
  name := "sqlite_master"
  columns := [{ name := "type", type := ["TEXT"] }, { name := "name", type := ["TEXT"] }]
  rows := db.tables.map fun t => [.text "table", .text t.name]

/-- What a `SELECT` reads. -/
def source (db : Db) (n : Text) : Option Table :=
  if fold n = text "sqlite_master" then some db.master else db.lookup n

end Db

/-! ### Columns and values -/

inductive Affinity
  | text | integer | real | blob | numeric
  deriving DecidableEq, Repr

def mentions (type : List Text) (part : Text) : Bool :=
  type.any fun w => (fold w).tails.any part.isPrefixOf

/-- The affinity of a declared type: the words `INT`, `CHAR` and so on are looked for anywhere
in it. -/
def affinity (type : List Text) : Affinity :=
  if mentions type "int" then .integer
  else if mentions type "char" ∨ mentions type "clob" ∨ mentions type "text" then .text
  else if mentions type "blob" ∨ type = [] then .blob
  else if mentions type "real" ∨ mentions type "floa" ∨ mentions type "doub" then .real
  else .numeric

/-- A value on its way into a column. Conversions between text and numbers are outside the
fragment. -/
def store : Affinity → Value → Except Fault Value
  | _, .null => .ok .null
  | .text, .text t => .ok (.text t)
  | .integer, .int n => .ok (.int n)
  | .numeric, .int n => .ok (.int n)
  | .real, .int n => .ok (.real (n * 1000000))
  | .real, .real m => .ok (.real m)
  | .blob, v => .ok v
  | _, _ => .error .unmodelled

namespace Table

def index? (t : Table) (c : Text) : Option Nat := t.columns.findIdx? fun d => fold d.name = fold c

def cell (t : Table) (r : Row) (c : Text) : Value := ((t.index? c).bind (r[·]?)).getD .null

/-- The full row an `INSERT` builds: the given columns, and defaults for the others. -/
def fullRow (t : Table) (columns : Option (List Text)) (values : List Value) : Except Fault Row :=
  let given := columns.getD (t.columns.map (·.name))
  if given.all (fun c => (t.index? c).isSome) ∧ values.length = given.length then
    t.columns.mapM fun d =>
      store (affinity d.type)
        (((given.zip values).find? fun p => fold p.1 = fold d.name).elim d.default (·.2))
  else .error .rejected

def keyOf (t : Table) (r : Row) : List Value := t.key.map (t.cell r)

/-- Two rows no primary key lets stand together; a key with a NULL conflicts with nothing. -/
def Conflicts (t : Table) (r s : Row) : Prop :=
  t.key ≠ [] ∧ t.keyOf r = t.keyOf s ∧ .null ∉ t.keyOf r

instance (t : Table) (r s : Row) : Decidable (t.Conflicts r s) :=
  inferInstanceAs (Decidable (_ ∧ _ ∧ _))

def missing (t : Table) (r : Row) : Bool :=
  t.columns.any fun d => d.notNull && t.cell r d.name = .null

/-- One row in. `REPLACE` first removes the rows it conflicts with. -/
def insertRow (t : Table) (replace : Bool) (r : Row) : Except Fault Table :=
  if t.missing r then .error (if replace then .unmodelled else .rejected)
  else if replace then
    .ok { t with rows := t.rows.filter (fun s => ¬ t.Conflicts r s) ++ [r] }
  else if t.rows.any fun s => t.Conflicts r s then .error .rejected
  else .ok { t with rows := t.rows ++ [r] }

/-- Whether a condition is about a column of this table, compared with a value of its kind. -/
def admits (t : Table) (c : Condition) : Except Fault Unit :=
  let column := match c.operand with
    | .column n => n
    | .substr n _ _ => n
  match t.columns.find? fun d => fold d.name = fold column with
  | none => .error .rejected
  | some d =>
    match c.operand, affinity d.type, c.value with
    | .column _, .text, .text _ => .ok ()
    | .column _, .integer, .int _ => .ok ()
    | .substr _ 1 (.ofNat _), .text, .text _ => .ok ()
    | _, _, _ => .error .unmodelled

def holds (t : Table) (r : Row) (c : Condition) : Bool :=
  match c.operand with
  | .column n => t.cell r n ≠ .null && (t.cell r n = c.value) != c.negated
  | .substr n _ length =>
    match t.cell r n with
    | .text s => (Value.text (s.take length.toNat) = c.value) != c.negated
    | _ => false

def selects (t : Table) (filter : List Condition) (r : Row) : Bool := filter.all (t.holds r)

def assign (t : Table) (sets : List (Text × Value)) (r : Row) : Except Fault Row :=
  sets.foldlM (fun (row : Row) p =>
    match t.index? p.1 with
    | none => .error .rejected
    | some i => (store (affinity ((t.columns[i]?).elim [] (·.type))) p.2).map (row.set i ·)) r

end Table

/-! ### Statements -/

/-- `CREATE TABLE`: names beginning with `sqlite_` are SQLite's own. -/
def createTable (db : Db) (ifNotExists : Bool) (t : Table) : Except Fault Db :=
  if (text "sqlite_").isPrefixOf (fold t.name) then .error .rejected
  else if (db.lookup t.name).isSome then if ifNotExists then .ok db else .error .rejected
  else if ¬ (t.columns.map fun d => fold d.name).Nodup ∨ t.key.any (fun c => (t.index? c).isNone) then
    .error .rejected
  else .ok (db.create t)

def insertRows (db : Db) (replace : Bool) (t : Table) (columns : Option (List Text))
    (rows : List (List Value)) : Except Fault Db := do
  let full ← rows.mapM (t.fullRow columns)
  let after ← full.foldlM (fun u r => u.insertRow replace r) t
  return db.put after

/-- `UPDATE`; assignments to key columns and to `NOT NULL` columns are outside the fragment. -/
def updateRows (db : Db) (t : Table) (sets : List (Text × Value)) (filter : List Condition) :
    Except Fault Db := do
  if sets.any fun p => (t.index? p.1).isNone then .error .rejected
  filter.forM t.admits
  if sets.any fun p => t.key.any (fold · = fold p.1) ∨
      t.columns.any (fun d => d.notNull && fold d.name = fold p.1) then .error .unmodelled
  let rows ← t.rows.mapM fun r => if t.selects filter r then t.assign sets r else .ok r
  return db.put { t with rows := rows }

def deleteRows (db : Db) (t : Table) (filter : List Condition) : Except Fault Db := do
  filter.forM t.admits
  return db.put { t with rows := t.rows.filter fun r => ¬ t.selects filter r }

/-- A statement that is not a query. A rejected statement leaves the database as it was. -/
def execute (db : Db) : Stmt → Except Fault Db
  | .createTable ifNotExists name columns key =>
    createTable db ifNotExists { name := name, columns := columns, key := key }
  | .insert replace table columns rows =>
    (db.lookup table).elim (.error .rejected) fun t => insertRows db replace t columns rows
  | .update table sets filter =>
    (db.lookup table).elim (.error .rejected) fun t => updateRows db t sets filter
  | .delete table filter => (db.lookup table).elim (.error .rejected) fun t => deleteRows db t filter
  | .dropTable name =>
    if (text "sqlite_").isPrefixOf (fold name) then .error .rejected else .ok (db.erase name)
  | .select .. => .error .unmodelled

/-- The order in which SQLite visits a table for a query: some order of its rows, the same
whenever the query and the table are the same. -/
structure Scan where
  rows : Stmt → Table → List Row
  perm : ∀ s t, (rows s t).Perm t.rows

/-- Rows in the order they are stored. -/
def Scan.stored : Scan := ⟨fun _ t => t.rows, fun _ _ => .rfl⟩

/-- A table that is not there; SQLite has more tables of its own than `sqlite_master`. -/
def noTable (n : Text) : Fault :=
  if (text "sqlite_").isPrefixOf (fold n) then .unmodelled else .rejected

/-- The result rows of a query. -/
def select (scan : Scan) (db : Db) : Stmt → Except Fault (List Row)
  | .select distinct columns table filter =>
    (db.source table).elim (.error (noTable table)) fun t => do
      if columns.any fun c => (t.index? c).isNone then .error .rejected
      filter.forM t.admits
      let rows := (scan.rows (.select distinct columns table filter) t).filter (t.selects filter)
      let projected := rows.map fun r => columns.map (t.cell r)
      return if distinct then projected.eraseDups else projected
  | _ => .error .unmodelled

/-! ### Texts -/

/-- The loop of `sqlite3_exec` over the statements of a text: it stops at the first error.
`none` is a text outside the fragment; the flag is the result code. -/
def runStatements (db : Db) : List (List Token) → Option (Db × Bool)
  | [] => some (db, true)
  | [] :: rest => runStatements db rest
  | (t :: ts) :: rest =>
    match parse (t :: ts) >>= execute db with
    | .ok after => runStatements after rest
    | .error .rejected => some (db, false)
    | .error .unmodelled => none

/-- `sqlite3_exec`. -/
def exec (db : Db) (q : Text) : Option (Db × Bool) := runStatements db (statements (lex (cStr q)))

/-- `sqlite3_prepare` and the rows `sqlite3_step` then returns: only the first statement of the
text is compiled. -/
def query (scan : Scan) (db : Db) (q : Text) : Except Fault (List Row) :=
  match statements (lex (cStr q)) with
  | [] => .error .unmodelled
  | s :: _ => parse s >>= select scan db

end Sws.Sql
