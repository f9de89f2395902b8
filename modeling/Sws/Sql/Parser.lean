import Sws.Sql.Lexer

/-! The statements of the modelled fragment and their grammar. Parsing has three outcomes: a
statement, a certain syntax error, and `unmodelled` for token sequences SQLite might accept but
the fragment does not cover. Nothing is ever concluded from an unmodelled statement. -/
namespace Sws.Sql

/-- A stored value. A real is kept in millionths, the precision `std::to_string` prints. -/
inductive Value
  | null
  | int (n : Int)
  | real (millionths : Int)
  | text (t : Text)
  deriving DecidableEq, Repr

structure ColumnDef where
  name : Text
  /-- The words of the declared type. -/
  type : List Text := []
  default : Value := .null
  notNull : Bool := false
  deriving DecidableEq, Repr

inductive Operand
  | column (c : Text)
  | substr (c : Text) (first length : Int)
  deriving DecidableEq, Repr

/-- `operand = value`, or `operand != value` when negated. -/
structure Condition where
  operand : Operand
  negated : Bool := false
  value : Value
  deriving DecidableEq, Repr

inductive Stmt
  | createTable (ifNotExists : Bool) (name : Text) (columns : List ColumnDef) (key : List Text)
  | insert (replace : Bool) (table : Text) (columns : Option (List Text)) (rows : List (List Value))
  | update (table : Text) (sets : List (Text × Value)) (filter : List Condition)
  | delete (table : Text) (filter : List Condition)
  | dropTable (name : Text)
  | select (distinct : Bool) (columns : List Text) (table : Text) (filter : List Condition)
  deriving DecidableEq, Repr

/-- Why a text has no modelled effect: SQLite reports an error and changes nothing, or the
fragment does not say. -/
inductive Fault
  | rejected
  | unmodelled
  deriving DecidableEq, Repr

/-- The terminals of the grammar: names and literals are recognized before parsing. -/
inductive Atom
  | kw (k : Keyword)
  | name (n : Text)
  | lit (v : Value)
  | sym (s : Symbol)
  | other
  deriving DecidableEq, Repr

/-- A numeric literal: an integer, or a decimal with six places. -/
def number? (n : Text) : Option Value :=
  match n.dropWhile Char.isDigit with
  | [] => some (.int (Nat.ofDigitChars 10 n 0))
  | '.' :: places =>
    if places.all Char.isDigit ∧ places.length = 6 then
      some (.real (Nat.ofDigitChars 10 (n.takeWhile Char.isDigit ++ places) 0))
    else none
  | _ => none

def Value.negate : Value → Value
  | .int n => .int (-n)
  | .real m => .real (-m)
  | v => v

def numberAtom (n : Text) (sign : Value → Value) : Atom :=
  match number? n with
  | some v => .lit (sign v)
  | none => .other

/-- A minus directly before a number is its sign. -/
def atoms : List Token → List Atom
  | [] => []
  | .sym .minus :: .number n :: rest => numberAtom n Value.negate :: atoms rest
  | .number n :: rest => numberAtom n id :: atoms rest
  | .string s :: rest => .lit (.text s) :: atoms rest
  | .keyword .null :: rest => .lit .null :: atoms rest
  | .keyword k :: rest => .kw k :: atoms rest
  | .id w :: rest => .name w :: atoms rest
  | .quotedId n :: rest => .name n :: atoms rest
  | .sym s :: rest => .sym s :: atoms rest
  | .reserved _ :: rest => .other :: atoms rest
  | .other :: rest => .other :: atoms rest
  | .illegal :: rest => .other :: atoms rest

/-- Names up to a closing parenthesis, and what follows it. -/
def nameList : List Atom → Option (List Text × List Atom)
  | .name n :: .sym .comma :: rest => (nameList rest).map fun (ns, more) => (n :: ns, more)
  | .name n :: .sym .rparen :: rest => some ([n], rest)
  | _ => none

/-- The body of `CREATE TABLE` after its opening parenthesis. `open?` is the column being read,
with whether its type is complete. Words that are no keyword belong to the type. -/
def columnDefs (done : List ColumnDef) (key : List Text) :
    (open? : Option (ColumnDef × Bool)) → List Atom → Option (List ColumnDef × List Text)
  | none, .name n :: rest => columnDefs done key (some ({ name := n }, false)) rest
  | some (c, false), .name w :: rest =>
    columnDefs done key (some ({ c with type := c.type ++ [w] }, false)) rest
  | some (c, _), .kw .default :: .lit v :: rest =>
    columnDefs done key (some ({ c with default := v }, true)) rest
  | some (c, _), .kw .not :: .lit .null :: rest =>
    columnDefs done key (some ({ c with notNull := true }, true)) rest
  | some (c, _), .kw .primary :: .kw .key :: rest =>
    columnDefs done (key ++ [c.name]) (some (c, true)) rest
  | some (c, _), .sym .comma :: rest => columnDefs (done ++ [c]) key none rest
  | some (c, _), [.sym .rparen] => some (done ++ [c], key)
  | none, .kw .primary :: .kw .key :: .sym .lparen :: rest =>
    match nameList rest with
    | some (names, [.sym .rparen]) => some (done, key ++ names)
    | _ => none
  | _, _ => none

/-- The rows of `VALUES`, inside the parenthesis of the first one. -/
def rowList (row : List Value) : List Atom → Option (List (List Value))
  | .lit v :: .sym .comma :: rest => rowList (row ++ [v]) rest
  | [.lit v, .sym .rparen] => some [row ++ [v]]
  | .lit v :: .sym .rparen :: .sym .comma :: .sym .lparen :: rest =>
    (rowList [] rest).map fun rows => (row ++ [v]) :: rows
  | _ => none

def insertion (replace : Bool) (table : Text) : List Atom → Option Stmt
  | .kw .values :: .sym .lparen :: rest => (rowList [] rest).map (.insert replace table none)
  | .sym .lparen :: rest =>
    match nameList rest with
    | some (columns, .kw .values :: .sym .lparen :: rows) =>
      (rowList [] rows).map (.insert replace table (some columns))
    | _ => none
  | _ => none

def conditions : List Atom → Option (List Condition)
  | [.name c, .sym .eq, .lit v] => some [{ operand := .column c, value := v }]
  | .name c :: .sym .eq :: .lit v :: .kw .and :: rest =>
    (conditions rest).map fun more => { operand := .column c, value := v } :: more
  | [.name f, .sym .lparen, .name c, .sym .comma, .lit (.int first), .sym .comma,
      .lit (.int length), .sym .rparen, .sym .ne, .lit v] =>
    if fold f = text "substr" then
      some [{ operand := .substr c first length, negated := true, value := v }]
    else none
  | _ => none

def assignments (sets : List (Text × Value)) (table : Text) : List Atom → Option Stmt
  | .name c :: .sym .eq :: .lit v :: .sym .comma :: rest => assignments (sets ++ [(c, v)]) table rest
  | .name c :: .sym .eq :: .lit v :: .kw .where :: rest =>
    (conditions rest).map (.update table (sets ++ [(c, v)]))
  | _ => none

def selection (distinct : Bool) (columns : List Text) : List Atom → Option Stmt
  | .name c :: .sym .comma :: rest => selection distinct (columns ++ [c]) rest
  | [.name c, .kw .from, .name t] => some (.select distinct (columns ++ [c]) t [])
  | .name c :: .kw .from :: .name t :: .kw .where :: rest =>
    (conditions rest).map (.select distinct (columns ++ [c]) t)
  | _ => none

def statement : List Atom → Option Stmt
  | .kw .create :: .kw .table :: .kw .if :: .kw .not :: .kw .exists :: .name n :: .sym .lparen ::
      rest => (columnDefs [] [] none rest).map fun (cs, key) => .createTable true n cs key
  | .kw .create :: .kw .table :: .name n :: .sym .lparen :: rest =>
    (columnDefs [] [] none rest).map fun (cs, key) => .createTable false n cs key
  | .kw .insert :: .kw .into :: .name t :: rest => insertion false t rest
  | .kw .replace :: .kw .into :: .name t :: rest => insertion true t rest
  | .kw .update :: .name t :: .kw .set :: rest => assignments [] t rest
  | .kw .delete :: .kw .from :: .name t :: .kw .where :: rest => (conditions rest).map (.delete t)
  | [.kw .drop, .kw .table, .kw .if, .kw .exists, .name n] => some (.dropTable n)
  | .kw .select :: .kw .distinct :: rest => selection true [] rest
  | .kw .select :: rest => selection false [] rest
  | _ => none

/-- Whether SQLite has a statement that begins with this token. Statements outside the fragment
begin with words the scanner leaves as identifiers. -/
def mayBegin : Token → Bool
  | .keyword k => k ∈ [Keyword.create, .insert, .replace, .update, .delete, .drop, .select, .values]
  | .id _ | .reserved _ => true
  | _ => false

/-- One statement, without its semicolon. An illegal token or a token no statement begins with
is an error wherever the parser stops. -/
def parse (ts : List Token) : Except Fault Stmt :=
  if .illegal ∈ ts ∨ ¬ ts.head?.any mayBegin then .error .rejected
  else match statement (atoms ts) with
    | some s => .ok s
    | none => .error .unmodelled

/-- The statements of a text, cut at semicolons. -/
def statements : List Token → List (List Token)
  | [] => [[]]
  | .sym .semi :: rest => [] :: statements rest
  | t :: rest =>
    match statements rest with
    | s :: more => (t :: s) :: more
    | [] => [[t]]

end Sws.Sql
