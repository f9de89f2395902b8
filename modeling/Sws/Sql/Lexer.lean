import Sws.Text
import Sws.Transducer

/-! SQLite's lexical rules, as a transducer from characters to tokens. White space and comments
emit nothing; an identifier in brackets ends at the first closing bracket; a quote inside a
string literal is written twice. Tokens no statement here can contain are kept apart only as
far as their extent matters: blob literals and bound parameters are `other`. -/
namespace Sws.Sql

/-- The keywords the modelled statements are made of. -/
inductive Keyword
  | create | table | if | not | exists | insert | replace | into | values | update | set
  | where | delete | from | drop | select | distinct | and | default | primary | key | null
  deriving DecidableEq, Repr

/-- Operators and punctuation. -/
inductive Symbol
  | lparen | rparen | comma | semi | eq | ne | star | plus | minus | slash | percent | dot
  | lt | le | gt | ge | shl | shr | bitand | bitor | bitnot | concat | arrow | arrows
  deriving DecidableEq, Repr

inductive Token
  | keyword (k : Keyword)
  /-- A keyword of another statement that cannot stand for an identifier. -/
  | reserved (w : Text)
  /-- An identifier without quotes. -/
  | id (w : Text)
  /-- An identifier in brackets, double quotes or backticks. -/
  | quotedId (n : Text)
  | string (s : Text)
  | number (n : Text)
  | sym (s : Symbol)
  | other
  | illegal
  deriving DecidableEq, Repr

def keywords : List (Text × Keyword) :=
  [("create", .create), ("table", .table), ("if", .if), ("not", .not), ("exists", .exists),
   ("insert", .insert), ("replace", .replace), ("into", .into), ("values", .values),
   ("update", .update), ("set", .set), ("where", .where), ("delete", .delete), ("from", .from),
   ("drop", .drop), ("select", .select), ("distinct", .distinct), ("and", .and),
   ("default", .default), ("primary", .primary), ("key", .key), ("null", .null)]

def reserved : List Text :=
  ["add", "all", "alter", "as", "autoincrement", "between", "case", "check", "collate", "commit",
   "constraint", "deferrable", "else", "escape", "except", "foreign", "group", "having", "in",
   "index", "intersect", "is", "isnull", "join", "limit", "nothing", "notnull", "on", "or",
   "order", "references", "returning", "then", "to", "transaction", "union", "unique", "using",
   "when"]

/-- The token of a complete word; keywords are recognized in either case. -/
def wordToken (w : Text) : Token :=
  match keywords.lookup (fold w) with
  | some k => .keyword k
  | none => if fold w ∈ reserved then .reserved w else .id w

def isSpace (c : Char) : Bool :=
  c = ' ' || c = '\t' || c = '\n' || c = '\r' || c = Char.ofNat 12

def isIdStart (c : Char) : Bool := c.isAlpha || c = '_' || 128 ≤ c.toNat

def isIdChar (c : Char) : Bool := c.isAlphanum || c = '_' || c = '$' || 128 ≤ c.toNat

def isHexDigit (c : Char) : Bool :=
  c.isDigit || ('a' ≤ c && c ≤ 'f') || ('A' ≤ c && c ≤ 'F')

def quote : Char := Char.ofNat 39

def doubleQuote : Char := Char.ofNat 34

def backtick : Char := Char.ofNat 96

/-- What the scanner is in the middle of. -/
inductive Mode
  | start
  | word (w : Text)
  | digits (n : Text)
  | fraction (n : Text)
  | exponentMark (n : Text)
  | exponentSign (n : Text) (sign : Symbol)
  | exponent (n : Text)
  | hexMark (n : Text)
  | hex (n : Text)
  | badNumber
  /-- Inside quotes. -/
  | quoted (q : Char) (s : Text)
  /-- After a quote that either closes or is the first of a pair. -/
  | quotedEnd (q : Char) (s : Text)
  | bracket (n : Text)
  | blob (digits : Text)
  | parameter (named : Bool) (length : Nat)
  | dot | minus | arrow | slash | equals | less | greater | bang | pipe
  | lineComment | blockOpen | blockComment | blockStar
  deriving DecidableEq, Repr

/-- The first character of a token. -/
def enter (c : Char) : List Token × Mode :=
  if isSpace c then ([], .start)
  else if isIdStart c then ([], .word [c])
  else if c.isDigit then ([], .digits [c])
  else if c = quote ∨ c = doubleQuote ∨ c = backtick then ([], .quoted c [])
  else match c with
    | '[' => ([], .bracket [])
    | '(' => ([.sym .lparen], .start)
    | ')' => ([.sym .rparen], .start)
    | ',' => ([.sym .comma], .start)
    | ';' => ([.sym .semi], .start)
    | '*' => ([.sym .star], .start)
    | '+' => ([.sym .plus], .start)
    | '%' => ([.sym .percent], .start)
    | '&' => ([.sym .bitand], .start)
    | '~' => ([.sym .bitnot], .start)
    | '.' => ([], .dot)
    | '-' => ([], .minus)
    | '/' => ([], .slash)
    | '=' => ([], .equals)
    | '<' => ([], .less)
    | '>' => ([], .greater)
    | '!' => ([], .bang)
    | '|' => ([], .pipe)
    | '?' => ([], .parameter false 1)
    | '@' => ([], .parameter true 0)
    | '#' => ([], .parameter true 0)
    | ':' => ([], .parameter true 0)
    | '$' => ([], .parameter true 0)
    | _ => ([.illegal], .start)

/-- Tokens complete before `c`, which begins the next one. -/
def emit (tokens : List Token) (c : Char) : List Token × Mode :=
  (tokens ++ (enter c).1, (enter c).2)

/-- The token a closed pair of quotes stands for. -/
def quotedToken (q : Char) (s : Text) : Token := if q = quote then .string s else .quotedId s

/-- A number directly followed by an identifier character is one illegal token. -/
def endNumber (n : Text) (c : Char) : List Token × Mode :=
  if isIdChar c then ([], .badNumber) else emit [.number n] c

def comment (c : Char) : Mode := if c = '*' then .blockStar else .blockComment

def step : Mode → Char → List Token × Mode
  | .start, c => enter c
  | .word w, c =>
    if isIdChar c then ([], .word (w ++ [c]))
    else if c = quote ∧ fold w = ['x'] then ([], .blob [])
    else emit [wordToken w] c
  | .digits n, c =>
    if c.isDigit then ([], .digits (n ++ [c]))
    else if c = '.' then ([], .fraction (n ++ [c]))
    else if c = 'e' ∨ c = 'E' then ([], .exponentMark (n ++ [c]))
    else if (c = 'x' ∨ c = 'X') ∧ n = ['0'] then ([], .hexMark (n ++ [c]))
    else endNumber n c
  | .fraction n, c =>
    if c.isDigit then ([], .fraction (n ++ [c]))
    else if c = 'e' ∨ c = 'E' then ([], .exponentMark (n ++ [c]))
    else endNumber n c
  | .exponentMark n, c =>
    if c.isDigit then ([], .exponent (n ++ [c]))
    else if c = '+' then ([], .exponentSign n .plus)
    else if c = '-' then ([], .exponentSign n .minus)
    else if isIdChar c then ([], .badNumber)
    else emit [.illegal] c
  | .exponentSign n sign, c =>
    if c.isDigit then ([], .exponent (n ++ [if sign = .plus then '+' else '-', c]))
    else emit [.illegal, .sym sign] c
  | .exponent n, c => if c.isDigit then ([], .exponent (n ++ [c])) else endNumber n c
  | .hexMark n, c =>
    if isHexDigit c then ([], .hex (n ++ [c]))
    else if isIdChar c then ([], .badNumber)
    else emit [.illegal] c
  | .hex n, c => if isHexDigit c then ([], .hex (n ++ [c])) else endNumber n c
  | .badNumber, c => if isIdChar c then ([], .badNumber) else emit [.illegal] c
  | .quoted q s, c => ([], if c = q then .quotedEnd q s else .quoted q (s ++ [c]))
  | .quotedEnd q s, c =>
    if c = q then ([], .quoted q (s ++ [q])) else emit [quotedToken q s] c
  | .bracket n, c => if c = ']' then ([.quotedId n], .start) else ([], .bracket (n ++ [c]))
  | .blob digits, c =>
    if c = quote then
      ([if digits.all isHexDigit ∧ digits.length % 2 = 0 then .other else .illegal], .start)
    else ([], .blob (digits ++ [c]))
  | .parameter named length, c =>
    if (if named then isIdChar c else c.isDigit) then ([], .parameter named (length + 1))
    else emit [if length = 0 then .illegal else .other] c
  | .dot, c => if c.isDigit then ([], .fraction ['.', c]) else emit [.sym .dot] c
  | .minus, c =>
    if c = '-' then ([], .lineComment) else if c = '>' then ([], .arrow) else emit [.sym .minus] c
  | .arrow, c => if c = '>' then ([.sym .arrows], .start) else emit [.sym .arrow] c
  | .slash, c => if c = '*' then ([], .blockOpen) else emit [.sym .slash] c
  | .equals, c => if c = '=' then ([.sym .eq], .start) else emit [.sym .eq] c
  | .less, c =>
    if c = '=' then ([.sym .le], .start)
    else if c = '>' then ([.sym .ne], .start)
    else if c = '<' then ([.sym .shl], .start)
    else emit [.sym .lt] c
  | .greater, c =>
    if c = '=' then ([.sym .ge], .start)
    else if c = '>' then ([.sym .shr], .start)
    else emit [.sym .gt] c
  | .bang, c => if c = '=' then ([.sym .ne], .start) else emit [.illegal] c
  | .pipe, c => if c = '|' then ([.sym .concat], .start) else emit [.sym .bitor] c
  | .lineComment, c => ([], if c = '\n' then .start else .lineComment)
  | .blockOpen, c => ([], comment c)
  | .blockComment, c => ([], comment c)
  | .blockStar, c => ([], if c = '/' then .start else comment c)

/-- The end of the text closes what it can: an unterminated literal or bracket is illegal, an
unterminated comment is not. -/
def finish : Mode → List Token
  | .start | .lineComment | .blockComment | .blockStar => []
  | .word w => [wordToken w]
  | .digits n | .fraction n | .exponent n | .hex n => [.number n]
  | .exponentSign _ sign => [.illegal, .sym sign]
  | .exponentMark _ | .hexMark _ | .badNumber => [.illegal]
  | .quoted _ _ | .bracket _ | .blob _ | .bang => [.illegal]
  | .quotedEnd q s => [quotedToken q s]
  | .parameter _ length => [if length = 0 then .illegal else .other]
  | .dot => [.sym .dot]
  | .minus => [.sym .minus]
  | .arrow => [.sym .arrow]
  | .slash => [.sym .slash]
  | .equals => [.sym .eq]
  | .less => [.sym .lt]
  | .greater => [.sym .gt]
  | .pipe => [.sym .bitor]
  | .blockOpen => [.sym .slash, .sym .star]

/-- `sqlite3GetToken`, applied to a whole text. -/
def scanner : Transducer Mode Char Token where
  step := step
  finish := finish

/-- The tokens of a complete text. -/
def lex (q : Text) : List Token := scanner.output .start q

example : lex "SELECT [a] from b -- done" =
    [.keyword .select, .quotedId ['a'], .keyword .from, .id ['b']] := by decide

end Sws.Sql
