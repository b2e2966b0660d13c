import Rstmdb.Wal.Entry

/-! Guards: boolean expressions over the context of an instance, with the parser
that reads them from a definition. The parser keeps a byte position and slices
its input there, so it can panic. -/
namespace Rstmdb
open Json (Value Fields Number F64)

/-- The errors of the engine. -/
inductive CoreError
  | machineNotFound (machine : String)
  | machineVersionNotFound (machine : String) (version : UInt32)
  | machineVersionExists (machine : String) (version : UInt32)
  | instanceNotFound (instanceId : String)
  | instanceExists (instanceId : String)
  | invalidTransition (state event : String)
  | guardFailed (reason : String)
  | stateConflict (expected actual : String)
  | walOffsetConflict (expected actual : Nat)
  | invalidDefinition (reason : String)
  | invalidGuard (reason : String)
  | wal (e : WalError)
  | json
  deriving DecidableEq, Repr

inductive GuardExpr
  | truthy (field : String)
  | falsy (field : String)
  | eq (field : String) (expected : Value)
  | ne (field : String) (expected : Value)
  | gt (field : String) (expected : F64)
  | ge (field : String) (expected : F64)
  | lt (field : String) (expected : F64)
  | le (field : String) (expected : F64)
  | and (left right : GuardExpr)
  | or (left right : GuardExpr)
  | not (inner : GuardExpr)
  deriving Repr

/-! ## Evaluation -/

def getParts : Value → List String → Value
  | current, [] => current
  | .object map, part :: parts => getParts ((Fields.get? map part).getD .null) parts
  | _, _ :: _ => .null

/-- The value at a dotted path, null where the path leaves the objects. -/
def getField (ctx : Value) (field : String) : Value :=
  getParts ctx ((field.toList.splitOn '.').map String.ofList)

def isTruthy : Value → Bool
  | .null => false
  | .bool b => b
  | .number n => n.asF64 != 0
  | .string s => s != ""
  | .array a => !a.isEmpty
  | .object o => !o.isEmpty

def valuesEqual : Value → Value → Bool
  | .null, .null => true
  | .bool a, .bool b => a == b
  -- Closer than `f64::EPSILON`.
  | .number a, .number b => (a.asF64 - b.asF64).abs < Float.ofBits 0x3CB0000000000000
  | .string a, .string b => a == b
  | _, _ => false

def asF64 : Value → Option Float
  | .number n => some n.asF64
  | _ => none

/-- The meaning of a guard. Comparisons with anything but a number are false. -/
def GuardExpr.evaluate (ctx : Value) : GuardExpr → Bool
  | .truthy field => isTruthy (getField ctx field)
  | .falsy field => !isTruthy (getField ctx field)
  | .eq field expected => valuesEqual (getField ctx field) expected
  | .ne field expected => !valuesEqual (getField ctx field) expected
  | .gt field expected => (asF64 (getField ctx field)).any fun v => expected.toFloat < v
  | .ge field expected => (asF64 (getField ctx field)).any fun v => expected.toFloat ≤ v
  | .lt field expected => (asF64 (getField ctx field)).any fun v => v < expected.toFloat
  | .le field expected => (asF64 (getField ctx field)).any fun v => v ≤ expected.toFloat
  | .and left right => left.evaluate ctx && right.evaluate ctx
  | .or left right => left.evaluate ctx || right.evaluate ctx
  | .not inner => !inner.evaluate ctx

/-- A transition without a guard is always open. -/
def evaluateOpt (guard : Option GuardExpr) (ctx : Value) : Bool :=
  (guard.map (·.evaluate ctx)).getD true

/-! ## Parsing -/

/-- What the parser uses from the standard library and cannot do itself: the
Unicode classes beyond ASCII, and `str::parse::<f64>`. -/
structure StdText where
  isAlphanumeric : Char → Bool
  parseF64 : String → Option F64

/-- `char::is_whitespace`, the Unicode property `White_Space`. -/
def isWhitespace (c : Char) : Bool :=
  let n := c.toNat
  (9 ≤ n && n ≤ 13) || n == 0x20 || n == 0x85 || n == 0xA0 || n == 0x1680 ||
    (0x2000 ≤ n && n ≤ 0x200A) || n == 0x2028 || n == 0x2029 || n == 0x202F || n == 0x205F ||
    n == 0x3000

/-- `str::trim`. -/
def trim (s : List Char) : List Char :=
  ((s.dropWhile isWhitespace).reverse.dropWhile isWhitespace).reverse

/-- `&s[pos..]`: there is a suffix at each character boundary. -/
def suffixAt : List Char → Nat → Option (List Char)
  | cs, 0 => some cs
  | [], _ + 1 => none
  | c :: cs, pos + 1 =>
    if c.utf8Size ≤ pos + 1 then suffixAt cs (pos + 1 - c.utf8Size) else none

/-- The first `len` bytes, when they end at a character boundary. -/
def takeBytes : List Char → Nat → Option (List Char)
  | _, 0 => some []
  | [], _ + 1 => none
  | c :: cs, len + 1 =>
    if c.utf8Size ≤ len + 1 then (takeBytes cs (len + 1 - c.utf8Size)).map (c :: ·) else none

def byteLength (s : List Char) : Nat := (s.map Char.utf8Size).sum

/-- A step of the parser: from a position to a value and the position behind it,
or an error. `none` is a panic. -/
abbrev Parse (α : Type) := StateT Nat (ExceptT CoreError Option) α

namespace Parser

section
variable (std : StdText) (input : List Char)

def panicked {α : Type} : Parse α := fun _ => none

/-- A slice, which panics off the character boundaries. -/
def sliced {α : Type} : Option α → Parse α
  | some a => pure a
  | none => panicked

def invalidGuard {α : Type} (reason : String) : Parse α := throw (.invalidGuard reason)

def rest : Parse (List Char) := do
  sliced (suffixAt input (← get))

def peekChar : Parse (Option Char) := do
  return (← rest input).head?

def peekStr (s : String) : Parse Bool := do
  return s.toList.isPrefixOf (← rest input)

def advance (bytes : Nat) : Parse Unit := modify (· + bytes)

/-- `&input[start..pos]`. -/
def sliceFrom (start : Nat) : Parse (List Char) := do
  let pos ← get
  if pos < start then panicked
  else
    let cs ← sliced (suffixAt input start)
    sliced (takeBytes cs (pos - start))

/-- The loops over one class of characters. They step by one byte, and each step
looks at the input again. -/
def advanceWhile (p : Char → Bool) : Nat → Parse Unit
  | 0 => panicked
  | fuel + 1 => do
    match ← peekChar input with
    | some c =>
      if p c then
        advance 1
        advanceWhile p fuel
      else return
    | none => return

def skipWhitespace : Parse Unit := advanceWhile input isWhitespace (byteLength input + 1)

def isFieldChar (c : Char) : Bool := std.isAlphanumeric c || c == '_' || c == '.'

def parseField : Parse String := do
  let start ← get
  if !(← peekStr input "ctx.") then invalidGuard "field must start with 'ctx.'"
  else
    advance 4
    advanceWhile input (isFieldChar std) (byteLength input + 1)
    let field ← sliceFrom input (start + 4)
    if field.isEmpty then invalidGuard "empty field name"
    else return String.ofList field

def isAsciiDigit (c : Char) : Bool := '0' ≤ c && c ≤ '9'

def parseNumber : Parse F64 := do
  skipWhitespace input
  let start ← get
  if (← peekChar input) = some '-' then advance 1
  advanceWhile input isAsciiDigit (byteLength input + 1)
  if (← peekChar input) = some '.' then
    advance 1
    advanceWhile input isAsciiDigit (byteLength input + 1)
  let numStr := String.ofList (← sliceFrom input start)
  match std.parseF64 numStr with
  | some num => return num
  | none => invalidGuard ("invalid number: '" ++ numStr ++ "'")

/-- The loop of `parse_string_value`: a backslash skips two bytes. -/
def stringLoop (start : Nat) : Nat → Parse Value
  | 0 => panicked
  | fuel + 1 => do
    match ← peekChar input with
    | none => invalidGuard "unterminated string"
    | some c =>
      if c = Char.ofNat 34 then
        let s ← sliceFrom input start
        advance 1
        return .string (String.ofList s)
      else
        advance (if c = Char.ofNat 92 then 2 else 1)
        stringLoop start fuel

def parseStringValue : Parse Value := do
  if (← peekChar input) ≠ some (Char.ofNat 34) then invalidGuard "expected string"
  else
    advance 1
    stringLoop input (← get) (byteLength input + 1)

def parseValue : Parse Value := do
  skipWhitespace input
  if ← peekStr input "true" then
    advance 4
    return .bool true
  else if ← peekStr input "false" then
    advance 5
    return .bool false
  else if ← peekStr input "null" then
    advance 4
    return .null
  else if (← peekChar input) = some (Char.ofNat 34) then parseStringValue input
  else
    let num ← parseNumber std input
    -- `Number::from_f64(num).unwrap()`
    return .number (← sliced (Number.fromF64 num))

def parseComparison : Parse GuardExpr := do
  skipWhitespace input
  let field ← parseField std input
  skipWhitespace input
  if ← peekStr input "==" then
    advance 2
    skipWhitespace input
    return .eq field (← parseValue std input)
  else if ← peekStr input "!=" then
    advance 2
    skipWhitespace input
    return .ne field (← parseValue std input)
  else if ← peekStr input ">=" then
    advance 2
    skipWhitespace input
    return .ge field (← parseNumber std input)
  else if ← peekStr input "<=" then
    advance 2
    skipWhitespace input
    return .le field (← parseNumber std input)
  else if (← peekChar input) = some '>' then
    advance 1
    skipWhitespace input
    return .gt field (← parseNumber std input)
  else if (← peekChar input) = some '<' then
    advance 1
    skipWhitespace input
    return .lt field (← parseNumber std input)
  else return .truthy field

/-- `while self.peek_str(op)`: more operands of a left-associative operator. -/
def operands (op : String) (combine : GuardExpr → GuardExpr → GuardExpr)
    (operand : Parse GuardExpr) (left : GuardExpr) : Nat → Parse GuardExpr
  | 0 => panicked
  | fuel + 1 => do
    if ← peekStr input op then
      advance 2
      skipWhitespace input
      let right ← operand
      skipWhitespace input
      operands op combine operand (combine left right) fuel
    else return left

def parseAnd (unary : Parse GuardExpr) : Parse GuardExpr := do
  let left ← unary
  skipWhitespace input
  operands input "&&" .and unary left (byteLength input + 1)

def parseOr (unary : Parse GuardExpr) : Parse GuardExpr := do
  let left ← parseAnd input unary
  skipWhitespace input
  operands input "||" .or (parseAnd input unary) left (byteLength input + 1)

def parsePrimary (unary : Parse GuardExpr) : Parse GuardExpr := do
  skipWhitespace input
  if (← peekChar input) = some '(' then
    advance 1
    let expr ← parseOr input unary
    skipWhitespace input
    if (← peekChar input) ≠ some ')' then invalidGuard "expected ')'"
    else
      advance 1
      return expr
  else parseComparison std input

/-- Each level of nesting, by `!` or by a parenthesis, takes at least one byte. -/
def parseUnary : Nat → Parse GuardExpr
  | 0 => panicked
  | depth + 1 => do
    skipWhitespace input
    if (← peekChar input) = some '!' then
      advance 1
      skipWhitespace input
      return .not (← parseUnary depth)
    else parsePrimary std input (parseUnary depth)

def parseExpr : Parse GuardExpr := parseOr input (parseUnary std input (byteLength input + 1))

end

end Parser

/-- `GuardExpr::parse`: text behind the expression is not looked at. -/
def GuardExpr.parse (std : StdText) (s : String) : Option (Except CoreError GuardExpr) :=
  let input := trim s.toList
  if input.isEmpty then some (.error (.invalidGuard "empty guard expression"))
  else
    match Parser.parseExpr std input 0 with
    | none => none
    | some (.error e) => some (.error e)
    | some (.ok (guard, _)) => some (.ok guard)

end Rstmdb
