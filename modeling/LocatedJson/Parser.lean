import LocatedJson.Token.Lexer

/-! The grammar of values, read with one token of lookahead. Nesting is followed by structural
recursion on the number of levels still allowed, and the elements of one structure by a bound
on how many the remaining bytes can hold. -/
namespace LocatedJson

namespace Parser

structure State extends Cursor where
  ahead : Option Token := none
  depth : Nat := 0
  deriving DecidableEq, Repr

def State.start (text : List Byte) : State := { Cursor.start text with }

end Parser

/-- Parsing keeps its state through a failure, so that a caller may look at it or go on. -/
abbrev ParserM := EStateM Failure Parser.State

namespace Parser

variable (o : Options) (l : Limits)

def atCursor {α : Type} (work : CursorM α) : ParserM α := fun s =>
  match work s.toCursor with
  | .ok a c => .ok a { s with toCursor := c }
  | .error failure c => .error failure { s with toCursor := c }

def fail {α : Type} (cause : Cause) (offset : Nat) : ParserM α := throw ⟨cause, offset⟩

def current : ParserM Token := do
  match (← get).ahead with
  | some token => return token
  | none =>
    let token ← atCursor (Cursor.nextToken o l)
    modify fun s => { s with ahead := some token }
    return token

def advance : ParserM Token := do
  let token ← current o l
  modify fun s => { s with ahead := none }
  return token

def checkLimit (measure : Measure) (n offset : Nat) : ParserM Unit :=
  match l.violation? measure n with
  | some cause => fail cause offset
  | none => return

def enter (offset : Nat) : ParserM Unit := do
  let (depth, refused) := l.deeper (← get).depth
  modify fun s => { s with depth }
  match refused with
  | some cause => fail cause offset
  | none => return

def leave : ParserM Unit := modify fun s => { s with depth := s.depth - 1 }

def reset : ParserM Unit := modify fun s => { s with depth := 0 }

def unexpected {α : Type} (token : Token) (wanted : Wanted) (inside : Structure) : ParserM α :=
  match token.kind with
  | .eof => fail (.unterminated inside) token.offset
  | kind => fail (.unexpectedToken wanted kind) token.offset

/-- Elements up to the closing bracket, the first at hand. With the bound used up no byte is
left to hold another. -/
def elements (item : ParserM Value) : Nat → ParserM (List Value)
  | 0 => do fail (.unterminated .array) (← get).pos
  | bound + 1 => do
    let token ← current o l
    if token.kind = .eof then fail (.unterminated .array) token.offset
    else
      let value ← item
      let separator ← advance o l
      match separator.kind with
      | .mark .comma =>
        let more ← elements item bound
        return value :: more
      | .mark .closeBracket => return [value]
      | _ => unexpected separator .elementEnd .array

def memberKey : ParserM String := do
  let token ← current o l
  match token.kind with
  | .string key =>
    discard (advance o l)
    let colon ← current o l
    if colon.kind = .mark .colon then
      discard (advance o l)
      return key
    else unexpected colon .colon .object
  | _ => unexpected token .key .object

def members (item : ParserM Value) : Nat → ParserM (List (String × Value))
  | 0 => do fail (.unterminated .object) (← get).pos
  | bound + 1 => do
    let key ← memberKey o l
    let value ← item
    let separator ← advance o l
    match separator.kind with
    | .mark .comma =>
      let more ← members item bound
      return (key, value) :: more
    | .mark .closeBrace => return [(key, value)]
    | _ => unexpected separator .memberEnd .object

def roomAhead : ParserM Nat := return (← get).rest.length + 1

def bracketed (closing : Mark) (empty : Value) (filled : Nat → ParserM Value) :
    ParserM Value := do
  let opening ← advance o l
  enter l opening.offset
  let first ← current o l
  if first.kind = .mark closing then
    discard (advance o l)
    leave
    return empty
  else
    let value ← filled (← roomAhead)
    leave
    return value

def array (item : ParserM Value) : ParserM Value :=
  bracketed o l .closeBracket (.array []) fun room => .array <$> elements o l item room

/-- A key written again keeps its place and takes the later value. -/
def object (item : ParserM Value) : ParserM Value :=
  bracketed o l .closeBrace (.object []) fun room =>
    (fun written => .object (Value.collectMembers written)) <$> members o l item room

def valueWith (structured : Structure → ParserM Value) : ParserM Value := do
  let token ← current o l
  let scalar (value : Value) : ParserM Value := do
    discard (advance o l)
    return value
  match token.kind with
  | .string s => scalar (.string s)
  | .number n => scalar (.number n)
  | .bool b => scalar (.bool b)
  | .null => scalar .null
  | .mark .openBrace => structured .object
  | .mark .openBracket => structured .array
  | .eof => fail .missingValue token.offset
  | kind => fail (.unexpectedToken .value kind) token.offset

/-- Opening a structure with no level left. -/
def exhausted : ParserM Value := do
  let opening ← advance o l
  enter l opening.offset
  let s ← get
  fail (.recursionExhausted s.depth) s.pos

/-- A value in which at most `levels` structures are nested. -/
def value : Nat → ParserM Value
  | 0 => valueWith o l fun _ => exhausted o l
  | levels + 1 => valueWith o l fun
    | .array => array o l (value levels)
    | .object => object o l (value levels)

/-! How many levels of nesting a parse can follow depends on the stack it runs on. -/

variable (levels : Nat)

def topValue : ParserM Value := value o l levels

def topStructure : Structure → ParserM Value
  | .array => array o l (value o l (levels - 1))
  | .object => object o l (value o l (levels - 1))

def document (size : Nat) : ParserM Value := do
  reset
  checkLimit l .inputSize size 0
  let value ← topValue o l levels
  atCursor Cursor.skipBlanks
  let s ← get
  if s.atEnd then return value else fail .trailingData s.pos

end Parser

def parseText (o : Options) (l : Limits) (levels : Nat) (text : List Byte) :
    Except Failure Value :=
  match Parser.document o l levels text.length (.start text) with
  | .ok value _ => .ok value
  | .error failure _ => .error failure

end LocatedJson
