import LocatedJson.Proofs.Parsing.Steps

/-! Parsing with errors that are made where they are raised. Lexer, parser and validator make them
in the midst of a parse, each in the way it has been given. -/
namespace LocatedJson

/-- How errors are made: the lexer makes those of the grammar, the validator those of limits. -/
structure Routes (ε : Type) where
  lexer : Cause → Nat → ε
  validator : Cause → Nat → ε

namespace Routes

variable {ε α σ : Type} (e : Routes ε) (o : Options) (l : Limits)

def parser (cause : Cause) (token : Token) : ε := e.lexer cause token.offset

def validate (measure : Measure) (n offset : Nat) : EStateM ε σ Unit :=
  match l.violation? measure n with
  | some cause => throw (e.validator cause offset)
  | none => return

def read (scan : Scan α) : EStateM ε Cursor α := fun c =>
  match scan c.rest with
  | .ok (a, n) => .ok a (c.advance n)
  | .error f => .error (e.lexer f.cause (c.pos + f.offset)) (c.advance f.stop)

def readString (quote : Byte) : EStateM ε Cursor String := do
  let start ← get
  if !StringLiteral.admits o quote then throw (e.lexer (.notEnabled .singleQuotes) start.pos)
  else
    modify (·.advance 1)
    let text ← e.read (StringLiteral.scanBody quote)
    e.validate l .stringLength text.length start.pos
    return String.ofList text

def readNumber : EStateM ε Cursor Number := do
  let start ← get
  match SpecialNumber.ofFront? start.rest with
  | some special =>
    if o.infinityAndNan then
      modify (·.advance special.spelling.length)
      return special.toNumber
    else throw (e.lexer (.notEnabled .infinityAndNan) start.pos)
  | none =>
    let numeral ← e.read (Numeral.scan o)
    let stop ← get
    e.validate l .numberLength (stop.pos - start.pos) start.pos
    if numeral.isInteger && Numeral.maxIntegerDigits < numeral.whole.length then
      throw (e.lexer .integerTooLong start.pos)
    else return numeral.toNumber

def readToken : EStateM ε Cursor Token.Kind := do
  let start ← get
  match start.rest with
  | [] => return .eof
  | b :: _ =>
    match Mark.ofByte? b with
    | some m =>
      modify (·.advance 1)
      return .mark m
    | none =>
      if b = Byte.quote || b = Byte.apostrophe then .string <$> e.readString o l b
      else if startsNumber b start.rest then .number <$> e.readNumber o l
      else if startsWord b then e.read Token.Kind.scanWord
      else throw (e.lexer (.unexpectedCharacter b) start.pos)

def nextToken : EStateM ε Cursor Token := do
  modify Cursor.skipped
  let start ← get
  let kind ← e.readToken o l
  return ⟨kind, start.pos⟩

open Structure (Tag Entry)

def atCursor (work : EStateM ε Cursor α) : EStateM ε Parser.State α := fun s =>
  match work s.toCursor with
  | .ok a c => .ok a { s with toCursor := c }
  | .error x c => .error x { s with toCursor := c }

def current : EStateM ε Parser.State Token := do
  match (← get).ahead with
  | some token => return token
  | none =>
    let token ← atCursor (e.nextToken o l)
    modify fun s => { s with ahead := some token }
    return token

def advance : EStateM ε Parser.State Token := do
  let token ← e.current o l
  modify fun s => { s with ahead := none }
  return token

def enter (offset : Nat) : EStateM ε Parser.State Unit := do
  let s ← get
  modify fun s' => { s' with depth := s.depth + 1 }
  e.validate l .nestingDepth (s.depth + 1) offset

def leave : EStateM ε Parser.State Unit := modify fun s => { s with depth := s.depth - 1 }

def unexpected (token : Token) (wanted : Wanted) (inside : Structure) :
    EStateM ε Parser.State α :=
  match token.kind with
  | .eof => throw (e.parser (.unterminated inside) token)
  | kind => throw (e.parser (.unexpectedToken wanted kind) token)

def lead : (s : Structure) → EStateM ε Parser.State (Tag s)
  | .array => do
    let token ← e.current o l
    if token.kind = .eof then throw (e.parser (.unterminated .array) token) else return ()
  | .object => do
    let token ← e.current o l
    match token.kind with
    | .string key =>
      discard (e.advance o l)
      let colon ← e.current o l
      if colon.kind = .mark .colon then
        discard (e.advance o l)
        return key
      else e.unexpected colon .colon .object
    | _ => e.unexpected token .key .object

def items (s : Structure) (item : EStateM ε Parser.State Value) :
    Nat → EStateM ε Parser.State (List (Entry s))
  | 0 => do throw (e.lexer (.unterminated s) (← get).pos)
  | bound + 1 => do
    let tag ← e.lead o l s
    let value ← item
    let separator ← e.advance o l
    if separator.kind = .mark .comma then
      let more ← items s item bound
      return s.entry tag value :: more
    else if separator.kind = .mark s.closing then return [s.entry tag value]
    else e.unexpected separator (Parser.separatorOf s) s

def structured (s : Structure) (item : EStateM ε Parser.State Value) :
    EStateM ε Parser.State Value := do
  let opening ← e.advance o l
  e.enter l opening.offset
  let first ← e.current o l
  if first.kind = .mark s.closing then
    discard (e.advance o l)
    leave
    return s.build []
  else
    let here ← get
    let value ← s.build <$> e.items o l s item (here.rest.length + 1)
    leave
    return value

/-- Where the stack gives out, the validator tells of it. -/
def exhausted : EStateM ε Parser.State Value := do
  let opening ← e.advance o l
  e.enter l opening.offset
  let s ← get
  throw (e.validator (.recursionExhausted s.depth) s.pos)

def valueWith (inner : Structure → EStateM ε Parser.State Value) :
    EStateM ε Parser.State Value := do
  let token ← e.current o l
  let scalar (value : Value) : EStateM ε Parser.State Value := do
    discard (e.advance o l)
    return value
  match token.kind with
  | .string s => scalar (.string s)
  | .number n => scalar (.number n)
  | .bool b => scalar (.bool b)
  | .null => scalar .null
  | .mark .openBrace => inner .object
  | .mark .openBracket => inner .array
  | .eof => throw (e.parser .missingValue token)
  | kind => throw (e.parser (.unexpectedToken .value kind) token)

def value : Nat → EStateM ε Parser.State Value
  | 0 => e.valueWith o l fun _ => e.exhausted o l
  | levels + 1 => e.valueWith o l fun s => e.structured o l s (value levels)

def document (levels size : Nat) : EStateM ε Parser.State Value := do
  modify fun s => { s with depth := 0 }
  e.validate l .inputSize size 0
  let value ← e.value o l levels
  modify fun s => { s with toCursor := s.skipped }
  let s ← get
  if s.atEnd then return value else throw (e.lexer .trailingData s.pos)

def parse (levels : Nat) (text : List Byte) : Except ε Value :=
  match e.document o l levels text.length (.start text) with
  | .ok value _ => .ok value
  | .error x _ => .error x

end Routes

end LocatedJson
