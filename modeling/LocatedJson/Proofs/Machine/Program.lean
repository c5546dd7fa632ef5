import LocatedJson.Document
import LocatedJson.Proofs.Parsing.Steps

/-! Parsing as a machine that moves a position over a buffer. Every operation that is not defined
everywhere is asked whether it is: a byte outside the buffer, a key that a table lacks, a text that
writes no number, a code point that is no character, a loop without end, a division by zero, a
number of too many digits to write or to convert or a tab size beyond 32 bits stop the machine in a
way of their own. -/
namespace LocatedJson.Machine

inductive Trap where
  | outside
  | missingKey
  | notHexadecimal
  | notAscii
  | notANumber
  | notACharacter
  | endless
  | divisionByZero
  | overlongNumber
  | tabSizeRange
  deriving DecidableEq

/-- How a run stops early: with a located failure or in a trap. -/
inductive Halt where
  | failed (cause : Cause) (offset : Int)
  | trapped (trap : Trap)
  deriving DecidableEq

section Stopping

variable {σ α : Type}

def trap (t : Trap) : EStateM Halt σ α := throw (.trapped t)

def failAt (cause : Cause) (offset : Int) : EStateM Halt σ α := throw (.failed cause offset)

end Stopping

abbrev Run := EStateM Halt Nat

def failHere {α : Type} (cause : Cause) : Run α := do failAt cause (← get)

def step (n : Nat) : Run Unit := modify (· + n)

-- `takes` tells which numbers are converted to a binary64
variable (takes : Numeral → Bool) (c : Contents) (o : Options) (l : Limits)

/-- A slice of the buffer; slices end where the buffer does. -/
def slice (start stop : Nat) : List Byte := (c.buffer.take stop).drop start

def window (pos : Nat) : List Byte := slice c pos c.size

def byteAt (index : Nat) : Run Byte :=
  match c.buffer[index]? with
  | some b => return b
  | none => trap .outside

def peek (distance : Nat) : Run (Option Byte) := do
  let pos ← get
  if c.size ≤ pos + distance then return none
  else
    let b ← byteAt c (pos + distance)
    return some b

def passRun (inClass : Byte → Bool) : Run Nat := do
  let pos ← get
  let n := ((window c pos).takeWhile inClass).length
  step n
  return n

def specialNumbers : List (List Byte × Number) :=
  [SpecialNumber.infinity, .negativeInfinity, .nan].map fun s => (s.spelling, s.toNumber)

def lookUp {α : Type} (table : List (List Byte × α)) (key : List Byte) : Run α :=
  match table.lookup key with
  | some a => return a
  | none => trap .missingKey

def readWord : Run Token.Kind := do
  let start ← get
  match Token.Kind.words.find? fun w => w.1.isPrefixOf (window c start) with
  | none => failAt .invalidLiteral start
  | some w =>
    step w.1.length
    let stop ← get
    lookUp Token.Kind.words (slice c start stop)

section Strings

def hexadecimal (digits : List Byte) : Run Nat :=
  if digits ≠ [] ∧ digits.all Byte.isHexDigit then return Byte.hexadecimalValue digits
  else trap .notHexadecimal

def character (n : Nat) : Run Char :=
  if n.isValidChar then return Char.ofNat n else trap .notACharacter

def checkHexDigit (i : Nat) : Run Unit := do
  match ← peek c i with
  | none =>
    set c.size
    failHere .unterminatedString
  | some b =>
    let pos ← get
    if b.isHexDigit then return else failAt (.expectedHexDigit b) (pos + i : Nat)

def checkHexDigits (i : Nat) : Nat → Run Unit
  | 0 => return
  | n + 1 => do
    checkHexDigit c i
    checkHexDigits (i + 1) n

def readHexDigits : Run Nat := do
  checkHexDigits c 0 4
  let pos ← get
  let n ← hexadecimal (slice c pos (pos + 4))
  step 4
  return n

def readLowSurrogate (high : Nat) : Run Char := do
  let start ← get
  let first ← peek c 0
  let second ← peek c 1
  if first = some Byte.backslash ∧ second = some Byte.lowerU then
    step 2
    let low ← readHexDigits c
    if StringLiteral.isLowSurrogate low then character (StringLiteral.pairedCodePoint high low)
    else failAt .unpairedHighSurrogate start
  else failHere .unpairedHighSurrogate

/-- The position is behind `\u`, and the escape begins two bytes earlier. -/
def readUnicodeEscape : Run Char := do
  let pos ← get
  let escapeStart : Int := pos - 2
  let n ← readHexDigits c
  if StringLiteral.isLowSurrogate n then failAt .unpairedLowSurrogate escapeStart
  else if StringLiteral.isHighSurrogate n then readLowSurrogate c n
  else character n

def readEscape (quote : Byte) : Run Char := do
  step 1
  match ← peek c 0 with
  | none => failHere .unterminatedString
  | some b =>
    if b = Byte.lowerU then
      step 1
      readUnicodeEscape c
    else
      match StringLiteral.shortEscape? quote b with
      | some char =>
        step 1
        return char
      | none => failHere (.invalidEscape b)

/-- The rounds of the loop over a string's body, each a run of plain bytes and what ends it. -/
def readBody (quote : Byte) : Nat → Run (List Char)
  | 0 => trap .endless
  | rounds + 1 => do
    let start ← get
    discard (passRun c (StringLiteral.isPlain quote))
    let stop ← get
    match Utf8.decode (slice c start stop) with
    | .error distance => failAt .invalidUtf8 (start + distance : Nat)
    | .ok text =>
      if c.size ≤ stop then failHere .unterminatedString
      else
        let b ← byteAt c stop
        if b = quote then
          step 1
          return text
        else if b = Byte.backslash then
          let char ← readEscape c quote
          let more ← readBody quote rounds
          return text ++ char :: more
        else failHere (.controlCharacter b)

def readString : Run String := do
  let start ← get
  let quote ← byteAt c start
  if quote = Byte.apostrophe && !o.singleQuotes then failAt (.notEnabled .singleQuotes) start
  else
    step 1
    let text ← readBody c quote (c.size + 1)
    match l.violation? .stringLength text.length with
    | some cause => failAt cause start
    | none => return String.ofList text

end Strings

section Numbers

def passDigits (place : DigitPlace) : Run Unit := do
  let n ← passRun c Byte.isDigit
  if n = 0 then
    let found ← peek c 0
    failHere (.expectedDigit place found)
  else return

def passSign : Run Unit := do
  let found ← peek c 0
  if found = some Byte.minus then step 1
  else if found = some Byte.plus then
    if o.explicitPlus then step 1 else failHere (.notEnabled .explicitPlus)
  else return

def passWhole : Run Unit := do
  let found ← peek c 0
  if found = some Byte.zero then
    step 1
    let next ← peek c 0
    if next.any Byte.isDigit then failHere .leadingZero else return
  else if found = some Byte.dot then
    if o.leadingDot then return else failHere (.notEnabled .leadingDot)
  else passDigits c .integer

def passFraction : Run Bool := do
  let found ← peek c 0
  if found = some Byte.dot then
    step 1
    passDigits c .fraction
    return true
  else return false

def passEitherSign : Run Unit := do
  let found ← peek c 0
  if found = some Byte.minus ∨ found = some Byte.plus then step 1 else return

def passExponent : Run Bool := do
  let found ← peek c 0
  if found.any Byte.isExponentMark then
    step 1
    passEitherSign c
    passDigits c .exponent
    return true
  else return false

def passNumber : Run Bool := do
  passSign c o
  passWhole c o
  let hasFraction ← passFraction c
  let hasExponent ← passExponent c
  return hasFraction || hasExponent

def asciiText (bytes : List Byte) : Run (List Byte) :=
  if bytes.all (· < 0x80) then return bytes else trap .notAscii

/-- The binary64 that a text writes, if the conversion takes so many digits. -/
def float (text : List Byte) : Run Number :=
  match Numeral.ofText? text with
  | some n => if takes n then return .float n.toBinary64 else trap .notANumber
  | none => trap .notANumber

/-- The integer that a text writes, unless it is too long to be converted. -/
def integer (text : List Byte) (start : Nat) : Run Number :=
  match Numeral.ofText? text with
  | none => trap .notANumber
  | some n =>
    if !n.isInteger then trap .notANumber
    else if Numeral.maxIntegerDigits < n.whole.length then failAt .integerTooLong start
    else return n.toNumber

def readNumber : Run Number := do
  let start ← get
  match SpecialNumber.ofFront? (window c start) with
  | some special =>
    if o.infinityAndNan then
      step special.spelling.length
      let stop ← get
      lookUp specialNumbers (slice c start stop)
    else failAt (.notEnabled .infinityAndNan) start
  | none =>
    let isFloat ← passNumber c o
    let stop ← get
    match l.violation? .numberLength (stop - start) with
    | some cause => failAt cause start
    | none =>
      let text ← asciiText (slice c start stop)
      if isFloat then float takes text else integer text start

end Numbers

def readToken : Run Token := do
  let start ← get
  if c.size ≤ start then return ⟨.eof, start⟩
  else
    let b ← byteAt c start
    match Mark.ofByte? b with
    | some m =>
      step 1
      return ⟨.mark m, start⟩
    | none =>
      if b = Byte.quote || b = Byte.apostrophe then
        let s ← readString c o l
        return ⟨.string s, start⟩
      else if startsNumber b (window c start) then
        let n ← readNumber takes c o l
        return ⟨.number n, start⟩
      else if startsWord b then
        let kind ← readWord c
        return ⟨kind, start⟩
      else failAt (.unexpectedCharacter b) start

def nextToken : Run Token := do
  discard (passRun c Byte.isBlank)
  readToken takes c o l

/-- What a parse keeps: its position, the token looked at and the number of open structures. -/
structure Stage where
  pos : Nat := 0
  ahead : Option Token := none
  depth : Nat := 0

abbrev Reading := EStateM Halt Stage

section Values

open Grammar Structure

def atPosition {α : Type} (work : Run α) : Reading α := fun st =>
  match work st.pos with
  | .ok a pos => .ok a { st with pos }
  | .error halt pos => .error halt { st with pos }

def current : Reading Token := do
  match (← get).ahead with
  | some token => return token
  | none =>
    let token ← atPosition (nextToken takes c o l)
    modify fun st => { st with ahead := some token }
    return token

def advance : Reading Token := do
  let token ← current takes c o l
  modify fun st => { st with ahead := none }
  return token

def enter (offset : Nat) : Reading Unit := do
  let depth := (← get).depth + 1
  modify fun st => { st with depth }
  match l.violation? .nestingDepth depth with
  | some cause => failAt cause offset
  | none => return

def leave : Reading Unit := modify fun st => { st with depth := st.depth - 1 }

def unexpected {α : Type} (token : Token) (wanted : Wanted) (inside : Structure) : Reading α :=
  if token.kind = .eof then failAt (.unterminated inside) token.offset
  else failAt (.unexpectedToken wanted token.kind) token.offset

def lead : (s : Structure) → Reading (Tag s)
  | .array => do
    let token ← current takes c o l
    if token.kind = .eof then failAt (.unterminated .array) token.offset else return ()
  | .object => do
    let token ← current takes c o l
    match token.kind with
    | .string key =>
      discard (advance takes c o l)
      let colon ← current takes c o l
      if colon.kind = .mark .colon then
        discard (advance takes c o l)
        return key
      else unexpected colon .colon .object
    | _ => unexpected token .key .object

/-- The rounds of the loop over a structure, each an item and the token behind it. -/
def items (s : Structure) (item : Reading Value) : Nat → Reading (List (Entry s))
  | 0 => trap .endless
  | rounds + 1 => do
    let tag ← lead takes c o l s
    let value ← item
    let separator ← advance takes c o l
    if separator.kind = .mark .comma then
      let more ← items s item rounds
      return s.entry tag value :: more
    else if separator.kind = .mark s.closing then return [s.entry tag value]
    else unexpected separator (Parser.separatorOf s) s

def structured (s : Structure) (item : Reading Value) : Reading Value := do
  let opening ← advance takes c o l
  enter l opening.offset
  let first ← current takes c o l
  if first.kind = .mark s.closing then
    discard (advance takes c o l)
    leave
    return s.build []
  else
    let entries ← items takes c o l s item (c.size + 1)
    leave
    return s.build entries

def exhausted : Reading Value := do
  let opening ← advance takes c o l
  enter l opening.offset
  let st ← get
  failAt (.recursionExhausted st.depth) st.pos

def valueWith (inner : Structure → Reading Value) : Reading Value := do
  let token ← current takes c o l
  let scalar (value : Value) : Reading Value := do
    discard (advance takes c o l)
    return value
  match token.kind with
  | .string s => scalar (.string s)
  | .number n => scalar (.number n)
  | .bool b => scalar (.bool b)
  | .null => scalar .null
  | .mark .openBrace => inner .object
  | .mark .openBracket => inner .array
  | .eof => failAt .missingValue token.offset
  | kind => failAt (.unexpectedToken .value kind) token.offset

def value : Nat → Reading Value
  | 0 => valueWith takes c o l fun _ => exhausted takes c o l
  | levels + 1 => valueWith takes c o l fun s => structured takes c o l s (value levels)

def document (levels : Nat) : Reading Value := do
  match l.violation? .inputSize c.size with
  | some cause => failAt cause (0 : Nat)
  | none =>
    let value ← value takes c o l levels
    discard (atPosition (passRun c Byte.isBlank))
    let st ← get
    if c.size ≤ st.pos then return value else failAt .trailingData st.pos

end Values

section Rendering

def startOf (line : Nat) : Except Trap Nat :=
  if line = 0 then return 0
  else
    match c.starts[line - 1]? with
    | some start => return start
    | none => throw .outside

def endOf (line : Nat) : Except Trap Nat :=
  if line < c.starts.size then
    match c.starts[line]? with
    | some start => return start
    | none => throw .outside
  else return c.size

def nextColumn (tabSize column : Int) (b : Byte) : Except Trap Int :=
  if b = Byte.tab then
    if tabSize = 0 then throw .divisionByZero else return (column.fdiv tabSize + 1) * tabSize
  else return column + 1

def position (tabSize index : Int) : Except Trap Position := do
  let index := min index c.size
  let line := c.lineOf index
  let start ← startOf c line
  let column ← (Bytes.slice c.buffer start index).foldlM (nextColumn tabSize) 0
  return ⟨line, column⟩

def lineText (line : Nat) : Except Trap (List Char) := do
  let start ← startOf c line
  let stop ← endOf c line
  return Text.trimLineEnd (Utf8.decodeReplacing (Bytes.slice c.buffer start stop))

def written (n : Int) : Except Trap String :=
  if 4300 < (Nat.digits 10 n.natAbs).length then throw .overlongNumber else return toString n

def place (name : String) (tabSize index : Int) : Except Trap String := do
  let p ← position c tabSize index
  let line ← written (p.line + 1)
  let column ← written (p.column + 1)
  return name ++ ":" ++ (line ++ ":" ++ column)

def expandTabs (tabSize : Int) (text : List Char) : Except Trap (List Char) :=
  if Text.isTabSize tabSize then return Text.expandTabs tabSize text else throw .tabSizeRange

def excerpt (tabSize index : Int) : Except Trap Excerpt := do
  let line := c.lineOf index
  let start ← startOf c line
  let text ← lineText c line
  let shown ← expandTabs tabSize text
  let front := Bytes.slice c.buffer start (max (start : Int) (min index c.size))
  let before ← expandTabs tabSize (Text.trimLineEnd (Utf8.decodeReplacing front))
  return { line := shown, caret := before.length }

def report (name : String) (r : Reporting) (cause : Cause) (offset : Int) :
    Except Trap Report := do
  let place ← place c name r.tabSize.val offset
  let excerpt ← (if r.withExcerpt then some <$> excerpt c r.tabSize.val offset else pure none)
  return { kind := cause.kind, text := cause.message, offset
           message := place ++ ": " ++ cause.message, excerpt }

end Rendering

inductive Outcome where
  | value (v : Value)
  | failed (cause : Cause) (offset : Int) (report : Report)
  | trapped (t : Trap)

/-- The conversion to a binary64 takes this many digits, those behind the point and those from the
first on that is not zero. -/
def convertible (n : Numeral) : Bool :=
  let fraction := n.fraction.getD []
  ((n.whole ++ fraction).dropWhile (· == Byte.zero)).length ≤ 10 ^ 9 && fraction.length ≤ 10 ^ 9

def parseTaking (name : String) (levels : Nat) (config : Config) : Outcome :=
  match document takes c config.options config.limits levels {} with
  | .ok v _ => .value v
  | .error (.trapped t) _ => .trapped t
  | .error (.failed cause offset) _ =>
    match report c name config.reporting cause offset with
    | .ok r => .failed cause offset r
    | .error t => .trapped t

/-- Every number is converted, however many digits it has. -/
def parse (name : String) (levels : Nat) (config : Config) : Outcome :=
  parseTaking (fun _ => true) c name levels config

end LocatedJson.Machine
