import LocatedJson.Token.Numeral
import LocatedJson.Token.StringLiteral

/-! From bytes to tokens. The lexer keeps nothing but its place in the input. -/
namespace LocatedJson

def Token.Kind.words : List (List Byte × Token.Kind) :=
  [(Byte.ascii ['t', 'r', 'u', 'e'], .bool true),
   (Byte.ascii ['f', 'a', 'l', 's', 'e'], .bool false),
   (Byte.ascii ['n', 'u', 'l', 'l'], .null)]

def Token.Kind.scanWord : Scan Token.Kind := fun bytes =>
  match words.find? fun w => w.1.isPrefixOf bytes with
  | some (spelling, kind) => .ok (kind, spelling.length)
  | none => .error (.here .invalidLiteral 0)

/-- Bytes that begin a number in any of its forms. -/
def startsNumber (b : Byte) (bytes : List Byte) : Bool :=
  b.isDigit || b == Byte.minus || b == Byte.plus || b == Byte.dot ||
    (SpecialNumber.ofFront? bytes).isSome

def startsWord (b : Byte) : Bool := b == 0x74 || b == 0x66 || b == 0x6e

def Token.Kind.scan (o : Options) (l : Limits) : Scan Token.Kind := fun bytes =>
  match bytes with
  | [] => .ok (.eof, 0)
  | b :: rest =>
    match Mark.ofByte? b with
    | some m => .ok (.mark m, 1)
    | none =>
      if b = Byte.quote || b = Byte.apostrophe then
        (StringLiteral.scan o l b rest).map fun (s, n) => (.string s, n)
      else if startsNumber b bytes then
        (Number.scan o l bytes).map fun (x, n) => (.number x, n)
      else if startsWord b then scanWord bytes
      else .error (.here (.unexpectedCharacter b) 0)

structure Cursor where
  pos : Nat
  rest : List Byte
  deriving DecidableEq, Repr

abbrev CursorM := EStateM Failure Cursor

namespace Cursor

def start (text : List Byte) : Cursor := ⟨0, text⟩

def advance (c : Cursor) (n : Nat) : Cursor := ⟨c.pos + n, c.rest.drop n⟩

def atEnd (c : Cursor) : Bool := c.rest.isEmpty

def read {α : Type} (scan : Scan α) : CursorM α := fun c =>
  match scan c.rest with
  | .ok (a, n) => .ok a (c.advance n)
  | .error f => .error ⟨f.cause, c.pos + f.offset⟩ (c.advance f.stop)

def skipBlanks : CursorM Unit := fun c =>
  .ok () (c.advance (c.rest.takeWhile Byte.isBlank).length)

def nextToken (o : Options) (l : Limits) : CursorM Token := do
  skipBlanks
  let offset := (← get).pos
  let kind ← read (Token.Kind.scan o l)
  return { kind, offset }

end Cursor

/-- A lexed text: its tokens up to and including the end of input, or up to the first failure,
and where lexing ended. -/
structure Tokens where
  found : List Token
  failure : Option Failure
  last : Cursor
  deriving DecidableEq, Repr

/-- Every token but the last takes a byte, which bounds their number. -/
def tokensWithin (o : Options) (l : Limits) : Nat → Cursor → Tokens
  | 0, c => ⟨[], none, c⟩
  | bound + 1, c =>
    match Cursor.nextToken o l c with
    | .error failure c' => ⟨[], some failure, c'⟩
    | .ok token c' =>
      if token.kind = .eof then ⟨[token], none, c'⟩
      else
        let rest := tokensWithin o l bound c'
        { rest with found := token :: rest.found }

def tokens (o : Options) (l : Limits) (text : List Byte) : Tokens :=
  tokensWithin o l (text.length + 1) (.start text)

end LocatedJson
