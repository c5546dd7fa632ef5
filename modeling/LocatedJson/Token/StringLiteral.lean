import LocatedJson.Token.Scan
import LocatedJson.Utf8

/-! String literals. The body is read in runs of plain bytes, each decoded as a whole, with an
escape between one run and the next. -/
namespace LocatedJson.StringLiteral

/-- The bytes that stand for themselves between quotes of this kind. Any byte may serve as a
quote; all but the double quote share one class. -/
def isPlain (quote b : Byte) : Bool :=
  b != Byte.backslash && !b.isControl &&
    b != (if quote = Byte.quote then Byte.quote else Byte.apostrophe)

def shortEscape? (quote b : Byte) : Option Char :=
  if b = 0x6e then some '\n'
  else if b = 0x74 then some '\t'
  else if b = 0x72 then some '\r'
  else if b = 0x62 then some '\x08'
  else if b = 0x66 then some '\x0c'
  else if b = Byte.quote then some '\x22'
  else if b = Byte.backslash then some '\\'
  else if b = 0x2f then some '/'
  else if b = Byte.apostrophe && quote = Byte.apostrophe then some '\x27'
  else none

def isHighSurrogate (n : Nat) : Bool := 0xd800 ≤ n && n ≤ 0xdbff

def isLowSurrogate (n : Nat) : Bool := 0xdc00 ≤ n && n ≤ 0xdfff

def pairedCodePoint (high low : Nat) : Nat :=
  0x10000 + (high - 0xd800) * 0x400 + (low - 0xdc00)

/-- Four hexadecimal digits. A wrong digit leaves reading at the first of them, the end of
input does not. -/
def scanHexDigits : Scan Nat := fun bytes =>
  let digits := (bytes.take 4).takeWhile Byte.isHexDigit
  if digits.length = 4 then .ok (Byte.hexadecimalValue digits, 4)
  else
    match bytes.drop digits.length with
    | [] => .error (.here .unterminatedString digits.length)
    | b :: _ => .error ⟨.expectedHexDigit b, digits.length, 0⟩

def scanLowSurrogate (high : Nat) : Scan Char := fun bytes =>
  match bytes with
  | Byte.backslash :: Byte.lowerU :: rest =>
    match scanHexDigits rest with
    | .error f => .error (f.shift 2)
    | .ok (low, n) =>
      if isLowSurrogate low then .ok (Char.ofNat (pairedCodePoint high low), 2 + n)
      else .error ⟨.unpairedHighSurrogate, 0, 2 + n⟩
  | _ => .error (.here .unpairedHighSurrogate 0)

/-- Reads the escape whose backslash stands before these bytes; distances count from the
backslash. -/
def scanEscape (quote : Byte) : Scan Char := fun bytes =>
  match bytes with
  | [] => .error (.here .unterminatedString 1)
  | Byte.lowerU :: rest =>
    match scanHexDigits rest with
    | .error f => .error (f.shift 2)
    | .ok (n, width) =>
      if isLowSurrogate n then .error ⟨.unpairedLowSurrogate, 0, 2 + width⟩
      else if isHighSurrogate n then
        match scanLowSurrogate n (rest.drop width) with
        | .error f => .error (f.shift (2 + width))
        | .ok (c, m) => .ok (c, 2 + width + m)
      else .ok (Char.ofNat n, 2 + width)
  | b :: _ =>
    match shortEscape? quote b with
    | some c => .ok (c, 2)
    | none => .error (.here (.invalidEscape b) 1)

def scanBody (quote : Byte) (bytes : List Byte) : Scanned (List Char) :=
  let run := bytes.takeWhile (isPlain quote)
  match Utf8.decode run with
  | .error offset => .error ⟨.invalidUtf8, offset, 0⟩
  | .ok text =>
    match _h : bytes.drop run.length with
    | [] => .error (.here .unterminatedString run.length)
    | b :: rest =>
      if b = quote then .ok (text, run.length + 1)
      else if b = Byte.backslash then
        match scanEscape quote rest with
        | .error f => .error (f.shift run.length)
        | .ok (c, width) =>
          match scanBody quote (rest.drop (width - 1)) with
          | .error f => .error (f.shift (run.length + width))
          | .ok (more, n) => .ok (text ++ c :: more, run.length + width + n)
      else .error (.here (.controlCharacter b) run.length)
termination_by bytes.length
decreasing_by
  have := congrArg List.length _h
  simp only [List.length_drop, List.length_cons] at this ⊢
  omega

def admits (o : Options) (quote : Byte) : Bool := quote != Byte.apostrophe || o.singleQuotes

/-- Reads the literal that `quote` opens, given the bytes behind the quote; distances count
from the quote. -/
def scan (o : Options) (l : Limits) (quote : Byte) : Scan String := fun bytes =>
  if !admits o quote then .error (.here (.notEnabled .singleQuotes) 0)
  else
    match scanBody quote bytes with
    | .error f => .error (f.shift 1)
    | .ok (text, n) =>
      match l.violation? .stringLength text.length with
      | some cause => .error ⟨cause, 0, 1 + n⟩
      | none => .ok (String.ofList text, 1 + n)

end LocatedJson.StringLiteral
