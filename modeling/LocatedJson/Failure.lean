import LocatedJson.Settings
import LocatedJson.Token

/-! Why a document is refused. A cause carries what its message tells; a failure adds the offset
of the offending byte. -/
namespace LocatedJson

inductive DigitPlace where
  | integer
  | fraction
  | exponent
  deriving DecidableEq, Repr

def DigitPlace.description : DigitPlace → String
  | integer => "in number"
  | fraction => "after decimal point"
  | exponent => "in exponent"

inductive Structure where
  | object
  | array
  deriving DecidableEq, Repr

def Structure.description : Structure → String
  | object => "object"
  | array => "array"

inductive Wanted where
  | value
  | key
  | colon
  | memberEnd
  | elementEnd
  deriving DecidableEq, Repr

def Wanted.description : Wanted → String
  | value => "value"
  | key => "string for object key"
  | colon => "':' after object key"
  | memberEnd => "',' or '\x7d' after object member"
  | elementEnd => "',' or ']' after array element"

inductive Cause where
  | unexpectedCharacter (found : Byte)
  | invalidLiteral
  | notEnabled (relaxation : Relaxation)
  | unterminatedString
  | controlCharacter (found : Byte)
  | invalidUtf8
  | invalidEscape (found : Byte)
  | expectedHexDigit (found : Byte)
  | unpairedLowSurrogate
  | unpairedHighSurrogate
  | leadingZero
  | expectedDigit (place : DigitPlace) (found : Option Byte)
  | integerTooLong
  | missingValue
  | unterminated (inside : Structure)
  | unexpectedToken (wanted : Wanted) (found : Token.Kind)
  | trailingData
  | limitExceeded (measure : Measure) (actual limit : Nat)
  | recursionExhausted (depth : Nat)
  deriving DecidableEq, Repr

namespace Cause

def notEnabledMessage (r : Relaxation) : String :=
  let what := match r with
    | .infinityAndNan => "Infinity and NaN are not allowed"
    | .explicitPlus => "explicit '+' sign in number is not allowed"
    | .singleQuotes => "single-quoted strings are not allowed"
    | .leadingDot => "number must not start with '.'"
  what ++ " (enable " ++ r.name ++ ")"

def message : Cause → String
  | unexpectedCharacter b => "unexpected character " ++ b.describe
  | invalidLiteral => "invalid literal, expected 'true', 'false' or 'null'"
  | notEnabled r => notEnabledMessage r
  | unterminatedString => "unterminated string"
  | controlCharacter b => "control character " ++ b.describe ++ " in string"
  | invalidUtf8 => "invalid UTF-8 in string"
  | invalidEscape b => "invalid escape sequence " ++ b.describe ++ " after '\\'"
  | expectedHexDigit b =>
    "invalid \\u escape sequence: expected hex digit, found " ++ b.describe
  | unpairedLowSurrogate => "unpaired low surrogate in \\u escape"
  | unpairedHighSurrogate => "high surrogate must be followed by a \\u low surrogate escape"
  | leadingZero => "invalid number: leading zeros are not allowed"
  | expectedDigit place (some b) =>
    "invalid number: expected digit " ++ place.description ++ ", found " ++ b.describe
  | expectedDigit place none =>
    "unexpected end of input, expected digit " ++ place.description
  | integerTooLong => "invalid number: integer literal too long"
  | missingValue => "unexpected end of input, expected value"
  | unterminated s => "unterminated " ++ s.description
  | unexpectedToken wanted found =>
    "expected " ++ wanted.description ++ ", found " ++ found.describe
  | trailingData => "unexpected trailing data after JSON value"
  | limitExceeded measure actual limit =>
    measure.description ++ " " ++ toString actual ++ " exceeds limit " ++ toString limit
  | recursionExhausted depth =>
    "nesting depth " ++ toString depth ++ " exceeds the interpreter recursion limit"

end Cause

inductive FailureKind where
  | grammar
  | limit
  deriving DecidableEq, Repr

def Cause.kind : Cause → FailureKind
  | .limitExceeded .. | .recursionExhausted _ => .limit
  | _ => .grammar

structure Failure where
  cause : Cause
  offset : Nat
  deriving DecidableEq, Repr

def Limits.violation? (l : Limits) (measure : Measure) (n : Nat) : Option Cause :=
  (l.broken? measure n).map (Cause.limitExceeded measure n)

/-- The depth after opening one more structure, counted even if it is one too many, and the
cause to refuse it. -/
def Limits.deeper (l : Limits) (depth : Nat) : Nat × Option Cause :=
  (depth + 1, l.violation? .nestingDepth (depth + 1))

end LocatedJson
