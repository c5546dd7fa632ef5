import LocatedJson.Token.Scan

/-! Numerals: how numbers are written and which number each writing means. -/
namespace LocatedJson

structure Numeral where
  negative : Bool
  whole : List Byte
  fraction : Option (List Byte)
  exponent : Option (Bool × List Byte)
  deriving DecidableEq, Repr

namespace Numeral

def isInteger (n : Numeral) : Bool := n.fraction.isNone && n.exponent.isNone

def significand (n : Numeral) : Nat := Byte.decimalValue (n.whole ++ n.fraction.getD [])

def writtenExponent (n : Numeral) : Int :=
  match n.exponent with
  | none => 0
  | some (true, digits) => -(Byte.decimalValue digits : Int)
  | some (false, digits) => Byte.decimalValue digits

def scale (n : Numeral) : Int := n.writtenExponent - (n.fraction.getD []).length

def toBinary64 (n : Numeral) : Binary64 := .ofDecimal n.negative n.significand n.scale

def toNumber (n : Numeral) : Number :=
  if n.isInteger then
    .int (if n.negative then -(n.significand : Int) else n.significand)
  else .float n.toBinary64

def maxIntegerDigits : Nat := 4300

def scanDigits (place : DigitPlace) : Scan (List Byte) := do
  let digits ← Scan.run Byte.isDigit
  if digits.isEmpty then
    let found ← Scan.peek
    Scan.fail (.expectedDigit place found)
  else return digits

/-- Whether a minus sign stands here; a plus sign is passed over where it is admitted. -/
def scanSign (o : Options) : Scan Bool := do
  match ← Scan.peek with
  | some Byte.minus => Scan.skip 1; return true
  | some Byte.plus =>
    if o.explicitPlus then
      Scan.skip 1
      return false
    else Scan.fail (.notEnabled .explicitPlus)
  | _ => return false

/-- The digits before the point: no leading zero, and none at all only before an admitted
point. -/
def scanWhole (o : Options) : Scan (List Byte) := do
  match ← Scan.peek with
  | some Byte.zero =>
    Scan.skip 1
    let next ← Scan.peek
    if next.any Byte.isDigit then Scan.fail .leadingZero else return [Byte.zero]
  | some Byte.dot =>
    if o.leadingDot then return [] else Scan.fail (.notEnabled .leadingDot)
  | _ => scanDigits .integer

def scanFraction : Scan (Option (List Byte)) := do
  match ← Scan.peek with
  | some Byte.dot =>
    Scan.skip 1
    let digits ← scanDigits .fraction
    return some digits
  | _ => return none

def scanEitherSign : Scan Bool := do
  match ← Scan.peek with
  | some Byte.minus => Scan.skip 1; return true
  | some Byte.plus => Scan.skip 1; return false
  | _ => return false

def scanExponent : Scan (Option (Bool × List Byte)) := do
  let next ← Scan.peek
  if next.any Byte.isExponentMark then
    Scan.skip 1
    let negative ← scanEitherSign
    let digits ← scanDigits .exponent
    return some (negative, digits)
  else return none

def scan (o : Options) : Scan Numeral := do
  let negative ← scanSign o
  let whole ← scanWhole o
  let fraction ← scanFraction
  let exponent ← scanExponent
  return { negative, whole, fraction, exponent }

def scanLooseFraction : Scan (Option (List Byte)) := do
  match ← Scan.peek with
  | some Byte.dot =>
    Scan.skip 1
    let digits ← Scan.run Byte.isDigit
    return some digits
  | _ => return none

def scanLoose : Scan Numeral := do
  let negative ← scanEitherSign
  let whole ← Scan.run Byte.isDigit
  let fraction ← scanLooseFraction
  let exponent ← scanExponent
  return { negative, whole, fraction, exponent }

/-- The numeral that a whole text writes, read more freely than the grammar does; there has to
be one digit before the exponent. -/
def ofText? (text : List Byte) : Option Numeral :=
  match scanLoose text with
  | .error _ => none
  | .ok (numeral, n) =>
    if n = text.length && !(numeral.whole ++ numeral.fraction.getD []).isEmpty then some numeral
    else none

end Numeral

inductive SpecialNumber where
  | infinity
  | negativeInfinity
  | nan
  deriving DecidableEq, Repr

namespace SpecialNumber

def spelling : SpecialNumber → List Byte
  | infinity => Byte.ascii ['I', 'n', 'f', 'i', 'n', 'i', 't', 'y']
  | negativeInfinity => Byte.ascii ['-', 'I', 'n', 'f', 'i', 'n', 'i', 't', 'y']
  | nan => Byte.ascii ['N', 'a', 'N']

def toNumber : SpecialNumber → Number
  | infinity => .float (.infinity false)
  | negativeInfinity => .float (.infinity true)
  | nan => .float .nan

def ofFront? (bytes : List Byte) : Option SpecialNumber :=
  [infinity, negativeInfinity, nan].find? fun s => s.spelling.isPrefixOf bytes

end SpecialNumber

/-- Reads a number at any byte. Special numbers are known before their admission is asked and
have no length to bound; the length limit comes before the bound on integer digits. -/
def Number.scan (o : Options) (l : Limits) : Scan Number := fun bytes =>
  match SpecialNumber.ofFront? bytes with
  | some special =>
    if o.infinityAndNan then .ok (special.toNumber, special.spelling.length)
    else .error (.here (.notEnabled .infinityAndNan) 0)
  | none =>
    match Numeral.scan o bytes with
    | .error f => .error f
    | .ok (numeral, n) =>
      match l.violation? .numberLength n with
      | some cause => .error ⟨cause, 0, n⟩
      | none =>
        if numeral.isInteger && Numeral.maxIntegerDigits < numeral.whole.length then
          .error ⟨.integerTooLong, 0, n⟩
        else .ok (numeral.toNumber, n)

end LocatedJson
