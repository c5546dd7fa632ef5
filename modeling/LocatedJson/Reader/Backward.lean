import LocatedJson.Reader

/-! Numbers that begin at a negative position. Single bytes are looked up from the end of the
buffer, and the byte after its last one is its first. A run of digits is read in the text and
leaves a position counted from the front, so that from a negative position it always moves. -/
namespace LocatedJson.Reader

def refuse {α : Type} (cause : Cause) : ReaderM α := do
  let r ← get
  throw (.rejected cause r.pos)

def look : ReaderM (Option Byte) := do
  let r ← get
  match r.peek 0 with
  | .byte b => return some b
  | .endOfText => return none
  | .outside => throw .outside

def step : ReaderM Unit := modify fun r => r.seek (r.pos + 1)

def passDigits : ReaderM Bool := do
  let r ← get
  let stop : Int := r.origin + (r.ahead.takeWhile Byte.isDigit).length
  set (r.seek stop)
  return r.pos < stop

def passSomeDigits (place : DigitPlace) : ReaderM Unit := do
  let moved ← passDigits
  if !moved then
    let found ← look
    refuse (.expectedDigit place found)

def passSign : ReaderM Unit := do
  match ← look with
  | some Byte.minus => step
  | some Byte.plus =>
    let r ← get
    if r.options.explicitPlus then step else refuse (.notEnabled .explicitPlus)
  | _ => return

def passWhole : ReaderM Unit := do
  match ← look with
  | some Byte.zero =>
    step
    let next ← look
    if next.any Byte.isDigit then refuse .leadingZero
  | some Byte.dot =>
    let r ← get
    if !r.options.leadingDot then refuse (.notEnabled .leadingDot)
  | some b =>
    if b.isDigit then discard passDigits else refuse (.expectedDigit .integer (some b))
  | none => refuse (.expectedDigit .integer none)

def passFraction : ReaderM Bool := do
  match ← look with
  | some Byte.dot =>
    step
    passSomeDigits .fraction
    return true
  | _ => return false

def passExponent : ReaderM Bool := do
  let mark ← look
  if mark.any Byte.isExponentMark then
    step
    let sign ← look
    if sign == some Byte.plus || sign == some Byte.minus then step
    passSomeDigits .exponent
    return true
  else return false

/-- The number that the bytes between two positions write. An integer that is not written out
there, or with too many digits, is refused where it begins. -/
def numberBetween (start stop : Reader) (isInteger : Bool) : Except Error Number :=
  let text := Bytes.slice start.contents.buffer start.pos stop.pos
  match Numeral.ofText? text with
  | some numeral =>
    if !isInteger then .ok (.float numeral.toBinary64)
    else if Numeral.maxIntegerDigits < numeral.whole.length then
      .error (.rejected .integerTooLong start.pos)
    else .ok numeral.toNumber
  | none =>
    if isInteger then .error (.rejected .integerTooLong start.pos)
    else .error (.notANumber (String.ofList (text.map Char.ofUInt8)))

/-- Reads a number from a negative position on. Its length is how far the position has come. -/
def readNumberBackward : ReaderM Number := do
  let start ← get
  match SpecialNumber.ofFront? start.ahead with
  | some special =>
    if start.options.infinityAndNan then
      set (start.seek (start.origin + special.spelling.length))
      return special.toNumber
    else refuse (.notEnabled .infinityAndNan)
  | none =>
    passSign
    passWhole
    let fraction ← passFraction
    let exponent ← passExponent
    let stop ← get
    match start.limits.violation? .numberLength (stop.pos - start.pos).toNat with
    | some cause => throw (.rejected cause start.pos)
    | none => MonadExcept.ofExcept (numberBetween start stop (!fraction && !exponent))

end LocatedJson.Reader
