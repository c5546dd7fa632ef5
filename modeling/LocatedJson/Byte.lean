import LocatedJson.Text.Quoted

/-! Input bytes: the ASCII values the grammar speaks of, its byte classes, and the name a byte
has in a message. -/
namespace LocatedJson

abbrev Byte := UInt8

namespace Byte

@[match_pattern] abbrev tab : Byte := 0x09
@[match_pattern] abbrev lineFeed : Byte := 0x0a
@[match_pattern] abbrev carriageReturn : Byte := 0x0d
@[match_pattern] abbrev space : Byte := 0x20
@[match_pattern] abbrev quote : Byte := 0x22
@[match_pattern] abbrev plus : Byte := 0x2b
@[match_pattern] abbrev apostrophe : Byte := 0x27
@[match_pattern] abbrev minus : Byte := 0x2d
@[match_pattern] abbrev dot : Byte := 0x2e
@[match_pattern] abbrev zero : Byte := 0x30
@[match_pattern] abbrev backslash : Byte := 0x5c
@[match_pattern] abbrev lowerU : Byte := 0x75
@[match_pattern] abbrev delete : Byte := 0x7f

def ascii (spelling : List Char) : List Byte := spelling.map Char.toUInt8

def isBlank (b : Byte) : Bool :=
  b == space || b == tab || b == carriageReturn || b == lineFeed

def isDigit (b : Byte) : Bool := 0x30 ≤ b && b ≤ 0x39

def isExponentMark (b : Byte) : Bool := b == 0x65 || b == 0x45

def isControl (b : Byte) : Bool := b < space

def hexValue? (b : Byte) : Option Nat :=
  if isDigit b then some (b.toNat - 0x30)
  else if 0x61 ≤ b && b ≤ 0x66 then some (b.toNat - 0x61 + 10)
  else if 0x41 ≤ b && b ≤ 0x46 then some (b.toNat - 0x41 + 10)
  else none

def isHexDigit (b : Byte) : Bool := (hexValue? b).isSome

def decimalValue (digits : List Byte) : Nat :=
  digits.foldl (fun n b => 10 * n + (b.toNat - 0x30)) 0

def hexadecimalValue (digits : List Byte) : Nat :=
  digits.foldl (fun n b => 16 * n + (hexValue? b).getD 0) 0

/-- The name a message gives to a byte value: a visible character in quotation marks, any
other value in hexadecimal. Values no byte has are written out in the same way, the sign inside
the two places. -/
def describeValue (n : Int) : String :=
  if n = 0x20 then "space"
  else if 0x20 < n && n < 0x7f then Text.quoted (String.singleton (Char.ofNat n.toNat))
  else if n < 0 then "byte 0x-" ++ String.ofList (Text.hexadecimal 1 n.natAbs)
  else "byte 0x" ++ String.ofList (Text.hexadecimal 2 n.toNat)

def describe (b : Byte) : String := describeValue b.toNat

end Byte

/-- Where a position lies when counted from the front: a negative one counts from the end of
the bytes and stops at their beginning. -/
def Bytes.fromFront (bytes : List Byte) (pos : Int) : Nat :=
  (if pos < 0 then pos + bytes.length else pos).toNat

def Bytes.slice (bytes : List Byte) (start stop : Int) : List Byte :=
  (bytes.take (fromFront bytes stop)).drop (fromFront bytes start)

def Bytes.at? (bytes : List Byte) (index : Int) : Option Byte :=
  if index + bytes.length < 0 then none else bytes[fromFront bytes index]?

end LocatedJson
