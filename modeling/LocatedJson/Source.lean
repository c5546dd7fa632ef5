import LocatedJson.LineIndex
import LocatedJson.Text.Tabs
import LocatedJson.Utf8

/-! Sources: named input bytes with their line index. A source may be a name alone, and a
buffer may be longer than the part that counts as input. -/
namespace LocatedJson

/-- Input bytes. Only the first `size` bytes of the buffer are text; `starts` is its line
index, computed once. -/
structure Contents where
  buffer : List Byte
  size : Nat
  size_le : size ≤ buffer.length
  starts : Array Nat := (lineStarts buffer size).toArray
  starts_eq : starts = (lineStarts buffer size).toArray := by rfl

namespace Contents

def ofBytes (bytes : List Byte) : Contents :=
  { buffer := bytes, size := bytes.length, size_le := Nat.le_refl _ }

def text (c : Contents) : List Byte := c.buffer.take c.size

@[simp] theorem length_text (c : Contents) : c.text.length = c.size := by
  simp [text, Nat.min_eq_left c.size_le]

@[simp] theorem text_ofBytes (bytes : List Byte) : (ofBytes bytes).text = bytes := by
  simp [text, ofBytes]

def lineCount (c : Contents) : Nat := c.starts.size + 1

def startOf (c : Contents) (line : Nat) : Nat :=
  if line = 0 then 0 else (c.starts[line - 1]?).getD 0

def endOf (c : Contents) (line : Nat) : Nat := (c.starts[line]?).getD c.size

/-- The line of an offset: the number of recorded starts that do not lie behind it. -/
def lineOf (c : Contents) (index : Int) : Nat := upperBound c.starts index

/-- A line's text without its terminator, ill-formed bytes replaced; a line that is not there
is empty. -/
def lineText (c : Contents) (line : Int) : List Char :=
  if line < 0 || (c.starts.size : Int) < line then []
  else
    let bytes := Bytes.slice c.buffer (c.startOf line.toNat) (c.endOf line.toNat)
    Text.trimLineEnd (Utf8.decodeReplacing bytes)

end Contents

structure Source where
  name : String
  contents : Option Contents := none

inductive SourceError where
  | sizeOutOfRange (size : Int) (available : Nat)
  | notBytes
  deriving DecidableEq, Repr

def SourceError.message : SourceError → String
  | sizeOutOfRange size available =>
    "size " ++ toString size ++ " out of range for buffer of " ++ toString available ++ " bytes"
  | notBytes => "bytes must be in range(0, 256)"

namespace Source

def unknown : Source := { name := "" }

def ofBytes (name : String) (bytes : List Byte) : Source :=
  { name, contents := some (.ofBytes bytes) }

def ofText (name : String) (text : String) : Source := ofBytes name (Utf8.encode text.toList)

def ofWindow (name : String) (buffer : List Byte) (size : Int) : Except SourceError Source :=
  if h : 0 ≤ size ∧ size.toNat ≤ buffer.length then
    .ok { name, contents := some { buffer, size := size.toNat, size_le := h.2 } }
  else .error (.sizeOutOfRange size buffer.length)

/-- The front of a buffer, cut off; a negative size counts from the end. -/
def ofFront (name : String) (buffer : List Byte) (size : Int) : Source :=
  ofBytes name (Bytes.slice buffer 0 size)

def ofInts (name : String) (numbers : List Int) : Except SourceError Source :=
  if numbers.all fun n => 0 ≤ n && n < 256 then
    .ok (ofBytes name (numbers.map fun n => UInt8.ofNat n.toNat))
  else .error .notBytes

def size (s : Source) : Nat := (s.contents.map (·.size)).getD 0

def lineStarts (s : Source) : List Nat := (s.contents.map (·.starts.toList)).getD []

def lineCount (s : Source) : Nat := (s.contents.map (·.lineCount)).getD 0

def lineText (s : Source) (line : Int) : List Char :=
  (s.contents.map (·.lineText line)).getD []

def describe (s : Source) : String :=
  "Source(file_name=" ++ Text.quoted s.name ++ ", size=" ++ toString s.size ++ ")"

def displayName (s : Source) : String := if s.name.isEmpty then "<unknown>" else s.name

end Source

end LocatedJson
