import LocatedJson.Byte

/-! The line index: the offsets at which lines begin, and the search for the line of an offset.
Line zero begins at offset zero, which is not recorded. -/
namespace LocatedJson

/-- The offset behind each line feed, as far as it lies below `size`: a line feed in the last
byte begins no line. -/
def lineStarts (buffer : List Byte) (size : Int) : List Nat :=
  buffer.zipIdx.filterMap fun (b, i) =>
    if b = Byte.lineFeed && (i + 1 : Int) < size then some (i + 1) else none

/-- Where in a half-open interval of a sorted array the entries begin to exceed `key`. -/
def upperBoundWithin (entries : Array Nat) (key : Int) (low high : Nat) : Nat :=
  if low < high then
    let middle := low + (high - low) / 2
    if (entries[middle]?).any fun entry => key < entry then
      upperBoundWithin entries key low middle
    else upperBoundWithin entries key (middle + 1) high
  else low
termination_by high - low

def upperBound (entries : Array Nat) (key : Int) : Nat :=
  upperBoundWithin entries key 0 entries.size

end LocatedJson
