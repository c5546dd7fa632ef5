import LocatedJson.Proofs.Pieces

/-! The caret stays under its line. The front of a line is decoded, trimmed and expanded apart from
the line. Cut between pieces it is shown as the front of what the line is shown as; cut within a
piece it ends in one character for a part of the piece, where the line has one for the whole. -/
namespace LocatedJson

namespace Text

def shown (tabSize : Int) (text : List Char) : List Char := expandTabs tabSize (trimLineEnd text)

end Text

namespace Utf8

end Utf8

theorem Bytes.slice_natCast (bytes : List Byte) (start stop : Nat) :
    slice bytes start stop = (bytes.take stop).drop start := by
  rw [slice, fromFront_of_nonneg _ (by omega), fromFront_of_nonneg _ (by omega)]
  rfl

namespace Contents

variable (c : Contents)

def lineBytes (line : Nat) : List Byte := Bytes.slice c.buffer (c.startOf line) (c.endOf line)

theorem lineText_eq_lineBytes {line : Nat} (h : line ≤ c.starts.size) :
    c.lineText line = Text.trimLineEnd (Utf8.decodeReplacing (c.lineBytes line)) := by
  rw [lineText, if_neg (by simp; omega), Int.toNat_natCast]
  rfl

end Contents

end LocatedJson
