/-! Tab expansion and trimming of one line of text for display. -/
namespace LocatedJson.Text

/-- Expands tabs to stops every `width` columns, the text before having filled `column`
columns. The column restarts after a line feed and after a carriage return; width zero
leaves nothing of a tab. -/
def expandTabsFrom (width : Nat) : Nat → List Char → List Char
  | _, [] => []
  | column, c :: rest =>
    if c = '\t' then
      let fill := width - column % width
      List.replicate fill ' ' ++ expandTabsFrom width (column + fill) rest
    else if c = '\n' || c = '\r' then c :: expandTabsFrom width 0 rest
    else c :: expandTabsFrom width (column + 1) rest

def isTabSize (width : Int) : Bool := -0x80000000 ≤ width && width ≤ 0x7fffffff

def expandTabs (width : Int) (text : List Char) : List Char :=
  expandTabsFrom width.toNat 0 text

def isLineEnd (c : Char) : Bool := c = '\r' || c = '\n'

def trimLineEnd (text : List Char) : List Char :=
  (text.reverse.dropWhile isLineEnd).reverse

end LocatedJson.Text
