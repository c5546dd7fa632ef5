import LocatedJson.Source

/-! Positions: the line and tab-expanded column of an offset, both from zero. Offsets and tab
sizes may be any integers; only a tab size of zero before a tab has no answer. -/
namespace LocatedJson

structure Position where
  line : Nat
  column : Int
  deriving DecidableEq, Repr

/-- Why a place in a source cannot be shown. -/
inductive DisplayFault where
  | undefinedStop
  | overlongNumber
  | tabSizeRange
  deriving DecidableEq, Repr

def DisplayFault.message : DisplayFault → String
  | undefinedStop => "integer division by zero"
  | overlongNumber => "too many digits for a line or a column"
  | tabSizeRange => "tab size too large for an excerpt"

def maxShownDigits : Nat := 4300

def isShown (n : Int) : Bool := (Nat.toDigits 10 n.natAbs).length ≤ maxShownDigits

def lineColumnText (line column : Int) : String :=
  toString (line + 1) ++ ":" ++ toString (column + 1)

def renderLineColumn (line column : Int) : Except DisplayFault String :=
  if isShown (line + 1) && isShown (column + 1) then .ok (lineColumnText line column)
  else .error .overlongNumber

def Position.render (p : Position) : String := lineColumnText p.line p.column

/-- The column after one more byte: a tab goes to the next stop, any other byte is one wide. -/
def columnAfter (tabSize column : Int) (b : Byte) : Int :=
  if b = Byte.tab then (column.fdiv tabSize + 1) * tabSize else column + 1

structure LineStart where
  line : Nat
  start : Nat
  deriving DecidableEq, Repr

namespace Contents

def lineStart (c : Contents) (index : Int) : LineStart :=
  let line := c.lineOf index
  ⟨line, c.startOf line⟩

/-- The bytes of the line before an offset. An offset behind the end counts as the end; one
before the beginning counts from the end of the buffer. -/
def lineFront (c : Contents) (index : Int) : List Byte :=
  let index := min index c.size
  Bytes.slice c.buffer (c.lineStart index).start index

def position (c : Contents) (tabSize index : Int) : Position :=
  ⟨(c.lineStart (min index c.size)).line,
   (c.lineFront index).foldl (columnAfter tabSize) 0⟩

end Contents

namespace Source

def lineStart (s : Source) (index : Int) : LineStart :=
  match s.contents with
  | some c => c.lineStart index
  | none => ⟨0, 0⟩

def position (s : Source) (tabSize index : Int) : Position :=
  match s.contents with
  | some c => c.position tabSize index
  | none => ⟨0, 0⟩

def hasUndefinedStop (s : Source) (tabSize index : Int) : Bool :=
  tabSize = 0 && s.contents.any fun c => (c.lineFront index).contains Byte.tab

def position? (s : Source) (tabSize index : Int) : Option Position :=
  if s.hasUndefinedStop tabSize index then none else some (s.position tabSize index)

def locate (s : Source) (tabSize index : Int) : String :=
  s.displayName ++ ":" ++ (s.position tabSize index).render

def locate? (s : Source) (tabSize index : Int) : Except DisplayFault String :=
  if s.hasUndefinedStop tabSize index then .error .undefinedStop
  else
    let p := s.position tabSize index
    (renderLineColumn p.line p.column).map fun place => s.displayName ++ ":" ++ place

end Source

end LocatedJson
