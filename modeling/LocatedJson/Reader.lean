import LocatedJson.Report
import LocatedJson.Token.Lexer

/-! A reader: lexing of a source one step at a time, from any position the caller chooses. A
negative position counts from the end of the buffer; one behind the text has nothing ahead. -/
namespace LocatedJson

structure Reader where
  contents : Contents
  options : Options := {}
  limits : Limits := {}
  pos : Int := 0

namespace Reader

inductive Error where
  /-- The text is refused; the offset is a position of the reader and may be negative. -/
  | rejected (cause : Cause) (offset : Int)
  | outside
  | notANumber (text : String)
  deriving DecidableEq, Repr

def notANumberMessage (text : String) : String :=
  "could not convert string to float: " ++ Text.quoted text

def atEnd (r : Reader) : Bool := (r.contents.size : Int) ≤ r.pos

def seek (r : Reader) (pos : Int) : Reader := { r with pos }

def origin (r : Reader) : Nat :=
  min (Bytes.fromFront r.contents.buffer r.pos) r.contents.buffer.length

def ahead (r : Reader) : List Byte := r.contents.text.drop r.origin

inductive Peek where
  | byte (b : Byte)
  | endOfText
  | outside
  deriving DecidableEq, Repr

/-- Looks at the byte `distance` away, which need not be text if its position is negative. -/
def peek (r : Reader) (distance : Int) : Peek :=
  if (r.contents.size : Int) ≤ r.pos + distance then .endOfText
  else
    match Bytes.at? r.contents.buffer (r.pos + distance) with
    | some b => .byte b
    | none => .outside

end Reader

abbrev ReaderM := EStateM Reader.Error Reader

end LocatedJson
