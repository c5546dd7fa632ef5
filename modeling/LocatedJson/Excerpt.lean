import LocatedJson.Position

/-! Excerpts: the line of an offset with a caret under the offending character. -/
namespace LocatedJson

structure Excerpt where
  line : List Char
  caret : Nat
  deriving DecidableEq, Repr

namespace Excerpt

def pointer (e : Excerpt) : String := String.ofList (List.replicate e.caret ' ' ++ ['^'])

def lineString (e : Excerpt) : String := String.ofList e.line

def render (e : Excerpt) : String := e.lineString ++ "\n" ++ e.pointer

end Excerpt

/-- The bytes of the line up to an offset, which is first brought into the line. -/
def Contents.excerptFront (c : Contents) (index : Int) : List Byte :=
  let start := (c.lineStart index).start
  Bytes.slice c.buffer start (max (start : Int) (min index c.size))

/-- The caret stands after the displayed characters of the line's front, which is decoded,
trimmed and expanded by itself. -/
def Contents.excerpt (c : Contents) (tabSize index : Int) : Excerpt :=
  let front := Text.trimLineEnd (Utf8.decodeReplacing (c.excerptFront index))
  { line := Text.expandTabs tabSize (c.lineText (c.lineOf index))
    caret := (Text.expandTabs tabSize front).length }

def Source.excerpt (s : Source) (tabSize index : Int) : Excerpt :=
  match s.contents with
  | some c => c.excerpt tabSize index
  | none => ⟨[], 0⟩

def Source.excerpt? (s : Source) (tabSize index : Int) : Except DisplayFault Excerpt :=
  if s.contents.isSome && !Text.isTabSize tabSize then .error .tabSizeRange
  else .ok (s.excerpt tabSize index)

end LocatedJson
