import LocatedJson.Excerpt
import LocatedJson.Failure

/-! Reports: an error as its reader sees it, with name, position, text and excerpt. -/
namespace LocatedJson

structure Report where
  kind : FailureKind
  text : String
  offset : Int
  message : String
  excerpt : Option Excerpt
  deriving DecidableEq, Repr

namespace Report

/-- The report of a text at an offset of a source. The place is written before the excerpt is
made. -/
def build (source : Source) (tabSize : Int) (withExcerpt : Bool) (kind : FailureKind)
    (text : String) (offset : Int) : Except DisplayFault Report := do
  let place ← source.locate? tabSize offset
  let excerpt ← (if withExcerpt then some <$> source.excerpt? tabSize offset else .ok none)
  return { kind, text, offset, message := place ++ ": " ++ text, excerpt }

def ofCause (source : Source) (r : Reporting) (cause : Cause) (offset : Int) :
    Except DisplayFault Report :=
  build source r.tabSize.val r.withExcerpt cause.kind cause.message offset

def ofFailure (source : Source) (r : Reporting) (failure : Failure) :
    Except DisplayFault Report :=
  ofCause source r failure.cause failure.offset

def render (r : Report) : String :=
  match r.excerpt with
  | none => r.message
  | some e => r.message ++ "\n" ++ e.render

end Report

end LocatedJson
