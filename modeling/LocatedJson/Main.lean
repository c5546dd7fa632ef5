import LocatedJson.Command.Check

/-! The command-line program. -/
namespace LocatedJson.Command

def usage : String :=
  "usage: jsonloc [-h] [--relaxed] [--allow FEATURE] [--tab-size TAB_SIZE] [--context] [-v] " ++
    "files [files ...]\n"

def readFault : IO.Error → ReadFault
  | .noFileOrDirectory .. => .noSuchFile
  | .inappropriateType _ 21 _ => .isDirectory
  | .inappropriateType .. => .notDirectory
  | other => .described other.toString

def readFile (name : String) : IO (Except ReadFault (List Byte)) := do
  try return .ok (← IO.FS.readBinFile (if name.isEmpty then "." else name)).toList
  catch e => return .error (readFault e)

partial def readAll (stream : IO.FS.Stream) (sofar : ByteArray) : IO ByteArray := do
  let chunk ← stream.read 65536
  if chunk.isEmpty then return sofar else readAll stream (sofar ++ chunk)

/-- Reads every named file before any is checked. -/
def execute (arguments : List String) : IO UInt32 := do
  let request := Request.ofArguments arguments
  if let .error .help := request then IO.print usage
  let names := (request.map (·.files)).toOption.getD []
  let input ← if names.any isStandardInput then readAll (← IO.getStdin) .empty else pure .empty
  let files ← (names.filter (!isStandardInput ·)).mapM fun name => do
    return (name, ← readFile name)
  let read (name : String) := (files.lookup name).getD (.error .noSuchFile)
  let outcome := run stackLevels arguments read input.toList
  IO.eprint outcome.stderr
  return outcome.status.toUInt32

end LocatedJson.Command

def main (arguments : List String) : IO UInt32 := LocatedJson.Command.execute arguments
