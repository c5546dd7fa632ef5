import LocatedJson.Command.Arguments

/-! The command: checks each named file and reports its first error. -/
namespace LocatedJson.Command

structure Outcome where
  status : Nat
  lines : List String
  fault : Option DisplayFault := none
  deriving DecidableEq, Repr

namespace Outcome

def success : Nat := 0
def parseError : Nat := 1
def loadError : Nat := 2
def usageError : Nat := 2
def abandoned : Nat := 1

def append (first second : Outcome) : Outcome :=
  match first.fault, second.fault with
  | some _, _ => first
  | none, some fault => ⟨abandoned, first.lines ++ second.lines, some fault⟩
  | none, none => ⟨max first.status second.status, first.lines ++ second.lines, none⟩

def stderr (o : Outcome) : String := String.join (o.lines.map (· ++ "\n"))

end Outcome

def programName : String := "jsonloc"

def isStandardInput (name : String) : Bool := name == "-"

def loadedLine (name : String) (source : Source) : String :=
  let lines := if isStandardInput name then "" else ", " ++ toString source.lineCount ++ " lines"
  "jsonloc.core.source: Loaded " ++ source.name ++ ": " ++ toString source.size ++ " bytes" ++ lines

def parsingLine (source : Source) (o : Options) : String :=
  "jsonloc.core.engine: Parsing " ++ source.displayName ++ " (" ++ toString source.size ++
    " bytes, options=" ++ o.summary ++ ")"

def failedLine (message : String) : String := "jsonloc.core.engine: Parse failed: " ++ message

/-- The levels of nesting that the program's stack is taken to have room for. -/
def stackLevels : Nat := 499

variable (levels : Nat)

def checkLoaded (request : Request) (name : String) (loaded : Except LoadFailure Source) :
    Outcome :=
  let log (lines : List String) := if request.verbose then lines else []
  match loaded with
  | .error failure =>
    { status := Outcome.loadError, lines := [programName ++ ": " ++ failure.message] }
  | .ok source =>
    let begun := log [loadedLine name source, parsingLine source request.config.options]
    match source.parse levels request.config with
    | .ok _ => { status := Outcome.success, lines := begun }
    | .error (.rejected _ (.ok report)) =>
      { status := Outcome.parseError
        lines := begun ++ log [failedLine report.message] ++ [report.render] }
    | .error (.rejected _ (.error fault)) =>
      { status := Outcome.abandoned, lines := begun ++ [fault.message], fault := some fault }
    | .error refusal => { status := Outcome.parseError, lines := begun ++ [refusal.message] }

/-- Checks files in order. Standard input is used up by the first name that asks for it. -/
def checkAll (request : Request) (read : String → Except ReadFault (List Byte)) :
    List Byte → List String → Outcome
  | _, [] => { status := Outcome.success, lines := [] }
  | input, name :: rest =>
    if isStandardInput name then
      let loaded := Source.ofRead Source.standardInputName (.ok input)
      (checkLoaded levels request name loaded).append (checkAll request read [] rest)
    else
      let loaded := Source.ofRead name (read name)
      (checkLoaded levels request name loaded).append (checkAll request read input rest)

def run (arguments : List String) (read : String → Except ReadFault (List Byte))
    (input : List Byte) : Outcome :=
  match Request.ofArguments arguments with
  | .error .help => { status := Outcome.success, lines := [] }
  | .error (.misuse m) =>
    { status := Outcome.usageError, lines := [programName ++ ": error: " ++ m.message] }
  | .error (.withoutValue s) =>
    { status := Outcome.abandoned
      lines := [programName ++ ": error: " ++ (Misuse.missingValue s).message] }
  | .ok request => checkAll levels request read input request.files

end LocatedJson.Command
