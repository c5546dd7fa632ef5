import LocatedJson.Parser
import LocatedJson.Report

/-! Documents: parsing of whole sources, however their bytes arrive. -/
namespace LocatedJson

/-- Why a source yields no value. A failure that cannot be shown comes with the fault in place of
its report. -/
inductive Refusal where
  | noContents (name : String)
  | rejected (failure : Failure) (report : Except DisplayFault Report)

def Refusal.message : Refusal → String
  | noContents name => "Source " ++ Text.quoted name ++ " has no contents"
  | rejected _ (.ok report) => report.message
  | rejected _ (.error fault) => fault.message

/-- Parses a source on a stack with room for so many levels of nesting. -/
def Source.parse (s : Source) (levels : Nat) (config : Config) : Except Refusal Value :=
  match s.contents with
  | none => .error (.noContents s.name)
  | some c =>
    match parseText config.options config.limits levels c.text with
    | .ok value => .ok value
    | .error failure => .error (.rejected failure (Report.ofFailure s config.reporting failure))

inductive Payload where
  | text (text : String)
  | bytes (bytes : List Byte)

def Payload.toSource (name : String) : Payload → Source
  | text t => .ofText name t
  | bytes b => .ofBytes name b

def Payload.defaultName : String := "<string>"

def streamName (asked own : Option String) : String :=
  (asked <|> own).getD "<stream>"

def notTextMessage (typeName : String) : String :=
  "the JSON object must be str, bytes or bytearray, not " ++ typeName

inductive ReadFault where
  | system (code : Int) (text : String)
  | described (text : String)
  deriving DecidableEq, Repr

def ReadFault.reason : ReadFault → String
  | system code text =>
    if text.isEmpty then "[Errno " ++ toString code ++ "] " ++ text else text
  | described text => text

namespace ReadFault

def noSuchFile : ReadFault := system 2 "No such file or directory"

def inputOutput : ReadFault := system 5 "Input/output error"

def notDirectory : ReadFault := system 20 "Not a directory"

def isDirectory : ReadFault := system 21 "Is a directory"

end ReadFault

structure LoadFailure where
  name : String
  fault : Option ReadFault := none
  deriving DecidableEq, Repr

def LoadFailure.message (f : LoadFailure) : String :=
  f.name ++ ": cannot read input: " ++ (f.fault.map (·.reason)).getD "read failed"

def Source.ofRead (name : String) (result : Except ReadFault (List Byte)) :
    Except LoadFailure Source :=
  match result with
  | .ok bytes => .ok (.ofBytes name bytes)
  | .error fault => .error ⟨name, some fault⟩

def Source.standardInputName : String := "<stdin>"

end LocatedJson
