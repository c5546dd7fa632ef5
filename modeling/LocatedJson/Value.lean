import LocatedJson.Binary64

/-! JSON values. An object holds its members in order of first appearance, one for each key. -/
namespace LocatedJson

inductive Number where
  | int (n : Int)
  | float (x : Binary64)
  deriving DecidableEq, Repr

inductive Value where
  | null
  | bool (b : Bool)
  | number (n : Number)
  | string (s : String)
  | array (elements : List Value)
  | object (members : List (String × Value))

/-- Sets a member: a new key goes last, a known key keeps its place and takes the new value. -/
def Value.setMember (key : String) (value : Value) :
    List (String × Value) → List (String × Value)
  | [] => [(key, value)]
  | (k, v) :: rest =>
    if k = key then (k, value) :: rest else (k, v) :: setMember key value rest

def Value.collectMembers (written : List (String × Value)) : List (String × Value) :=
  written.foldl (fun members m => setMember m.1 m.2 members) []

end LocatedJson
