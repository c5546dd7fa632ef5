import LocatedJson.Document
import LocatedJson.Text.DecimalDigit
import LocatedJson.Text.Spacing

/-! Command-line arguments. Words are classified first; switches may stand on either side of
the file names, which form one unbroken run. -/
namespace LocatedJson.Command

inductive Flag where
  | help
  | relaxed
  | context
  | verbose
  deriving DecidableEq, Repr

inductive Setting where
  | allow
  | tabSize
  deriving DecidableEq, Repr

inductive Switch where
  | flag (f : Flag)
  | setting (s : Setting)
  deriving DecidableEq, Repr

def Flag.shortLetter? : Flag → Option Char
  | .help => some 'h'
  | .verbose => some 'v'
  | _ => none

def Flag.ofLetter? (c : Char) : Option Flag :=
  [Flag.help, .verbose].find? fun f => f.shortLetter? == some c

namespace Switch

def longName : Switch → String
  | .flag .help => "--help"
  | .flag .relaxed => "--relaxed"
  | .flag .context => "--context"
  | .flag .verbose => "--verbose"
  | .setting .allow => "--allow"
  | .setting .tabSize => "--tab-size"

def shortLetter? : Switch → Option Char
  | .flag f => f.shortLetter?
  | .setting _ => none

def all : List Switch :=
  [.flag .help, .flag .relaxed, .setting .allow, .setting .tabSize, .flag .context,
   .flag .verbose]

def label (s : Switch) : String :=
  match s.shortLetter? with
  | some c => "-" ++ String.singleton c ++ "/" ++ s.longName
  | none => s.longName

def ofLongName? (text : String) : Option Switch := all.find? fun s => s.longName == text

def completions (stem : List Char) : List Switch :=
  all.filter fun s => stem.isPrefixOf s.longName.toList

end Switch

inductive Misuse where
  | ambiguous (text : String) (candidates : List Switch)
  | ignoredValue (s : Switch) (value : String)
  | missingValue (s : Setting)
  | invalidChoice (text : String)
  | invalidInteger (text : String)
  | missingFiles
  | unrecognized (texts : List String)
  | tabSizeNotPositive
  deriving DecidableEq, Repr

def Misuse.message : Misuse → String
  | ambiguous text candidates =>
    "ambiguous option: " ++ text ++ " could match " ++
      ", ".intercalate (candidates.map (·.longName))
  | ignoredValue s value =>
    "argument " ++ s.label ++ ": ignored explicit argument " ++ Text.quoted value
  | missingValue s => "argument " ++ (Switch.setting s).label ++ ": expected one argument"
  | invalidChoice text =>
    "argument --allow: invalid choice: " ++ Text.quoted text ++ " (choose from " ++
      ", ".intercalate (Relaxation.all.map fun r => Text.quoted r.shortName) ++ ")"
  | invalidInteger text => "argument --tab-size: invalid int value: " ++ Text.quoted text
  | missingFiles => "the following arguments are required: files"
  | unrecognized texts => "unrecognized arguments: " ++ " ".intercalate texts
  | tabSizeNotPositive => "--tab-size must be positive"

inductive Stop where
  | help
  | misuse (m : Misuse)
  | withoutValue (s : Setting)
  deriving DecidableEq, Repr

inductive Word where
  | plain (text : String)
  | divider
  | short (f : Flag) (attached : Option (List Char))
  | long (s : Switch) (attached : Option String)
  | unknown (text : String)
  deriving DecidableEq, Repr

def splitValue (text : List Char) : List Char × Option String :=
  match text.span (· != '=') with
  | (name, _ :: value) => (name, some (String.ofList value))
  | (name, []) => (name, none)

def withoutLastBreak (text : List Char) : List Char :=
  if text.getLast? = some '\n' then text.dropLast else text

/-- `-12` and `-.5` are values, not switches, in the digits of any script. -/
def isNegativeNumber (text : List Char) : Bool :=
  match withoutLastBreak text with
  | '-' :: rest =>
    match rest.span Text.isDecimalDigit with
    | (digits, []) => !digits.isEmpty
    | (_, '.' :: decimals) => !decimals.isEmpty && decimals.all Text.isDecimalDigit
    | _ => false
  | _ => false

def Word.ofOther (text : String) : Word :=
  if isNegativeNumber text.toList || text.contains ' ' then .plain text else .unknown text

def Word.ofLong (text : String) : Except Stop Word :=
  let (name, attached) := splitValue text.toList
  match Switch.ofLongName? (String.ofList name) with
  | some s => .ok (.long s attached)
  | none =>
    match Switch.completions name with
    | [] => .ok (ofOther text)
    | [s] => .ok (.long s attached)
    | several => .error (.misuse (.ambiguous text several))

def attachedToLetter : List Char → Option (List Char)
  | [] => none
  | '=' :: value => some value
  | rest => some rest

def Word.classify (text : String) : Except Stop Word :=
  match text.toList with
  | ['-', '-'] => .ok .divider
  | '-' :: '-' :: _ => ofLong text
  | '-' :: letter :: rest =>
    match Flag.ofLetter? letter with
    | some f => .ok (.short f (attachedToLetter rest))
    | none => .ok (ofOther text)
  | _ => .ok (.plain text)

def Word.classifyAll : List String → Except Stop (List Word)
  | [] => .ok []
  | text :: rest => do
    match ← classify text with
    | .divider => return .divider :: rest.map .plain
    | word => return word :: (← classifyAll rest)

/-- Decimal digits, with an underscore between any two of them, at most
`Numeral.maxIntegerDigits`. -/
def digits? (text : List Char) : Option Nat :=
  let groups := (String.ofList text).splitOn "_"
  let digits := groups.flatMap (·.toList.map Text.decimalDigit?)
  if groups.all (fun g => !g.isEmpty && g.toList.all Text.isDecimalDigit) &&
      digits.length ≤ Numeral.maxIntegerDigits then
    some (digits.foldl (fun n d => 10 * n + d.getD 0) 0)
  else none

def integer? (text : String) : Option Int :=
  match Text.trimSpacing text.toList with
  | '-' :: rest => (digits? rest).map fun n => -(n : Int)
  | '+' :: rest => (digits? rest).map Int.ofNat
  | rest => (digits? rest).map Int.ofNat

inductive FileRun where
  | awaited
  | going
  | ended
  deriving DecidableEq, Repr

/-- What the arguments read so far say. Later entries come first in the lists; a switch that
was left without a value is none. -/
structure Draft where
  relaxed : Bool := false
  allowed : List (Option Relaxation) := []
  tabSize : Option Int := some 8
  context : Bool := false
  verbose : Bool := false
  files : List String := []
  leftOver : List String := []
  run : FileRun := .awaited

namespace Draft

def raise (d : Draft) : Flag → Except Stop Draft
  | .help => .error .help
  | .relaxed => .ok { d with relaxed := true }
  | .context => .ok { d with context := true }
  | .verbose => .ok { d with verbose := true }

def set (d : Draft) (value : String) : Setting → Except Stop Draft
  | .allow =>
    match Relaxation.all.find? fun r => r.shortName == value with
    | some r => .ok { d with allowed := some r :: d.allowed }
    | none => .error (.misuse (.invalidChoice value))
  | .tabSize =>
    match integer? value with
    | some n => .ok { d with tabSize := some n }
    | none => .error (.misuse (.invalidInteger value))

def setNothing (d : Draft) : Setting → Draft
  | .allow => { d with allowed := none :: d.allowed }
  | .tabSize => { d with tabSize := none }

/-- Sets an attached value. A divider given as the value is dropped, which leaves the switch
without one. -/
def setAttached (d : Draft) (value : String) (s : Setting) : Except Stop Draft :=
  if value = "--" then .ok (d.setNothing s) else d.set value s

def plain (d : Draft) (text : String) : Draft :=
  match d.run with
  | .ended => { d with leftOver := text :: d.leftOver }
  | _ => { d with files := text :: d.files, run := .going }

def divide (d : Draft) (anyBehind : Bool) : Draft :=
  match d.run with
  | .going => d
  | .awaited => if anyBehind then d else { d with leftOver := "--" :: d.leftOver }
  | .ended => { d with leftOver := "--" :: d.leftOver }

def endRun (d : Draft) : Draft :=
  match d.run with
  | .going => { d with run := .ended }
  | _ => d

end Draft

/-- The switches that letters attached to a switch add to it, `-vh` being `-v -h`. No short
switch takes a value, so the first letter that is no switch is refused with all behind it. -/
def cluster (f : Flag) : List Char → Except Stop (List Flag)
  | [] => .ok [f]
  | c :: rest =>
    match Flag.ofLetter? c with
    | some next => (cluster next rest).map (f :: ·)
    | none => .error (.misuse (.ignoredValue (.flag f) (String.ofList (c :: rest))))

def shortFlags (f : Flag) : Option (List Char) → Except Stop (List Flag)
  | none => .ok [f]
  | some [] => .error (.misuse (.ignoredValue (.flag f) ""))
  | some letters => cluster f letters

def readWords (d : Draft) : List Word → Except Stop Draft
  | [] => .ok d
  | .plain text :: rest => readWords (d.plain text) rest
  | .divider :: rest => readWords (d.divide !rest.isEmpty) rest
  | .unknown text :: rest =>
    readWords { d.endRun with leftOver := text :: d.leftOver } rest
  | .short f attached :: rest => do
    let flags ← shortFlags f attached
    readWords (← flags.foldlM Draft.raise d.endRun) rest
  | .long (.flag f) none :: rest => do readWords (← d.endRun.raise f) rest
  | .long (.flag f) (some value) :: _ => .error (.misuse (.ignoredValue (.flag f) value))
  | .long (.setting s) (some value) :: rest => do
    readWords (← d.endRun.setAttached value s) rest
  | .long (.setting s) none :: .plain value :: rest => do
    readWords (← d.endRun.set value s) rest
  | .long (.setting s) none :: _ => .error (.misuse (.missingValue s))

structure Request where
  config : Config
  verbose : Bool
  files : List String

def Draft.options (d : Draft) : Except Stop Options :=
  if d.relaxed then .ok .relaxed
  else
    let enable (o : Options) : Option Relaxation → Except Stop Options
      | some r => .ok (o.enable r)
      | none => .error (.withoutValue .allow)
    d.allowed.foldlM enable {}

def Draft.finish (d : Draft) : Except Stop Request :=
  if d.files.isEmpty then .error (.misuse .missingFiles)
  else if !d.leftOver.isEmpty then .error (.misuse (.unrecognized d.leftOver.reverse))
  else
    match d.tabSize with
    | none => .error (.withoutValue .tabSize)
    | some n =>
      match Positive.ofInt? n with
      | none => .error (.misuse .tabSizeNotPositive)
      | some tabSize => do
        let options ← d.options
        return {
          config := { options, reporting := { tabSize, withExcerpt := d.context } }
          verbose := d.verbose
          files := d.files.reverse }

def Request.ofArguments (arguments : List String) : Except Stop Request := do
  let words ← Word.classifyAll arguments
  let draft ← readWords {} words
  draft.finish

end LocatedJson.Command
