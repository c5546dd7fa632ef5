/-! What a parse may be told: which relaxations of the grammar to admit, how large a document
may be, and how errors are shown. Settings arrive as names and integers and are refused, with
the field at fault, before a parse begins. -/
namespace LocatedJson

inductive Relaxation where
  | infinityAndNan
  | explicitPlus
  | singleQuotes
  | leadingDot
  deriving DecidableEq, Repr

namespace Relaxation

def all : List Relaxation := [infinityAndNan, explicitPlus, singleQuotes, leadingDot]

def shortName : Relaxation → String
  | infinityAndNan => "infinity_and_nan"
  | explicitPlus => "explicit_plus_sign_in_mantissa"
  | singleQuotes => "single_quote_strings"
  | leadingDot => "number_to_start_with_dot"

def name (r : Relaxation) : String := "allow_" ++ r.shortName

def ofName? (text : String) : Option Relaxation :=
  let plain := text.map fun c => if c = '-' then '_' else c
  all.find? fun r => r.name == plain || r.shortName == plain

end Relaxation

structure Options where
  infinityAndNan : Bool := false
  explicitPlus : Bool := false
  singleQuotes : Bool := false
  leadingDot : Bool := false
  deriving DecidableEq, Repr

namespace Options

def strict : Options := {}

def relaxed : Options := ⟨true, true, true, true⟩

def allows (o : Options) : Relaxation → Bool
  | .infinityAndNan => o.infinityAndNan
  | .explicitPlus => o.explicitPlus
  | .singleQuotes => o.singleQuotes
  | .leadingDot => o.leadingDot

def isStrict (o : Options) : Bool := Relaxation.all.all fun r => !o.allows r

def enable (o : Options) : Relaxation → Options
  | .infinityAndNan => { o with infinityAndNan := true }
  | .explicitPlus => { o with explicitPlus := true }
  | .singleQuotes => { o with singleQuotes := true }
  | .leadingDot => { o with leadingDot := true }

@[simp] theorem allows_enable (o : Options) (r r' : Relaxation) :
    (o.enable r).allows r' = (decide (r = r') || o.allows r') := by
  cases r <;> cases r' <;> simp [enable, allows]

@[simp] theorem allows_relaxed (r : Relaxation) : relaxed.allows r = true := by
  cases r <;> rfl

theorem isStrict_iff (o : Options) : o.isStrict = true ↔ o = strict := by
  obtain ⟨a, b, c, d⟩ := o
  cases a <;> cases b <;> cases c <;> cases d <;> decide

def summary (o : Options) : String :=
  let switch (r : Relaxation) := r.name ++ "=" ++ if o.allows r then "True" else "False"
  "ParseOptions(" ++ ", ".intercalate (Relaxation.all.map switch) ++ ")"

end Options

inductive Measure where
  | inputSize
  | stringLength
  | numberLength
  | nestingDepth
  deriving DecidableEq, Repr

namespace Measure

def description : Measure → String
  | inputSize => "input size"
  | stringLength => "string length"
  | numberLength => "number length"
  | nestingDepth => "nesting depth"

def settingName : Measure → String
  | inputSize => "max_input_size"
  | stringLength => "max_string_length"
  | numberLength => "max_number_length"
  | nestingDepth => "max_nesting_depth"

end Measure

abbrev Positive := { n : Nat // 0 < n }

def Positive.ofInt? (n : Int) : Option Positive :=
  if h : 0 < n.toNat then some ⟨n.toNat, h⟩ else none

def Positive.usualDepth : Positive := ⟨256, by decide⟩

/-- Upper bounds for one parse; nesting is always bounded, the sizes only when given. -/
structure Limits where
  nestingDepth : Positive := .usualDepth
  inputSize : Option Positive := none
  stringLength : Option Positive := none
  numberLength : Option Positive := none

def Limits.bound (l : Limits) : Measure → Option Nat
  | .inputSize => l.inputSize.map (·.val)
  | .stringLength => l.stringLength.map (·.val)
  | .numberLength => l.numberLength.map (·.val)
  | .nestingDepth => some l.nestingDepth.val

namespace Limits

variable (l : Limits)

theorem bound_inputSize : l.bound .inputSize = l.inputSize.map (·.val) := rfl

theorem bound_stringLength : l.bound .stringLength = l.stringLength.map (·.val) := rfl

theorem bound_numberLength : l.bound .numberLength = l.numberLength.map (·.val) := rfl

theorem bound_nestingDepth : l.bound .nestingDepth = some l.nestingDepth.val := rfl

end Limits

def Limits.broken? (l : Limits) (measure : Measure) (n : Nat) : Option Nat :=
  (l.bound measure).filter (· < n)

def Positive.usualTabSize : Positive := ⟨8, by decide⟩

structure Reporting where
  tabSize : Positive := .usualTabSize
  withExcerpt : Bool := false

structure Config where
  options : Options := {}
  limits : Limits := {}
  reporting : Reporting := {}

namespace Config

def strict : Config := {}

def relaxed : Config := { options := .relaxed }

def withOptions (c : Config) (o : Options) : Config := { c with options := o }

/-- Options given beside a configuration replace its own; with neither, strict JSON. -/
def resolve (options : Option Options) (config : Option Config) : Config :=
  match config, options with
  | none, none => strict
  | none, some o => { options := o }
  | some c, none => c
  | some c, some o => c.withOptions o

end Config

inductive SettingError where
  | notPositive (setting : String)
  | unknownRelaxation (name : String)
  deriving DecidableEq, Repr

def SettingError.message : SettingError → String
  | notPositive setting => setting ++ " must be positive"
  | unknownRelaxation name => "Unknown parse option: " ++ name

def Positive.require (setting : String) (n : Int) : Except SettingError Positive :=
  match ofInt? n with
  | some p => .ok p
  | none => .error (.notPositive setting)

def Options.ofNames (names : List String) : Except SettingError Options :=
  names.foldlM (fun o name =>
    match Relaxation.ofName? name with
    | some r => .ok (o.enable r)
    | none => .error (.unknownRelaxation name)) {}

def Limits.ofInts (nestingDepth : Int) (inputSize stringLength numberLength : Option Int) :
    Except SettingError Limits := do
  let bound (m : Measure) (n : Option Int) : Except SettingError (Option Positive) :=
    n.mapM (Positive.require m.settingName)
  let depth ← Positive.require Measure.nestingDepth.settingName nestingDepth
  return {
    nestingDepth := depth
    inputSize := ← bound .inputSize inputSize
    stringLength := ← bound .stringLength stringLength
    numberLength := ← bound .numberLength numberLength }

def Reporting.ofInt (tabSize : Int) (withExcerpt : Bool) : Except SettingError Reporting := do
  return { tabSize := ← Positive.require "tab_size" tabSize, withExcerpt }

end LocatedJson
