/-
Why a run ends before its program does. A fault is something the program or
its surroundings did wrong: it is reported, at the innermost node that was
being evaluated. An abort is a condition that no report describes.
-/
import SamScript.Decimal.Read
import SamScript.Diagnostic
import SamScript.Host
import SamScript.Text.Utf8
import SamScript.Value.Operator

namespace SamScript

-- =============================================================== faults

/-- What a run can be blamed for. -/
inductive EvalFault where
  /-- A node is not what its place in the tree asks for. -/
  | shape (expected found : String)
  | integerTooLarge (text : String)
  | undefinedVariable (name : String)
  | undefinedAssignment (name : String)
  | arity (expected found : Nat)
  | conditionNotInt (found : Kind)
  | notAttributable (found : Kind) (name : String)
  | unknownAttribute (name : String)
  | incomparable (op : Operator) (left right : Kind)
  | returnOutsideFunction
  | notCallable (found : Kind)
  | unknownOperator (text : String)
  | callDepth (limit : Int)
  | stackExhausted
  | returnAsValue
  | manifestUnreadable (path reason : String)
  | manifestInvalid (name path : String)
  | interfaceEntry (name path : String)
  | foreignOutput (command : String)
  | startFailed (command reason : String)
  deriving DecidableEq, Repr

namespace EvalFault

def code : EvalFault → String
  | .shape _ _ | .integerTooLarge _ => "E401"
  | .undefinedVariable _ => "E402"
  | .undefinedAssignment _ => "E403"
  | .arity _ _ => "E404"
  | .conditionNotInt _ => "E405"
  | .notAttributable _ _ => "E406"
  | .unknownAttribute _ => "E407"
  | .incomparable _ _ _ => "E408"
  | .returnOutsideFunction => "E409"
  | .notCallable _ => "E410"
  | .unknownOperator _ => "E411"
  | .callDepth _ | .stackExhausted => "E412"
  | .returnAsValue => "E413"
  | .manifestUnreadable _ _ => "E501"
  | .manifestInvalid _ _ => "E502"
  | .interfaceEntry _ _ => "E503"
  | .foreignOutput _ => "E504"
  | .startFailed _ _ => "E505"

def message : EvalFault → String
  | .shape expected found => s!"{expected} node expected but found '{found}'"
  | .integerTooLarge text => s!"integer literal '{text}' does not fit in 64 bits"
  | .undefinedVariable name => s!"variable '{name}' is not defined"
  | .undefinedAssignment name => s!"assigning to non-existent variable '{name}'"
  | .arity expected found =>
    s!"function expects {expected} argument(s) but was called with {found}"
  | .conditionNotInt found => s!"if condition must evaluate to an int, found {found.text}"
  | .notAttributable found name =>
    s!"cannot read attribute '{name}' of {found.text}; only objects have attributes"
  | .unknownAttribute name => s!"object has no attribute '{name}'"
  | .incomparable op left right =>
    s!"operator '{op.text}' cannot order {left.text} and {right.text}"
  | .returnOutsideFunction => "return outside function"
  | .notCallable found => s!"{found.text} is not callable"
  | .unknownOperator text => s!"unknown operator '{text}'"
  | .callDepth limit => s!"maximum call depth of {limit} exceeded"
  | .stackExhausted => "call nesting exhausted the interpreter stack"
  | .returnAsValue => "return cannot be used where a value is expected"
  | .manifestUnreadable path reason => s!"there was an error in reading from {path}: {reason}"
  | .manifestInvalid name path => s!"there was an error in parsing {name} from {path}"
  | .interfaceEntry name path => s!"interface entry '{name}' in {path} must be a string"
  | .foreignOutput command => s!"there was an error in parsing the output of `{command}`"
  | .startFailed command reason => s!"failed to run `{command}`: {reason}"

def hints : EvalFault → List String
  | .undefinedAssignment name => [s!"declare it first with 'let {name};'"]
  | .callDepth _ => ["raise max_call_depth in the interpreter configuration"]
  | .stackExhausted => ["lower max_call_depth in the interpreter configuration"]
  | .returnAsValue => ["return is only allowed as a statement inside a function body"]
  | .interfaceEntry _ _ => ["manifests map exposed names to shell command templates"]
  | .foreignOutput _ => ["foreign functions must write a single JSON value to stdout"]
  | _ => []

/-- Whether the fault lies beyond the program: in a manifest, a foreign
function or a program that was run. -/
def isForeign : EvalFault → Bool
  | .manifestUnreadable _ _ | .manifestInvalid _ _ | .interfaceEntry _ _ | .foreignOutput _
  | .startFailed _ _ => true
  | _ => false

/-- The report of a fault that no place is known for. -/
def diagnostic (f : EvalFault) : Diagnostic :=
  { code := f.code, message := f.message, hints := f.hints }

end EvalFault

-- ================================================================ aborts

/-- The conditions that end a run without a report. -/
inductive Abort where
  /-- An infinite dividend has no remainder. -/
  | noRemainder
  /-- A number literal that is no number, or has too many digits. -/
  | number (fault : Decimal.Fault)
  /-- A whole number of a JSON text is beyond the largest double. -/
  | integerBeyondDoubles
  | unknownEncoding (name : String)
  /-- The bytes of a node begin or end inside a character. -/
  | brokenText (flaw : Utf8.Broken)
  /-- An expression statement without an expression. -/
  | missingExpression
  /-- A binary expression without an operator. -/
  | missingOperator
  /-- The path of a manifest holds a NUL. -/
  | nullByte
  /-- A value of another kind was run as a foreign function. -/
  | notForeign (found : Kind)
  /-- A JSON text nests too deep. -/
  | jsonTooDeep
  deriving DecidableEq, Repr

def Abort.message : Abort → String
  | .noRemainder => "math domain error"
  | .number fault => fault.message
  | .integerBeyondDoubles => "int too large to convert to float"
  | .unknownEncoding name => s!"unknown encoding: {name}"
  | .brokenText flaw => flaw.message
  | .missingExpression => "list index out of range"
  | .missingOperator => "'NoneType' object has no attribute 'start_byte'"
  | .nullByte => "embedded null byte"
  | .notForeign found => s!"expected a foreign function, got {found.text}"
  | .jsonTooDeep => "maximum recursion depth exceeded"

-- ============================================================== failures

/-- Where something went wrong: a stretch of the program, and its first
line. -/
structure Place where
  span : Span
  line : Option String
  deriving DecidableEq, Repr

/-- Why a run ended early. -/
inductive Failure where
  | fault (cause : EvalFault) (place : Option Place)
  | abort (cause : Abort)
  /-- The run nested deeper than its bounds allow. -/
  | exhausted
  deriving DecidableEq, Repr

namespace Failure

/-- Gives a fault that has no place yet a place. -/
def locate (f : Failure) (place : Place) : Failure :=
  match f with
  | .fault cause none => .fault cause (some place)
  | f => f

/-- The report of a fault at a place, if one is known. -/
def report (cause : EvalFault) (place : Option Place) : Diagnostic :=
  match place with
  | some p => cause.diagnostic.locate (some p.span) p.line
  | none => cause.diagnostic

end Failure

end SamScript
