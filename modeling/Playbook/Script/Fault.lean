/- What can be wrong with generated code: causes found while reading it and while running it. -/
namespace Playbook.Script

inductive SyntaxFault where
  | noVariableName
  | intTooLarge (text : String)
  | unterminatedString
  | unexpectedChar (c : Char)
  | expected (what found : String)
  | unexpected (found : String)
  | danglingBranch (word : String)
  | notAssignable
  | noAttributeName
  | notCallable
  | openPlaceholder
  | emptyPlaceholder
  | strayBrace
  | placeholder (inner : SyntaxFault)
  | tooDeep
deriving DecidableEq, Repr

def SyntaxFault.message : SyntaxFault → String
  | .noVariableName => "expected variable name after '$'"
  | .intTooLarge text => s!"integer literal '{text}' is too large"
  | .unterminatedString => "unterminated string literal"
  | .unexpectedChar c => s!"unexpected character '{c}'"
  | .expected what found => s!"expected {what}, found {found}"
  | .unexpected found => s!"unexpected {found}"
  | .danglingBranch word => s!"'{word}' without a matching 'if'"
  | .notAssignable => "cannot assign to expression"
  | .noAttributeName => "expected attribute name after '.'"
  | .notCallable => "only functions referenced by name can be called"
  | .openPlaceholder => "f-string: expecting '\x7d'"
  | .emptyPlaceholder => "f-string: empty expression not allowed"
  | .strayBrace => "f-string: single '\x7d' is not allowed"
  | .placeholder inner => "f-string: " ++ inner.message
  | .tooDeep => "nested too deeply"

structure SyntaxError where
  line : Nat
  fault : SyntaxFault
deriving DecidableEq, Repr

def SyntaxError.display (e : SyntaxError) : String :=
  s!"SyntaxError: {e.fault.message} (line {e.line})"

/-- A fault of a running statement. Types are given by their names. -/
inductive Fault where
  | undefinedName (name : String)
  | undefinedVariable (name : String)
  | notCallable (type : String)
  | arity (function : String) (expected given : Nat)
  | twoArguments (function : String) (given : Nat)
  | atMostOne (function : String)
  | exactlyOne (function : String)
  | noPlaybook
  | meetingArguments
  | notString (function position type : String)
  | notNames (function type : String)
  | noLength (type : String)
  | notConvertible (function type : String)
  | notMap (type : String)
  | notList (type : String)
  | unhashable (type : String)
  | notIndexable (type index : String)
  | notAssignable (type : String)
  | notComparable (operator left right : String)
  | unsupported (operator left right : String)
  | notNegatable (type : String)
  | notAnInt (text : String)
  | notAFloat (text : String)
  | overflow
  | repeatTooLong (limit : Nat)
  | missingKey (key : String)
  | outOfRange (index : Int)
  | moduloByZero
  | divisionByZero
  | noField (name : String)
  | noAttribute (type name : String)
  | host (text : String)
deriving DecidableEq, Repr

namespace Fault

def kind : Fault → String
  | .undefinedName _ | .undefinedVariable _ => "NameError"
  | .notAnInt _ | .notAFloat _ | .overflow | .repeatTooLong _ => "ValueError"
  | .missingKey _ => "KeyError"
  | .outOfRange _ => "IndexError"
  | .moduloByZero | .divisionByZero => "ZeroDivisionError"
  | .noField _ | .noAttribute .. => "AttributeError"
  | .host _ => "RuntimeError"
  | .notCallable _ | .arity .. | .twoArguments .. | .atMostOne _ | .exactlyOne _ | .noPlaybook
  | .meetingArguments | .notString .. | .notNames .. | .noLength _ | .notConvertible .. | .notMap _
  | .notList _ | .unhashable _ | .notIndexable .. | .notAssignable _ | .notComparable ..
  | .unsupported .. | .notNegatable _ => "TypeError"

def message : Fault → String
  | .undefinedName name => s!"name '{name}' is not defined"
  | .undefinedVariable name => s!"variable '${name}' is not defined"
  | .notCallable type => s!"'{type}' object is not callable"
  | .arity function expected given =>
    s!"{function}() takes {expected} argument(s) but {given} were given"
  | .twoArguments function given => s!"{function}() takes 2 arguments but {given} were given"
  | .atMostOne function => s!"{function}() takes at most 1 argument"
  | .exactlyOne function => s!"{function}() takes exactly 1 argument"
  | .noPlaybook => "Call() requires a playbook name"
  | .meetingArguments => "CreateMeeting() takes a playbook, a topic and up to two attendee lists"
  | .notString function position type =>
    s!"{function}() {position} must be a string, not '{type}'"
  | .notNames function type =>
    s!"{function}() attendees must be a list of names, not '{type}'"
  | .noLength type => s!"object of type '{type}' has no len()"
  | .notConvertible function type =>
    s!"{function}() argument must be a string or a number, not '{type}'"
  | .notMap type => s!"keys() expects a map, not '{type}'"
  | .notList type => s!"append() expects a list, not '{type}'"
  | .unhashable type => s!"unhashable type: '{type}'"
  | .notIndexable type index => s!"'{type}' object cannot be indexed by '{index}'"
  | .notAssignable type => s!"'{type}' object does not support item assignment"
  | .notComparable operator left right =>
    s!"'{operator}' not supported between '{left}' and '{right}'"
  | .unsupported operator left right =>
    s!"unsupported operand type(s) for {operator}: '{left}' and '{right}'"
  | .notNegatable type => s!"bad operand type for unary -: '{type}'"
  | .notAnInt text => s!"invalid literal for int(): '{text}'"
  | .notAFloat text => s!"could not convert string to float: '{text}'"
  | .overflow => "integer overflow"
  | .repeatTooLong limit => s!"repeated sequence would exceed {limit} items"
  | .missingKey key => s!"'{key}'"
  | .outOfRange index => s!"index {index} out of range"
  | .moduloByZero => "integer modulo by zero"
  | .divisionByZero => "division by zero"
  | .noField name => s!"map has no field '{name}'"
  | .noAttribute type name => s!"'{type}' object has no attribute '{name}'"
  | .host text => text

def display (f : Fault) : String := f.kind ++ ": " ++ f.message

end Fault
end Playbook.Script
