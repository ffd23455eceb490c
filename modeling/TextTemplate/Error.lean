import TextTemplate.Tree
import TextTemplate.Report

/-! Why a template cannot be loaded, compiled or rendered, and the words for it. -/

namespace TextTemplate

inductive InvocationFault where
  | notCallable (described : String)
  /-- The variables of the lambda are gone. -/
  | finished
  | argumentCount (expected given : Nat)
  deriving Repr, DecidableEq

def InvocationFault.message : InvocationFault → String
  | .notCallable described => described ++ " is not callable"
  | .finished => "lambda called after the template that created it finished rendering"
  | .argumentCount expected given =>
    "lambda expects " ++ toString expected ++ " argument(s), got " ++ toString given

inductive OperationFault where
  | overflow (op : ArithmeticOp) (a b : Int64)
  | negationOverflow (a : Int64)
  | divisionByZero
  | undefinedUnary (op : UnaryOp) (described : String)
  | undefinedBinary (op : BinaryOp) (lhs rhs : String)
  | notIterable (described : String)
  | host (reason : String)
  deriving Repr, DecidableEq

def OperationFault.message : OperationFault → String
  | .overflow op a b =>
    "integer overflow in " ++ toString a.toInt ++ " " ++ op.spelling ++ " " ++ toString b.toInt
  | .negationOverflow a => "integer overflow in -" ++ toString a.toInt
  | .divisionByZero => "division by zero"
  | .undefinedUnary op described =>
    "unary '" ++ op.spelling ++ "' is not defined for " ++ described
  | .undefinedBinary op lhs rhs =>
    "'" ++ op.spelling ++ "' is not defined for " ++ lhs ++ " and " ++ rhs
  | .notIterable described => "cannot iterate over " ++ described
  | .host reason => reason

inductive ResolutionFault where
  | invalidName (name : String)
  | emptyName
  | unreadable (path reason : String)
  deriving Repr, DecidableEq

def ResolutionFault.message : ResolutionFault → String
  | .invalidName name => "Invalid character is used in template name '" ++ name ++ "'"
  | .emptyName => "template name must not be empty"
  | .unreadable path reason => "Cannot read '" ++ path ++ "': " ++ reason

inductive OptionsFault where
  | emptyDelimiter
  | equalDelimiters (delimiter : String)
  | noDepth
  | noCacheSize
  deriving Repr, DecidableEq

def OptionsFault.message : OptionsFault → String
  | .emptyDelimiter => "script delimiters must not be empty"
  | .equalDelimiters d => "open and close delimiters are both '" ++ d ++ "'"
  | .noDepth => "max_depth must be at least 1"
  | .noCacheSize => "cache_size must be at least 1 when caching is enabled"

inductive Error where
  | compileFailed (template : String) (reports : List Report)
  | memberNotFound (member described : String)
  | invalidInvocation (fault : InvocationFault)
  | invalidOperation (fault : OperationFault)
  | templateNotFound (path : String)
  | resolution (fault : ResolutionFault)
  | recursionLimit (entered : String) (limit : Nat)
  | invalidOptions (fault : OptionsFault)
  deriving Repr, DecidableEq

namespace Error

def message : Error → String
  | .compileFailed template reports =>
    "Failed to compile " ++ template ++ " (" ++ toString reports.length ++ " error(s)):\n"
      ++ Report.listText reports
  | .memberNotFound member described =>
    "Member '" ++ member ++ "' doesn't exist in " ++ described
  | .invalidInvocation fault => "Invalid invocation: " ++ fault.message
  | .invalidOperation fault => "Invalid operation: " ++ fault.message
  | .templateNotFound path => "Template not found: " ++ path
  | .resolution fault => "Resolution error: " ++ fault.message
  | .recursionLimit entered limit =>
    "Recursion limit of " ++ toString limit ++ " exceeded while rendering " ++ entered
  | .invalidOptions fault => "Invalid options: " ++ fault.message

end Error
end TextTemplate
