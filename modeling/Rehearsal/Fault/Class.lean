/-!
The classes of failures and which class is a special case of which.
-/

namespace Rehearsal

inductive FaultClass where
  | exception
  | library
  | configuration
  | scenarioState
  | incompatibleStep
  | jsonPath
  | invalidPath
  | emptyDocument
  | malformedDocument
  | pathNotFound
  | typeMismatch
  | deliveryFailure
  | stepTimeout
  | transport
  | assertionFailure
  | assertion
  | timeout
  | system
  | wrongType
  | badValue
  | jsonText
  | utf8Text
  | arithmetic
  | decimalLimit
  | overflow
  | divisionByZero
  | lookup
  | missingKey
  | missingIndex
  | missingAttribute
  | runtime
  | invalidUrl
  | asciiText
  deriving DecidableEq, Repr, Inhabited

namespace FaultClass

def name : FaultClass → String
  | .exception => "Exception"
  | .library => "AssuredError"
  | .configuration => "ConfigurationError"
  | .scenarioState => "ScenarioStateError"
  | .incompatibleStep => "IncompatibleStepError"
  | .jsonPath => "JsonPathError"
  | .invalidPath => "InvalidPathError"
  | .emptyDocument => "EmptyDocumentError"
  | .malformedDocument => "MalformedDocumentError"
  | .pathNotFound => "PathNotFoundError"
  | .typeMismatch => "TypeMismatchError"
  | .deliveryFailure => "DeliveryFailureError"
  | .stepTimeout => "StepTimeoutError"
  | .transport => "TransportError"
  | .assertionFailure => "AssertionFailureError"
  | .assertion => "AssertionError"
  | .timeout => "TimeoutError"
  | .system => "OSError"
  | .wrongType => "TypeError"
  | .badValue => "ValueError"
  | .jsonText => "JSONDecodeError"
  | .utf8Text => "UnicodeDecodeError"
  | .arithmetic => "ArithmeticError"
  | .decimalLimit => "InvalidOperation"
  | .overflow => "OverflowError"
  | .divisionByZero => "ZeroDivisionError"
  | .lookup => "LookupError"
  | .missingKey => "KeyError"
  | .missingIndex => "IndexError"
  | .missingAttribute => "AttributeError"
  | .runtime => "RuntimeError"
  | .invalidUrl => "InvalidURL"
  | .asciiText => "UnicodeEncodeError"

def all : List FaultClass := [
  .exception, .library, .configuration, .scenarioState, .incompatibleStep, .jsonPath, .invalidPath,
  .emptyDocument, .malformedDocument, .pathNotFound, .typeMismatch, .deliveryFailure, .stepTimeout,
  .transport, .assertionFailure, .assertion, .timeout, .system, .wrongType, .badValue, .jsonText,
  .utf8Text, .arithmetic, .decimalLimit, .overflow, .divisionByZero, .lookup, .missingKey,
  .missingIndex, .missingAttribute, .runtime, .invalidUrl, .asciiText]

def ofName? (s : String) : Option FaultClass := all.find? (·.name == s)

/-- Every class that a failure of this class also belongs to. -/
def ancestors : FaultClass → List FaultClass
  | .exception => []
  | .library => [.exception]
  | .configuration => [.library, .exception]
  | .scenarioState => [.configuration, .library, .exception]
  | .incompatibleStep => [.library, .exception]
  | .jsonPath => [.library, .exception]
  | .invalidPath => [.jsonPath, .library, .exception]
  | .emptyDocument => [.jsonPath, .library, .exception]
  | .malformedDocument => [.jsonPath, .library, .exception]
  | .pathNotFound => [.jsonPath, .library, .exception]
  | .typeMismatch => [.jsonPath, .library, .exception]
  | .deliveryFailure => [.library, .exception]
  | .stepTimeout => [.library, .timeout, .system, .exception]
  | .transport => [.library, .exception]
  | .assertionFailure => [.library, .assertion, .exception]
  | .assertion => [.exception]
  | .timeout => [.system, .exception]
  | .system => [.exception]
  | .wrongType => [.exception]
  | .badValue => [.exception]
  | .jsonText => [.badValue, .exception]
  | .utf8Text => [.badValue, .exception]
  | .arithmetic => [.exception]
  | .decimalLimit => [.arithmetic, .exception]
  | .overflow => [.arithmetic, .exception]
  | .divisionByZero => [.arithmetic, .exception]
  | .lookup => [.exception]
  | .missingKey => [.lookup, .exception]
  | .missingIndex => [.lookup, .exception]
  | .missingAttribute => [.exception]
  | .runtime => [.exception]
  | .invalidUrl => [.exception]
  | .asciiText => [.badValue, .exception]

def isA (kind wanted : FaultClass) : Bool := kind == wanted || kind.ancestors.contains wanted

end FaultClass

end Rehearsal
