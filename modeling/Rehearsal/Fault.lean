import Rehearsal.Fault.Class
import Rehearsal.Fault.Misconfiguration
import Rehearsal.Value.Shown

/-!
Failures as data: what went wrong, from which the class and the message follow.
-/

namespace Rehearsal

inductive Untimely where
  | completed (operation : String)
  | executing (operation : String)
  | detached
  deriving DecidableEq, Repr

def Untimely.message : Untimely → String
  | .completed operation =>
    operation ++ "() cannot change a completed step; call and_() to start a new step"
  | .executing operation => operation ++ "() called while a step is executing"
  | .detached => "This validation is not attached to a scenario"

/-- What a step waited for in vain; the last field is its timeout in seconds. -/
inductive Lateness where
  | noAnswer (method url : String) (seconds : Binary64)
  | answerUnfinished (method url : String) (seconds : Binary64)
  | sendUnfinished (topic : String) (seconds : Binary64)
  | nothingConsumed (topic : String) (seconds : Binary64)
  | consumedFewer (received : Nat) (wanted : Int) (topic : String) (seconds : Binary64)
  deriving DecidableEq, Repr

def Lateness.message : Lateness → String
  | .noAnswer method url seconds =>
    "HTTP " ++ method ++ " " ++ url ++ " timed out after " ++ seconds.general ++ "s"
  | .answerUnfinished method url seconds =>
    "HTTP " ++ method ++ " " ++ url ++ " did not complete within timeout of " ++ seconds.general
      ++ "s"
  | .sendUnfinished topic seconds =>
    "Failed to produce message to topic '" ++ topic ++ "' within timeout of " ++ seconds.general
      ++ "s"
  | .nothingConsumed topic seconds =>
    "No message consumed from topic '" ++ topic ++ "' within timeout of " ++ seconds.general ++ "s"
  | .consumedFewer received wanted topic seconds =>
    "Consumed " ++ toString received ++ " of " ++ toString wanted ++ " messages from topic '"
      ++ topic ++ "' within timeout of " ++ seconds.general ++ "s"

inductive Breakdown where
  | request (method url why : String)
  | tokenRequest (url why : String)
  | tokenStatus (url : String) (status : Int)
  | tokenNotJson (url : String)
  | tokenMissing (url : String)
  | tokenLifetime (url shown : String)
  | producing (topic why : String)
  | consuming (topic why : String)
  | undecodable (topic : String) (partition offset : Int) (typeName why : String)
  | producerClosed
  | consumerClosed
  | unknownPartition (partition : Int) (topic : String) (count : Nat)
  deriving DecidableEq, Repr

def Breakdown.message : Breakdown → String
  | .request method url why => "HTTP " ++ method ++ " " ++ url ++ " failed: " ++ why
  | .tokenRequest url why => "OAuth2 token request to " ++ url ++ " failed: " ++ why
  | .tokenStatus url status =>
    "OAuth2 token request to " ++ url ++ " failed with HTTP " ++ toString status
  | .tokenNotJson url => "OAuth2 token response from " ++ url ++ " is not JSON"
  | .tokenMissing url => "OAuth2 token response from " ++ url ++ " has no access_token"
  | .tokenLifetime url shown =>
    "OAuth2 token response from " ++ url ++ " has a non-numeric expires_in: " ++ shown
  | .producing topic why => "Failed to produce message to topic '" ++ topic ++ "': " ++ why
  | .consuming topic why => "Failed to consume from topic '" ++ topic ++ "': " ++ why
  | .undecodable topic partition offset typeName why =>
    "Cannot deserialize message from topic '" ++ topic ++ "' (partition " ++ toString partition
      ++ ", offset " ++ toString offset ++ ") as " ++ typeName ++ ": " ++ why
  | .producerClosed => "Producer is closed"
  | .consumerClosed => "Consumer is closed"
  | .unknownPartition partition topic count =>
    "Unknown partition " ++ toString partition ++ " for topic '" ++ topic ++ "' ("
      ++ toString count ++ " partitions)"

/-- What an assertion expected or found: a value, a check, or the result it was about. -/
inductive Evidence where
  | value (v : Value)
  | check
  | result
  deriving Repr, Inhabited

def Evidence.nothing : Evidence := .value .null

inductive Fault where
  | configuration (cause : Misconfiguration)
  | scenarioState (cause : Untimely)
  | incompatibleStep (operation actual : String) (accepted : List String)
  | invalidPath (why : String) (path : Option String)
  | emptyDocument (why : String)
  | malformedDocument (why : String)
  | pathNotFound (path segment reason : String)
  | typeMismatch (path : String) (expected : Kind) (actual : Value)
  | deliveryFailure (topic : String) (status : String)
  | stepTimeout (cause : Lateness)
  | transport (cause : Breakdown)
  | assertionFailure (text : String) (path : Option String) (expected actual : Evidence)
      (cause : Option FaultClass)
  | raised (kind : FaultClass) (text : String)
  deriving Repr, Inhabited

namespace Fault

def kind : Fault → FaultClass
  | .configuration _ => .configuration
  | .scenarioState _ => .scenarioState
  | .incompatibleStep .. => .incompatibleStep
  | .invalidPath .. => .invalidPath
  | .emptyDocument _ => .emptyDocument
  | .malformedDocument _ => .malformedDocument
  | .pathNotFound .. => .pathNotFound
  | .typeMismatch .. => .typeMismatch
  | .deliveryFailure .. => .deliveryFailure
  | .stepTimeout _ => .stepTimeout
  | .transport _ => .transport
  | .assertionFailure .. => .assertionFailure
  | .raised kind _ => kind

def message : Fault → String
  | .configuration cause => cause.message
  | .scenarioState cause => cause.message
  | .incompatibleStep operation actual accepted =>
    operation ++ "() cannot be applied to a " ++ actual ++ "; it requires one of: "
      ++ String.intercalate ", " accepted
  | .invalidPath why _ => why
  | .emptyDocument why => why
  | .malformedDocument why => why
  | .pathNotFound path segment reason =>
    "Path '" ++ path ++ "' not found at segment '" ++ segment ++ "': " ++ reason
  | .typeMismatch path expected actual =>
    "Value at '" ++ path ++ "' cannot be read as " ++ expected.name ++ ": got " ++ actual.typeName
      ++ " " ++ actual.shown
  | .deliveryFailure topic status =>
    "Message to topic '" ++ topic ++ "' was not persisted (status: " ++ status ++ ")"
  | .stepTimeout cause => cause.message
  | .transport cause => cause.message
  | .assertionFailure text .. => text
  | .raised _ text => text

def wrongType (text : String) : Fault := .raised .wrongType text

def badValue (text : String) : Fault := .raised .badValue text

/-- A value of a type that no key has. -/
def noKey (type : String) : Fault := wrongType ("unhashable type: '" ++ type ++ "'")

end Fault

end Rehearsal
