import Rehearsal.Number.Shortest
import Rehearsal.Text.Quoted

/-!
Why a configuration is refused: in a settings file, in the description of a step, in a call that
comes too early, or in the clients a step needs.

Fields named `shown` hold a value as messages show it, fields named `why` the message of the
failure behind.
-/

namespace Rehearsal

inductive Misconfiguration where
  -- authentication
  | blankField (auth field : String)
  | noCustomHeader
  | missingBlock (auth block : String)
  | unsupportedHttpAuth (shown : String)
  | unsupportedBrokerAuth (shown : String)
  | unknownHttpAuth (shown : String)
  | unknownBrokerAuth (shown : String)
  | unknownGrant (shown : String)
  | halfKeyPair
  | noKeyPair
  | blockNotMapping (block typeName : String)
  | invalidBlock (block why : String)
  | invalidOAuth2 (why : String)
  -- settings
  | rootNotMapping (typeName : String)
  | sectionNotMapping (name : String)
  | unknownEnvironment (name shown : String)
  | invalidSettings (why : String)
  | timeoutNotNumber (text : String)
  | settingsNotFound (path : String)
  | settingsNotParsed (path : String)
  -- descriptions of steps
  | noUrl
  | noTopicIn (owner : String)
  | timeoutNotPositive (owner shown : String)
  | negativePartition (partition : Int)
  | unknownCompression (shown : String)
  | unknownAcks (shown : String)
  | negativeTuning (field shown : String)
  | unknownReset (shown : String)
  | noMessages
  | countBelowOne (count : Int)
  -- calls on a scenario
  | noStep (operation : String)
  | nothingToExecute
  | nothingToSave
  | noResource
  | noBaseUrl (path : String)
  | noTopicName
  | noPendingTopic (operation : String)
  | notPairs (shown : String)
  | noValueFor (operation : String)
  | unsupportedJsonOptions (names : List String)
  -- the property bag
  | propertyOfOtherType (key actual wanted : String)
  | propertyMissing (key : String)
  | unnamedStep
  -- clients
  | poolClosed
  | noBroker
  | certificate (path why : String)
  | bodyNotSerializable (method url why : String)
  deriving DecidableEq, Repr

def jsonOptionNames : List String :=
  ["sort_keys", "indent", "separators", "ensure_ascii", "allow_nan", "default"]

def compressionTypes : List String := ["none", "gzip", "snappy", "lz4", "zstd"]

def ackModes : List String := ["0", "1", "-1", "all"]

def offsetResets : List String := ["earliest", "latest"]

namespace Misconfiguration

def message : Misconfiguration → String
  | .blankField auth field => auth ++ " authentication requires a non-empty '" ++ field ++ "'"
  | .noCustomHeader => "Custom header authentication requires at least one header"
  | .missingBlock auth block =>
    "Authentication type " ++ auth ++ " selected but the '" ++ block ++ "' configuration is missing"
  | .unsupportedHttpAuth shown => "Unsupported HTTP authentication type: " ++ shown
  | .unsupportedBrokerAuth shown => "Unsupported broker authentication type: " ++ shown
  | .unknownHttpAuth shown => "Unknown HTTP authentication type: " ++ shown
  | .unknownBrokerAuth shown => "Unknown broker authentication type: " ++ shown
  | .unknownGrant shown => "Unknown OAuth2 grant type: " ++ shown
  | .halfKeyPair => "SSL client authentication requires both certificate_location and key_location"
  | .noKeyPair => "Mutual TLS requires certificate_location and key_location"
  | .blockNotMapping block typeName =>
    "authentication." ++ block ++ " must be a mapping, got " ++ typeName
  | .invalidBlock block why => "Invalid authentication." ++ block ++ " block: " ++ why
  | .invalidOAuth2 why => "Invalid OAuth2 configuration: " ++ why
  | .rootNotMapping typeName => "Settings root must be a mapping, got " ++ typeName
  | .sectionNotMapping name => "Settings section '" ++ name ++ "' must be a mapping"
  | .unknownEnvironment name shown =>
    "Settings environment '" ++ name ++ "' not defined; known: " ++ shown
  | .invalidSettings why => "Invalid settings: " ++ why
  | .timeoutNotNumber text => "ASSURED_HTTP_TIMEOUT_SECONDS is not a number: " ++ Text.quoted text
  | .settingsNotFound path => "Settings file not found: " ++ path
  | .settingsNotParsed path => "Cannot parse settings file " ++ path
  | .noUrl => "HttpStep requires a url"
  | .noTopicIn owner => owner ++ " requires a topic"
  | .timeoutNotPositive owner shown => owner ++ ".timeout must be positive, got " ++ shown
  | .negativePartition partition =>
    "ProduceStep.partition must not be negative, got " ++ toString partition
  | .unknownCompression shown =>
    "Unknown compression type " ++ shown ++ "; use one of " ++ Text.quotedTuple compressionTypes
  | .unknownAcks shown =>
    "Unknown acks mode " ++ shown ++ "; use one of " ++ Text.quotedTuple ackModes
  | .negativeTuning field shown => "Producer " ++ field ++ " must not be negative, got " ++ shown
  | .unknownReset shown =>
    "auto_offset_reset must be one of " ++ Text.quotedTuple offsetResets ++ ", got " ++ shown
  | .noMessages => "BatchProduceStep requires at least one message"
  | .countBelowOne count =>
    "BatchConsumeStep.message_count must be at least 1, got " ++ toString count
  | .noStep operation =>
    operation ++ "() needs a step; start with api_resource() or topic() and an operation"
  | .nothingToExecute => "execute() needs a step; start with api_resource() or topic()"
  | .nothingToSave => "save_step() needs a step to save"
  | .noResource => "api_resource() requires a path or URL"
  | .noBaseUrl path =>
    "api_resource('" ++ path ++ "') is relative but no http.base_url is configured"
  | .noTopicName => "topic() requires a topic name"
  | .noPendingTopic operation => operation ++ "() requires a topic; call topic(name) first"
  | .notPairs shown => "produce_batch() expects (key, value) pairs, got " ++ shown
  | .noValueFor operation => operation ++ "() requires a value"
  | .unsupportedJsonOptions names =>
    "Unsupported JSON options " ++ Text.quotedList names ++ "; use "
      ++ Text.quotedList jsonOptionNames
  | .propertyOfOtherType key actual wanted =>
    "Context property '" ++ key ++ "' is " ++ actual ++ ", expected " ++ wanted
  | .propertyMissing key => "Context property '" ++ key ++ "' is not set"
  | .unnamedStep => "A saved step needs a non-empty name"
  | .poolClosed => "TransportPool is closed"
  | .noBroker => "No broker client factory configured on the TransportPool"
  | .certificate path why => "Cannot load client certificate '" ++ path ++ "': " ++ why
  | .bodyNotSerializable method url why =>
    "HTTP body for " ++ method ++ " " ++ url ++ " is not JSON serializable: " ++ why

end Misconfiguration

end Rehearsal
