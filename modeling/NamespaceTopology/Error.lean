import NamespaceTopology.Span
import NamespaceTopology.Text.Quoted

set_option autoImplicit false

/-!
What can go wrong, by layer, and the texts that tell it: `message` for an operator, `debugText` for a
diagnostic dump. A `Notice` is what an operation tells the operator beside its result.
-/
namespace NamespaceTopology

inductive ConfigError where
  /-- A rule that a setting breaks, in words. -/
  | invalid (reason : String)
  | wrongKind
  | malformedFile
  /-- A file does not exist, or its format is not supported. -/
  | noSuchFile
deriving DecidableEq, Repr

inductive StoreError where
  | unavailable (reason : String)
  | watchFailed (key reason : String)
  /-- The bytes stored at a version are not a message of the expected kind. -/
  | undecodable (version : Int64)
deriving DecidableEq

inductive NamespaceError where
  | noMetadata
  | emptyId
  | duplicate (id : String)
  | missingField (id field : String)
  | invalidOptions (id reason : String)
  | unreadable
deriving DecidableEq, Repr

inductive LifecycleError where
  | closed
  | alreadyClosed
deriving DecidableEq, Repr

inductive MetricsError where
  | alreadyRegistered
  | rejected (reason : String)
deriving DecidableEq, Repr

inductive Error where
  | config (cause : ConfigError)
  | initTimeout (after : Span)
  | store (cause : StoreError)
  | namespaces (cause : NamespaceError)
  | lifecycle (cause : LifecycleError)
  | hubClosed
  | metrics (cause : MetricsError)
deriving DecidableEq

def ConfigError.message : ConfigError → String
  | .invalid reason => reason
  | .wrongKind => "invalid type"
  | .malformedFile => "malformed file"
  | .noSuchFile => "configuration file not found"

def StoreError.message : StoreError → String
  | .unavailable reason => "Key-value store unavailable: " ++ reason
  | .watchFailed key reason => "Failed to watch key " ++ key ++ ": " ++ reason
  | .undecodable version => "Failed to decode value at version " ++ toString version.toInt

def NamespaceError.message : NamespaceError → String
  | .noMetadata => "no namespace metadata provided"
  | .emptyId => "namespace id must not be empty"
  | .duplicate id => "duplicate namespace: " ++ id
  | .missingField id field => "namespace " ++ id ++ ": missing " ++ field
  | .invalidOptions id reason => "namespace " ++ id ++ ": invalid options: " ++ reason
  | .unreadable => "could not parse latest value from config service"

def LifecycleError.message : LifecycleError → String
  | .closed => "registry closed"
  | .alreadyClosed => "registry already closed"

def MetricsError.message : MetricsError → String
  | .alreadyRegistered => "Duplicate metrics collector registration attempted"
  | .rejected reason => "Error: " ++ reason

/-- What an operator is told. -/
def Error.message : Error → String
  | .config cause => cause.message
  | .initTimeout after => "timed out waiting for initial value after " ++ after.text
  | .store cause => cause.message
  | .namespaces cause => cause.message
  | .lifecycle cause => cause.message
  | .hubClosed => "broadcast hub closed"
  | .metrics cause => "Metrics error: " ++ cause.message

/-- A case with its values in order, as a dump shows it. -/
def dumpTuple (name : String) (values : List String) : String :=
  name ++ "(" ++ ", ".intercalate values ++ ")"

/-- A case with named values, as a dump shows it. -/
def dumpRecord (name : String) (fields : List (String × String)) : String :=
  name ++ " \x7b " ++ ", ".intercalate (fields.map fun f => f.1 ++ ": " ++ f.2) ++ " \x7d"

/-- A case with named values of which only some are shown. -/
def dumpPartial (name : String) (fields : List (String × String)) : String :=
  name ++ " \x7b " ++ String.join (fields.map fun f => f.1 ++ ": " ++ f.2 ++ ", ") ++ ".. \x7d"

def StoreError.debugText : StoreError → String
  | .unavailable reason => dumpTuple "StoreUnavailable" [Text.quoted reason]
  | .watchFailed key reason =>
    dumpRecord "WatchFailed" [("key", Text.quoted key), ("reason", Text.quoted reason)]
  | .undecodable version => dumpRecord "Decode" [("version", toString version.toInt)]

def NamespaceError.debugText : NamespaceError → String
  | .noMetadata => "EmptyMetadatas"
  | .emptyId => "EmptyId"
  | .duplicate id => dumpTuple "Duplicate" [Text.quoted id]
  | .missingField id field =>
    dumpRecord "MissingField" [("id", Text.quoted id), ("field", Text.quoted field)]
  | .invalidOptions id reason =>
    dumpRecord "InvalidOptions" [("id", Text.quoted id), ("reason", Text.quoted reason)]
  | .unreadable => "InvalidRegistry"

def LifecycleError.debugText : LifecycleError → String
  | .closed => "Closed"
  | .alreadyClosed => "AlreadyClosed"

def MetricsError.debugText : MetricsError → String
  | .alreadyRegistered => "AlreadyReg"
  | .rejected reason => dumpTuple "Msg" [Text.quoted reason]

/-- The whole error in a diagnostic dump, each layer around the one below. -/
def Error.debugText : Error → String
  | .config cause => dumpTuple "Config" [cause.message]
  | .initTimeout after => dumpTuple "InitTimeout" [after.text]
  | .store cause => dumpTuple "Kv" [cause.debugText]
  | .namespaces cause => dumpTuple "Namespace" [cause.debugText]
  | .lifecycle cause => dumpTuple "Registry" [cause.debugText]
  | .hubClosed => dumpTuple "Broadcast" ["Closed"]
  | .metrics cause => dumpTuple "Metrics" [cause.debugText]

/-- Whether the caller gave up waiting for the first value, and so may try again later. -/
def Error.isInitTimeout : Error → Bool
  | .initTimeout _ => true
  | _ => false

/-- Whether the error only says that something has been closed. -/
def Error.isClosed : Error → Bool
  | .lifecycle _ => true
  | .hubClosed => true
  | _ => false

theorem Error.isInitTimeout_iff (e : Error) :
    e.isInitTimeout = true ↔ ∃ after, e = .initTimeout after := by
  cases e <;> simp [Error.isInitTimeout]

theorem Error.isClosed_iff (e : Error) :
    e.isClosed = true ↔ (∃ cause, e = .lifecycle cause) ∨ e = .hubClosed := by
  cases e <;> simp [Error.isClosed]

inductive Severity where
  | warning
  | error
deriving DecidableEq, Repr

structure Notice where
  severity : Severity
  text : String
deriving DecidableEq, Repr

def Notice.warning (text : String) : Notice := ⟨.warning, text⟩

def Notice.error (text : String) : Notice := ⟨.error, text⟩

end NamespaceTopology
