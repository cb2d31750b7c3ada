import NamespaceTopology.Config.Settings
import NamespaceTopology.Json.Reader
import NamespaceTopology.Number.Binary64

set_option autoImplicit false

/-!
Settings as a JSON document. A section is an object, in which unknown names are passed over and known
ones stand at most once, or an array of its values in order; what is missing takes its default.
-/
namespace NamespaceTopology

namespace Json

/-- The members of an object or array under the given names. An array gives them by position. -/
def Node.fields (names : List String) : Node → Option (List (String × Node))
  | .array items => if items.length ≤ names.length then some (names.zip items) else none
  | .object members => do
    let members ← members.mapM fun m => m.1.map fun name => (name, m.2)
    let known := members.filter fun m => names.contains m.1
    if (known.map Prod.fst).Nodup then some known else none
  | _ => none

/-- The member of a name read by `read`, or the default if there is none. -/
def member {α : Type} (fields : List (String × Node)) (name : String) (default : α)
    (read : Node → Option α) : Option α :=
  match fields.lookup name with
  | some node => read node
  | none => some default

def Node.text? : Node → Option String
  | .text s => s
  | _ => none

def Node.intWithin? (low high : Int) : Node → Option Int
  | .number (some n) => if low ≤ n ∧ n ≤ high then some n else none
  | _ => none

/-- A text in quotes. Controls have escapes, all else stands for itself. -/
def quotedChar (c : Char) : String :=
  if c = '"' then "\\\""
  else if c = '\\' then "\\\\"
  else if c = '\x08' then "\\b"
  else if c = '\x0c' then "\\f"
  else if c = '\n' then "\\n"
  else if c = '\r' then "\\r"
  else if c = '\t' then "\\t"
  else if c.toNat < 0x20 then
    "\\u00" ++ (if c.toNat < 0x10 then "0" else "") ++ Text.hex c.toNat
  else c.toString

def quoted (s : String) : String := "\"" ++ String.join (s.toList.map quotedChar) ++ "\""

def writeObject (members : List (String × String)) : String :=
  "\x7b" ++ ",".intercalate (members.map fun m => quoted m.1 ++ ":" ++ m.2) ++ "\x7d"

end Json

open Json

def FollowSettings.ofNode (node : Node) : Option FollowSettings := do
  let fields ← node.fields ["namespace_registry_key", "init_timeout_ms"]
  let key ← member fields "namespace_registry_key" FollowSettings.default.key Node.text?
  let timeout ← member fields "init_timeout_ms" FollowSettings.default.initTimeoutMs.toInt
    (Node.intWithin? minInt64 maxInt64)
  some ⟨key, Int64.ofInt timeout⟩

def MonitoringSettings.ofNode (node : Node) : Option MonitoringSettings := do
  let fields ← node.fields ["metrics_scope", "report_interval_ms"]
  let scope ← member fields "metrics_scope" MonitoringSettings.default.scope Node.text?
  let interval ← member fields "report_interval_ms"
    (MonitoringSettings.default.reportIntervalMs.toNat : Int) (Node.intWithin? 0 maxUInt64)
  some ⟨scope, UInt64.ofNat interval.toNat⟩

def Settings.ofNode (node : Node) : Option Settings := do
  let fields ← node.fields ["registry", "monitoring"]
  let registry ← member fields "registry" FollowSettings.default FollowSettings.ofNode
  let monitoring ← member fields "monitoring" MonitoringSettings.default MonitoringSettings.ofNode
  some ⟨registry, monitoring⟩

def Settings.ofJson (text : String) : Option Settings := read text >>= Settings.ofNode

def Settings.toJson (s : Settings) : String :=
  writeObject
    [("registry", writeObject
      [("namespace_registry_key", quoted s.registry.key),
       ("init_timeout_ms", toString s.registry.initTimeoutMs.toInt)]),
     ("monitoring", writeObject
      [("metrics_scope", quoted s.monitoring.scope),
       ("report_interval_ms", toString s.monitoring.reportIntervalMs.toNat)])]

end NamespaceTopology
