import NamespaceTopology.Config.Environment
import NamespaceTopology.Config.Settings
import NamespaceTopology.Number.Binary64
import NamespaceTopology.Number.Shortest
import NamespaceTopology.Toml.Reader

set_option autoImplicit false

/-!
Settings from layers of sources. The built-in settings lie at the bottom, then come files in the order
in which they are given, and the environment lies on top each time. The sources have an order, but the
entries of one source have none: a field that one of them spells twice may come from either.
-/
namespace NamespaceTopology

namespace Config

/-- The integer within bounds that a value stands for. A fraction goes to the nearest integer, and
beyond the bounds to the end of its side. -/
def Tree.toInt (low high : Int) : Tree → Except ConfigError Int
  | .int n => if low ≤ n ∧ n ≤ high then .ok n else .error .wrongKind
  | .bool b => .ok (if b then 1 else 0)
  | .float x => .ok (x.toIntWithin low high)
  | .text s =>
    let word := lower s
    if word = "true" ∨ word = "on" ∨ word = "yes" then .ok 1
    else if word = "false" ∨ word = "off" ∨ word = "no" then .ok 0
    else
      let read := if low < 0 then Decimal.readInt s.toList
        else (Decimal.readUnsigned s.toList).map Int.ofNat
      match read with
      | some n => if low ≤ n ∧ n ≤ high then .ok n else .error .wrongKind
      | none => .error .wrongKind
  | _ => .error .wrongKind

def Tree.toText : Tree → Except ConfigError String
  | .text s => .ok s
  | .bool b => .ok (toString b)
  | .int n => .ok (toString n)
  | .float x => .ok x.text
  | _ => .error .wrongKind

/-- The values of a section under their names. An array gives them by position. -/
def Tree.section (names : List String) : Tree → Except ConfigError (List (String × Tree))
  | .table es => .ok es
  | .array items => .ok (names.zip items)
  | _ => .error (.invalid "a section of the configuration is not a table")

/-- The converted value of a name, or the default if there is none. -/
def setting {α : Type} (es : List (String × Tree)) (name : String) (default : α)
    (convert : Tree → Except ConfigError α) : Except ConfigError α :=
  match es.lookup name with
  | some t => convert t
  | none => .ok default

def readFollow (t : Tree) : Except ConfigError FollowSettings := do
  let es ← t.section ["namespace_registry_key", "init_timeout_ms"]
  let key ← setting es "namespace_registry_key" FollowSettings.default.key Tree.toText
  let timeout ← setting es "init_timeout_ms" FollowSettings.default.initTimeoutMs.toInt
    (Tree.toInt minInt64 maxInt64)
  .ok ⟨key, Int64.ofInt timeout⟩

def readMonitoring (t : Tree) : Except ConfigError MonitoringSettings := do
  let es ← t.section ["metrics_scope", "report_interval_ms"]
  let scope ← setting es "metrics_scope" MonitoringSettings.default.scope Tree.toText
  let interval ← setting es "report_interval_ms"
    (MonitoringSettings.default.reportIntervalMs.toNat : Int) (Tree.toInt 0 maxUInt64)
  .ok ⟨scope, UInt64.ofNat interval.toNat⟩

def readSettings (t : Tree) : Except ConfigError Settings := do
  let registry ← setting t.entries "registry" FollowSettings.default readFollow
  let monitoring ← setting t.entries "monitoring" MonitoringSettings.default readMonitoring
  .ok ⟨registry, monitoring⟩

/-- Settings as a source for the layers above them. An interval must fit a signed integer there. -/
def ofSettings (s : Settings) : Except ConfigError (List (String × Tree)) :=
  if maxInt64 < s.monitoring.reportIntervalMs.toNat then
    .error (.invalid "monitoring.report_interval_ms is too large")
  else .ok
    [("registry", .table
      [("namespace_registry_key", .text s.registry.key),
       ("init_timeout_ms", .int s.registry.initTimeoutMs.toInt)]),
     ("monitoring", .table
      [("metrics_scope", .text s.monitoring.scope),
       ("report_interval_ms", .int s.monitoring.reportIntervalMs.toNat)])]

structure Sources where
  environment : List (String × String)
  files : List (String × String)

/-- The end of a file name after its last point, if something stands before that. -/
def extension (name : String) : Option String :=
  let cs := name.toList.reverse
  match cs.dropWhile (· ≠ '.') with
  | '.' :: _ :: _ => some (String.ofList (cs.takeWhile (· ≠ '.')).reverse)
  | _ => none

/-- The text of the file that a name means: the file of this name, which must then be in the one
format that is known, or else the one with the format's extension added. -/
def Sources.file (sources : Sources) (name : String) : Except ConfigError String :=
  match sources.files.lookup name with
  | some text => if extension name = some "toml" then .ok text else .error .noSuchFile
  | none =>
    if name = "" then .error .noSuchFile
    else match sources.files.lookup (name ++ ".toml") with
      | some text => .ok text
      | none => .error .noSuchFile

/-- The entries of a file. A byte order mark before the document is no part of it. -/
def Sources.fileEntries (sources : Sources) (name : String) :
    Except ConfigError (List (String × Tree)) := do
  let text ← sources.file name
  match Toml.read (String.ofList (Toml.skipMark text.toList)) with
  | some es => .ok es
  | none => .error .malformedFile

end Config

open Config

/-- The sources of settings: other settings, files above them and the environment on top. -/
def Settings.layers (s : Settings) (sources : Sources) (files : List String) :
    Except ConfigError (List (List (String × Tree))) := do
  let base ← ofSettings s
  let layers ← files.mapM sources.fileEntries
  .ok (base :: layers ++ [ofEnvironment sources.environment])

def Settings.stacked (layers : List (List (String × Tree))) : Except ConfigError Settings :=
  readSettings (layers.foldl Tree.layer (.table []))

/-- Settings under the layers of files and of the environment. The entries of a source are taken in the order
in which they are written. -/
def Settings.layered (s : Settings) (sources : Sources) (files : List String) :
    Except ConfigError Settings := do
  let layers ← s.layers sources files
  stacked layers

/-- The built-in settings under those of a file, if one is given, and of the environment. -/
def Settings.load (sources : Sources) (file : Option String) : Except ConfigError Settings :=
  Settings.default.layered sources file.toList

def Settings.override (s : Settings) (sources : Sources) (file : String) :
    Except ConfigError Settings :=
  s.layered sources [file]

end NamespaceTopology
