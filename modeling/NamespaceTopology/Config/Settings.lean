import NamespaceTopology.Error
import NamespaceTopology.Text.Blank

set_option autoImplicit false

/-!
The settings of a registry and the rules for usable ones. Loading settings never checks them.
-/
namespace NamespaceTopology

structure FollowSettings where
  key : String
  initTimeoutMs : Int64
deriving DecidableEq, Repr

structure MonitoringSettings where
  scope : String
  reportIntervalMs : UInt64
deriving DecidableEq, Repr

structure Settings where
  registry : FollowSettings
  monitoring : MonitoringSettings
deriving DecidableEq, Repr

def FollowSettings.default : FollowSettings := ⟨"namespace_registry", 30000⟩

def MonitoringSettings.default : MonitoringSettings := ⟨"namespace_registry", 1000⟩

def Settings.default : Settings := ⟨.default, .default⟩

/-- A name that metrics may start with: a letter or an underscore, then letters, digits and
underscores, all of them ASCII. -/
def isScope (s : String) : Bool :=
  match s.toList with
  | [] => false
  | c :: cs => (c.isAlpha || c = '_') && cs.all fun c => c.isAlphanum || c = '_'

namespace FollowSettings

def validate (s : FollowSettings) : Except ConfigError Unit :=
  if Text.isAllBlank s.key then
    .error (.invalid "registry.namespace_registry_key must not be empty")
  else if s.initTimeoutMs.toInt < 0 then
    .error (.invalid
      ("registry.init_timeout_ms must be non-negative, got " ++ toString s.initTimeoutMs.toInt))
  else .ok ()

/-- How long the first value may take. A negative setting means not at all. -/
def initTimeout (s : FollowSettings) : Span := .ofMillis s.initTimeoutMs.toInt.toNat

end FollowSettings

namespace MonitoringSettings

/-- Above this interval the sampled version is noticeably old. -/
def longIntervalMs : Nat := 60000

def validate (s : MonitoringSettings) : Except ConfigError (List Notice) :=
  if isScope s.scope = false then
    .error (.invalid
      ("monitoring.metrics_scope " ++ Text.quoted s.scope ++ " is not a valid metric namespace"))
  else if s.reportIntervalMs = 0 then
    .error (.invalid "monitoring.report_interval_ms must be greater than 0")
  else if longIntervalMs < s.reportIntervalMs.toNat then
    .ok [.warning ("monitoring.report_interval_ms (" ++ toString s.reportIntervalMs.toNat ++
      ") is above one minute; current_version will lag")]
  else .ok []

def reportInterval (s : MonitoringSettings) : Span := .ofMillis s.reportIntervalMs.toNat

end MonitoringSettings

def Settings.validate (s : Settings) : Except ConfigError (List Notice) := do
  s.registry.validate
  s.monitoring.validate

theorem FollowSettings.validate_eq_ok_iff (s : FollowSettings) :
    s.validate = .ok () ↔ Text.isAllBlank s.key = false ∧ 0 ≤ s.initTimeoutMs.toInt := by
  unfold FollowSettings.validate
  repeat' split
  all_goals simp_all

theorem MonitoringSettings.validate_isOk_iff (s : MonitoringSettings) :
    s.validate.toBool = true ↔ isScope s.scope = true ∧ s.reportIntervalMs ≠ 0 := by
  unfold MonitoringSettings.validate
  repeat' split
  all_goals simp_all [Except.toBool]

end NamespaceTopology
