import NamespaceTopology.Config.Settings

set_option autoImplicit false

/-!
The options of a dynamic registry: where it reads, which key it follows and how it is measured.
-/
namespace NamespaceTopology

/-- Where a registry finds its store. -/
inductive Client where
  | store
  /-- A remote service that says by itself when to look. -/
  | service
deriving DecidableEq, Repr

structure DynamicOptions where
  client : Option Client
  key : String
  initTimeout : Span
  scope : String
  reportInterval : Span
  exposition : String
deriving DecidableEq, Repr

namespace DynamicOptions

def ofSettings (s : Settings) : DynamicOptions where
  client := none
  key := s.registry.key
  initTimeout := s.registry.initTimeout
  scope := s.monitoring.scope
  reportInterval := s.monitoring.reportInterval
  exposition := ""

def default : DynamicOptions := ofSettings .default

def refuse (reason : String) : Except ConfigError Unit :=
  .error (.invalid ("invalid dynamic options: " ++ reason))

/-- Checks the options before anything is done with them. -/
def validate (o : DynamicOptions) : Except ConfigError Unit :=
  if o.client = none then refuse "config service client is not set"
  else if Text.isAllBlank o.key then refuse "namespace registry key is empty"
  else if o.reportInterval.nanos = 0 then refuse "report interval must be greater than 0"
  else if isScope o.scope = false then
    refuse ("metrics scope " ++ Text.quoted o.scope ++ " is not a valid metric namespace")
  else .ok ()

def debugText (o : DynamicOptions) : String :=
  dumpRecord "DynamicOptions"
    [("config_service_client", toString o.client.isSome),
     ("namespace_registry_key", Text.quoted o.key), ("init_timeout", o.initTimeout.text),
     ("instrument", dumpPartial "InstrumentOptions"
       [("metrics_scope", Text.quoted o.scope), ("report_interval", o.reportInterval.text)])]

theorem validate_eq_ok_iff (o : DynamicOptions) :
    o.validate = .ok () ↔ o.client ≠ none ∧ Text.isAllBlank o.key = false ∧
      o.reportInterval.nanos ≠ 0 ∧ isScope o.scope = true := by
  unfold DynamicOptions.validate refuse
  repeat' split
  all_goals simp_all

end DynamicOptions

end NamespaceTopology
