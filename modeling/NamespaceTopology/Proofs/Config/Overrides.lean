import NamespaceTopology.Proofs.Config.Variables

set_option autoImplicit false

/-!
Which source a setting comes from, when settings are loaded and then overridden by one file after another.
The environment comes first, whatever files are laid below it and above it, then the last file that says
anything. Each override starts from settings that have been merged and converted already, and lays the whole
environment on top again. Of a file that says something of a field twice, either may count.
-/
namespace NamespaceTopology

open Config

namespace Config

def Sources.KeepsSections (sources : Sources) (file : String) : Prop :=
  ∀ source ∈ (sources.fileEntries file).toOption, Config.KeepsSections source

instance (sources : Sources) (file : String) : Decidable (sources.KeepsSections file) :=
  inferInstanceAs (Decidable (∀ source ∈ (sources.fileEntries file).toOption, Config.KeepsSections source))

namespace Field

end Field

variable {sources : Sources} {files : List String} {s s' : Settings}

/-! ### One layering -/

section

variable {file : String} {s₀ : Settings} (henv : KeepsSections (ofEnvironment sources.environment))
  (hfile : sources.KeepsSections file)
include henv hfile

end

end Config

end NamespaceTopology
