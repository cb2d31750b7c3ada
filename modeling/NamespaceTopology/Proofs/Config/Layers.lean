import Mathlib.Data.List.Forall2
import NamespaceTopology.Config.Load
import NamespaceTopology.Proofs.Config.Cells
import NamespaceTopology.Proofs.Document.Topology

set_option autoImplicit false

/-!
Settings from layers. Settings are read field by field, and each field is the converted last value that
the layers assign to it, or what the settings below them show. The entries of each layer may be taken in any
order; settings that are a layer again show themselves in every one.
-/
namespace NamespaceTopology

namespace Config

/-! ### Fields -/

inductive Field where
  | key
  | timeout
  | scope
  | interval
deriving DecidableEq, Repr

namespace Field

def sec : Field → String
  | .key | .timeout => "registry"
  | .scope | .interval => "monitoring"

def name : Field → String
  | .key => "namespace_registry_key"
  | .timeout => "init_timeout_ms"
  | .scope => "metrics_scope"
  | .interval => "report_interval_ms"

/-- What settings show of a field when they are a source. -/
def value (s : Settings) : Field → Tree
  | .key => .text s.registry.key
  | .timeout => .int s.registry.initTimeoutMs.toInt
  | .scope => .text s.monitoring.scope
  | .interval => .int s.monitoring.reportIntervalMs.toNat

/-- What settings made of a value show of the field when they are a source. -/
def convert : Field → Tree → Except ConfigError Tree
  | .key | .scope => fun v => v.toText.map .text
  | .timeout => fun v => (v.toInt minInt64 maxInt64).map .int
  | .interval => fun v => (v.toInt 0 maxUInt64).map .int

end Field

theorem toInt_bounds {low high n : Int} (hlow : low ≤ 0) (hhigh : 1 ≤ high) {v : Tree}
    (h : v.toInt low high = .ok n) : low ≤ n ∧ n ≤ high := by
  cases v with
  | int m =>
    simp only [Tree.toInt] at h
    split at h
    next hm =>
      obtain rfl := Except.ok.inj h
      exact hm
    next => cases h
  | bool b =>
    obtain rfl := Except.ok.inj h
    cases b <;> simp <;> omega
  | float x =>
    obtain rfl := Except.ok.inj h
    exact Binary64.toIntWithin_bounds hlow (by omega) x
  | text s =>
    simp only [Tree.toInt] at h
    split at h
    · obtain rfl := Except.ok.inj h
      omega
    · split at h
      · obtain rfl := Except.ok.inj h
        omega
      · split at h
        · split at h
          next hm =>
            obtain rfl := Except.ok.inj h
            exact hm
          next => cases h
        · cases h
  | blank | array _ | table _ => cases h

theorem toInt_int {low high n : Int} (h : low ≤ n ∧ n ≤ high) : (Tree.int n).toInt low high = .ok n :=
  if_pos h

namespace Field

theorem convert_text_iff {v : Tree} {s : String} {f : Field} (hf : f = .key ∨ f = .scope) :
    f.convert v = .ok (.text s) ↔ v.toText = .ok s := by
  have hmap : v.toText.map Tree.text = .ok (.text s) ↔ v.toText = .ok s := by
    cases v.toText <;> simp [Except.map]
  rcases hf with rfl | rfl <;> exact hmap

theorem map_int_iff {x : Except ConfigError Int} {n : Int} : x.map Tree.int = .ok (.int n) ↔ x = .ok n := by
  cases x <;> simp [Except.map]

theorem convert_gist (f : Field) {v w : Tree} (h : v.gist = some w) : f.convert v = f.convert w := by
  cases v with
  | table es =>
    cases es with
    | nil => cases h
    | cons e es =>
      obtain rfl := Option.some.inj h
      cases f <;> rfl
  | array _ =>
    obtain rfl := Option.some.inj h
    cases f <;> rfl
  | blank | bool _ | int _ | float _ | text _ => rw [Option.some.inj h]

/-- Settings that are a source again convert to themselves. -/
theorem convert_value (f : Field) (s : Settings) : f.convert (f.value s) = .ok (f.value s) := by
  cases f with
  | key | scope => rfl
  | timeout =>
    refine map_int_iff.mpr (toInt_int ?_)
    exact ⟨s.registry.initTimeoutMs.minValue_le_toInt, s.registry.initTimeoutMs.toInt_le⟩
  | interval =>
    have hlt := s.monitoring.reportIntervalMs.toNat_lt
    exact map_int_iff.mpr (toInt_int ⟨by omega, by unfold maxUInt64; omega⟩)

end Field

theorem setting_eq {α : Type} {es : List (String × Tree)} {name : String} {v : Tree}
    (h : es.lookup name = some v) (default : α) (convert : Tree → Except ConfigError α) :
    setting es name default convert = convert v := by
  rw [setting, h]

theorem readFollow_eq_ok_iff {es : List (String × Tree)} {k t : Tree} {s : FollowSettings}
    (hk : es.lookup "namespace_registry_key" = some k) (ht : es.lookup "init_timeout_ms" = some t) :
    readFollow (.table es) = .ok s ↔
      k.toText = .ok s.key ∧ t.toInt minInt64 maxInt64 = .ok s.initTimeoutMs.toInt := by
  have hread : readFollow (.table es) = k.toText >>= fun key =>
      t.toInt minInt64 maxInt64 >>= fun timeout => .ok ⟨key, Int64.ofInt timeout⟩ := by
    rw [← setting_eq hk FollowSettings.default.key Tree.toText,
      ← setting_eq ht FollowSettings.default.initTimeoutMs.toInt (Tree.toInt minInt64 maxInt64)]
    rfl
  simp only [hread, bind_eq_ok, Except.ok.injEq]
  constructor
  · rintro ⟨key, hkey, n, hn, rfl⟩
    obtain ⟨hlow, hhigh⟩ := toInt_bounds (by decide) (by decide) hn
    unfold minInt64 at hlow
    unfold maxInt64 at hhigh
    refine ⟨hkey, ?_⟩
    rw [hn, Int64.toInt_ofInt_of_le (by omega) (by omega)]
  · rintro ⟨hkey, hn⟩
    exact ⟨s.key, hkey, _, hn, by rw [Int64.ofInt_toInt]⟩

theorem readMonitoring_eq_ok_iff {es : List (String × Tree)} {k t : Tree} {s : MonitoringSettings}
    (hk : es.lookup "metrics_scope" = some k) (ht : es.lookup "report_interval_ms" = some t) :
    readMonitoring (.table es) = .ok s ↔
      k.toText = .ok s.scope ∧ t.toInt 0 maxUInt64 = .ok (s.reportIntervalMs.toNat : Int) := by
  have hread : readMonitoring (.table es) = k.toText >>= fun scope =>
      t.toInt 0 maxUInt64 >>= fun interval => .ok ⟨scope, UInt64.ofNat interval.toNat⟩ := by
    rw [← setting_eq hk MonitoringSettings.default.scope Tree.toText,
      ← setting_eq ht (MonitoringSettings.default.reportIntervalMs.toNat : Int) (Tree.toInt 0 maxUInt64)]
    rfl
  simp only [hread, bind_eq_ok, Except.ok.injEq]
  constructor
  · rintro ⟨scope, hscope, n, hn, rfl⟩
    obtain ⟨hlow, hhigh⟩ := toInt_bounds (by decide) (by decide) hn
    unfold maxUInt64 at hhigh
    have hnat : (UInt64.ofNat n.toNat).toNat = n.toNat :=
      UInt64.toNat_ofNat_of_lt' (by unfold UInt64.size; omega)
    exact ⟨hscope, by rw [hn, hnat, Int.toNat_of_nonneg hlow]⟩
  · rintro ⟨hscope, hn⟩
    exact ⟨s.scope, hscope, _, hn, by rw [Int.toNat_natCast, UInt64.ofNat_toNat]⟩

/-! ### Settings of a tree -/

def Field.cell (f : Field) (t : Tree) : Option Tree := t.field? f.sec f.name

def Field.gist (f : Field) (t : Tree) : Option Tree := (f.cell t).bind Tree.gist

def SectionsAreTables (t : Tree) : Prop := ∀ f : Field, SectionIsTable f.sec t

theorem exists_section {t : Tree} (ht : SectionsAreTables t) {f : Field} {v : Tree}
    (hv : f.cell t = some v) : ∃ es, t.entries.lookup f.sec = some (.table es) ∧ es.lookup f.name = some v := by
  obtain ⟨x, hx, hlookup⟩ := Option.bind_eq_some_iff.mp hv
  have htable := ht f x hx
  cases x with
  | table es => exact ⟨es, hx, hlookup⟩
  | blank | bool _ | int _ | float _ | text _ | array _ => cases htable

/-- Settings are read field by field. -/
theorem readSettings_eq_ok_iff {t : Tree} (ht : SectionsAreTables t) {v : Field → Tree}
    (hv : ∀ f : Field, f.cell t = some (v f)) {s : Settings} :
    readSettings t = .ok s ↔ ∀ f : Field, f.convert (v f) = .ok (f.value s) := by
  obtain ⟨registry, hregistry, _⟩ := exists_section ht (hv .key)
  obtain ⟨monitoring, hmonitoring, _⟩ := exists_section ht (hv .scope)
  have hinto {f : Field} {es : List (String × Tree)} (hes : t.entries.lookup f.sec = some (.table es)) :
      es.lookup f.name = some (v f) := by
    have hcell := hv f
    rwa [Field.cell, Tree.field?, hes] at hcell
  have hread : readSettings t = readFollow (.table registry) >>= fun r =>
      readMonitoring (.table monitoring) >>= fun m => .ok ⟨r, m⟩ := by
    rw [← setting_eq hregistry FollowSettings.default readFollow,
      ← setting_eq hmonitoring MonitoringSettings.default readMonitoring]
    rfl
  have hfollow (r : FollowSettings) := readFollow_eq_ok_iff (s := r)
    (hinto (f := .key) hregistry) (hinto (f := .timeout) hregistry)
  have hmonitor (m : MonitoringSettings) := readMonitoring_eq_ok_iff (s := m)
    (hinto (f := .scope) hmonitoring) (hinto (f := .interval) hmonitoring)
  simp only [hread, bind_eq_ok, Except.ok.injEq, hfollow, hmonitor]
  constructor
  · rintro ⟨r, ⟨hkey, htimeout⟩, m, ⟨hscope, hinterval⟩, rfl⟩ f
    cases f with
    | key => exact (Field.convert_text_iff (.inl rfl)).mpr hkey
    | timeout => exact Field.map_int_iff.mpr htimeout
    | scope => exact (Field.convert_text_iff (.inr rfl)).mpr hscope
    | interval => exact Field.map_int_iff.mpr hinterval
  · intro h
    exact ⟨s.registry, ⟨(Field.convert_text_iff (.inl rfl)).mp (h .key), Field.map_int_iff.mp (h .timeout)⟩,
      s.monitoring, ⟨(Field.convert_text_iff (.inr rfl)).mp (h .scope),
        Field.map_int_iff.mp (h .interval)⟩, rfl⟩

/-- Of what a field holds its gist is enough. -/
theorem readSettings_of_gist {t : Tree} (ht : SectionsAreTables t) {v : Field → Tree}
    (hv : ∀ f : Field, f.gist t = some (v f)) {s : Settings} :
    readSettings t = .ok s ↔ ∀ f : Field, f.convert (v f) = .ok (f.value s) := by
  choose c hcell hgist using fun f => Option.bind_eq_some_iff.mp (hv f)
  rw [readSettings_eq_ok_iff ht hcell]
  exact forall_congr' fun f => by rw [f.convert_gist (hgist f)]

/-! ### Settings as a source -/

/-- No source makes anything but a table of a section. -/
def KeepsSections (source : List (String × Tree)) : Prop := ∀ f : Field, KeepsTable f.sec source

instance (source : List (String × Tree)) : Decidable (KeepsSections source) :=
  decidable_of_iff (KeepsTable Field.key.sec source ∧ KeepsTable Field.scope.sec source)
    ⟨fun ⟨hregistry, hmonitoring⟩ f => f.casesOn hregistry hregistry hmonitoring hmonitoring,
      fun h => ⟨h .key, h .scope⟩⟩

/-- What the entries of a source assign to a field, in their order. -/
def Field.assigned (f : Field) (source : List (String × Tree)) : List Tree :=
  Config.assigned f.sec f.name source

theorem Field.assigned_append (f : Field) (source source' : List (String × Tree)) :
    f.assigned (source ++ source') = f.assigned source ++ f.assigned source' := List.flatMap_append

theorem path_sec (f : Field) : path f.sec = [.name f.sec] := by
  cases f <;> decide

theorem lower_sec (f : Field) : lower f.sec = f.sec := by
  cases f <;> decide

theorem lower_name (f : Field) : lower f.name = f.name := by
  cases f <;> decide

theorem ofSettings_eq_ok_iff {s : Settings} {base : List (String × Tree)} :
    ofSettings s = .ok base ↔ (s.monitoring.reportIntervalMs.toNat : Int) ≤ maxInt64 ∧
      base = [(Field.key.sec, .table [(Field.key.name, Field.key.value s),
          (Field.timeout.name, Field.timeout.value s)]),
        (Field.scope.sec, .table [(Field.scope.name, Field.scope.value s),
          (Field.interval.name, Field.interval.value s)])] := by
  unfold ofSettings
  split
  next hlt => exact ⟨fun h => absurd h (by simp), fun ⟨hle, _⟩ => absurd hlt (Int.not_lt.mpr hle)⟩
  next hle =>
    constructor
    · intro h
      exact ⟨Int.not_lt.mp hle, (Except.ok.inj h).symm⟩
    · rintro ⟨_, rfl⟩
      rfl

theorem keepsSections_ofSettings {s : Settings} {base : List (String × Tree)} (h : ofSettings s = .ok base) :
    KeepsSections base := by
  obtain ⟨_, rfl⟩ := ofSettings_eq_ok_iff.mp h
  intro f e he
  rcases List.mem_pair.mp he with rfl | rfl
  · exact path_sec .key ▸ keepsSection_table _ _ _
  · exact path_sec .scope ▸ keepsSection_table _ _ _

theorem assigned_ofSettings {s : Settings} {base : List (String × Tree)} (h : ofSettings s = .ok base)
    (f : Field) : f.assigned base = [f.value s] := by
  obtain ⟨_, rfl⟩ := ofSettings_eq_ok_iff.mp h
  simp only [Field.assigned, assigned, List.flatMap_cons, List.flatMap_nil, path_sec, assignedAlong, lower_sec,
    Tree.entries, assignedTo, lower_name]
  cases f <;> rfl

/-! ### Layers on top of settings -/

theorem KeepsSections.flatten {sources : List (List (String × Tree))}
    (h : ∀ source ∈ sources, KeepsSections source) : KeepsSections sources.flatten := by
  intro f e he
  obtain ⟨source, hsource, he⟩ := List.mem_flatten.mp he
  exact h source hsource f e he

/-- Layers on top of settings make each field of the last value that they assign to it, or leave it. -/
theorem stacked_eq_ok_iff {s s' : Settings} {base base' : List (String × Tree)}
    (hbase : ofSettings s = .ok base) (horder : Reordered base base')
    {sources : List (List (String × Tree))} (hkeeps : ∀ source ∈ sources, KeepsSections source) :
    Settings.stacked (base' :: sources) = .ok s' ↔
      ∀ f : Field, f.convert ((f.assigned sources.flatten).getLast?.getD (f.value s)) = .ok (f.value s') := by
  have hbottom : KeepsSections base' := fun f => (keepsSections_ofSettings hbase f).of_reordered horder
  have hall : KeepsSections (base' ++ sources.flatten) := fun f e he => by
    rcases List.mem_append.mp he with he | he
    · exact hbottom f e he
    · exact KeepsSections.flatten hkeeps f e he
  have hassigned (f : Field) : f.assigned base' = [f.value s] := by
    have hperm : (f.assigned base).Perm (f.assigned base') := horder.assigned f.sec f.name
    rwa [assigned_ofSettings hbase, List.singleton_perm, eq_comm] at hperm
  have hstack : (base' :: sources).foldl Tree.layer (.table []) =
      (Tree.table []).layer (base' ++ sources.flatten) := List.foldl_flatten.symm
  rw [Settings.stacked, hstack]
  refine readSettings_of_gist (fun f => (hall f).isTable fun x hx => by cases hx) fun f => ?_
  change (Tree.field? f.sec f.name _).bind Tree.gist = _
  rw [(hall f).gist_layer f.name]
  change (f.assigned (base' ++ sources.flatten)).getLast?.or none = _
  rw [Option.or_none, f.assigned_append, hassigned, List.getLast?_append, List.getLast?_singleton,
    Option.or_some]

theorem layers_eq_ok_iff {s : Settings} {sources : Sources} {files : List String}
    {layers : List (List (String × Tree))} : s.layers sources files = .ok layers ↔
      ∃ base above, ofSettings s = .ok base ∧ files.map sources.fileEntries = above.map .ok ∧
        layers = base :: above ++ [ofEnvironment sources.environment] := by
  unfold Settings.layers
  simp only [bind_eq_ok, mapM_eq_ok, Except.ok.injEq]
  constructor
  · rintro ⟨base, hbase, above, habove, rfl⟩
    exact ⟨base, above, hbase, habove, rfl⟩
  · rintro ⟨base, above, hbase, habove, rfl⟩
    exact ⟨base, hbase, above, habove, rfl⟩

end Config

end NamespaceTopology
