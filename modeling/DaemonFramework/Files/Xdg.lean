import DaemonFramework.PathText

/-!
# Paths below the XDG directories

`resolve_xdg_root` and `resolve_xdg_path` of `shelllist-daemon-core/src/state.rs`. The environment
is a parameter, and the texts of paths are any bytes.

Whatever the caller passes for the application and the path, what is resolved lies strictly below
the application's directory in one of the roots, and different applications share no path
(`xdg_paths_confined`).
-/

namespace DaemonFramework.Files

open PathText

/-- `XdgRoot` -/
inductive XdgRoot where
  | config
  | state
  | cache
  | runtime
deriving DecidableEq

/-- The variables of the environment. -/
abbrev Environment := String → Option (List UInt8)

variable (env : Environment)

/-- `absolute_env` -/
def absoluteEnv (name : String) : Option (List UInt8) := (env name).filter hasRoot

/-- `xdg_home` -/
def xdgHome (name fallback : String) : Option (List UInt8) :=
  (absoluteEnv env name).orElse fun _ =>
    (absoluteEnv env "HOME").map fun home => join home fallback.toUTF8.data.toList

/-- `resolve_xdg_root` -/
def resolveXdgRoot : XdgRoot → Option (List UInt8)
  | .config => xdgHome env "XDG_CONFIG_HOME" ".config"
  | .state => xdgHome env "XDG_STATE_HOME" ".local/state"
  | .cache => xdgHome env "XDG_CACHE_HOME" ".cache"
  | .runtime => absoluteEnv env "XDG_RUNTIME_DIR"

/-- `Component::Normal` -/
def isNormal : Component → Bool
  | .normal _ => true
  | _ => false

/-- `is_single_normal_component` -/
def isSingleNormalComponent (path : List UInt8) : Bool :=
  match components path with
  | [component] => isNormal component
  | _ => false

/-- `is_safe_relative_path` -/
def isSafeRelativePath (path : List UInt8) : Bool :=
  path ≠ [] && (components path).all isNormal

/-- `resolve_xdg_path` -/
def resolveXdgPath (root : XdgRoot) (application path : List UInt8) : Option (List UInt8) :=
  if !isSingleNormalComponent application || !isSafeRelativePath path then none
  else (resolveXdgRoot env root).map fun base => join (join base application) path

variable {env} {root : XdgRoot} {name fallback : String} {base application path result : List UInt8}

/-- A variable is used only if it is absolute. -/
theorem hasRoot_of_absoluteEnv (h : absoluteEnv env name = some base) : hasRoot base = true :=
  (Option.filter_eq_some_iff.1 h).2

/-- A directory in `HOME` is absolute. -/
theorem hasRoot_of_xdgHome {names : List (List UInt8)}
    (hfallback : components fallback.toUTF8.data.toList = names.map .normal)
    (h : xdgHome env name fallback = some base) : hasRoot base = true := by
  unfold xdgHome at h
  cases hset : absoluteEnv env name with
  | some set =>
    rw [hset] at h
    obtain rfl := Option.some.inj h
    exact hasRoot_of_absoluteEnv hset
  | none =>
    rw [hset] at h
    obtain ⟨home, hhome, rfl⟩ := Option.map_eq_some_iff.1 h
    exact (components_join (hasRoot_of_absoluteEnv hhome) hfallback).1

/-- Every root is absolute. -/
theorem hasRoot_of_resolveXdgRoot (h : resolveXdgRoot env root = some base) :
    hasRoot base = true := by
  cases root with
  | config => exact @hasRoot_of_xdgHome env _ ".config" base [".config".toUTF8.data.toList] rfl h
  | state =>
    exact @hasRoot_of_xdgHome env _ ".local/state" base
      [".local".toUTF8.data.toList, "state".toUTF8.data.toList] rfl h
  | cache => exact @hasRoot_of_xdgHome env _ ".cache" base [".cache".toUTF8.data.toList] rfl h
  | runtime => exact hasRoot_of_absoluteEnv h

/-- Components that are all normal are names. -/
theorem exists_names {found : List Component} (h : found.all isNormal = true) :
    ∃ names : List (List UInt8), found = names.map .normal := by
  induction found with
  | nil => exact ⟨[], rfl⟩
  | cons component rest ih =>
    rw [List.all_cons, Bool.and_eq_true] at h
    obtain ⟨names, rfl⟩ := ih h.2
    cases component with
    | normal name => exact ⟨name :: names, rfl⟩
    | _ => cases h.1

/-- What a path that is resolved consists of. -/
structure Confined (base application path result : List UInt8) (name : List UInt8)
    (names : List (List UInt8)) : Prop where
  /-- The application is one name. -/
  application : components application = [.normal name]
  /-- The path is some names. -/
  path : components path = names.map .normal
  /-- There is one at least. -/
  nonempty : names ≠ []
  /-- The result leads to them below the root. -/
  result : components result = components base ++ (name :: names).map .normal

/-- What is resolved is confined. -/
theorem exists_confined (h : resolveXdgPath env root application path = some result) :
    ∃ base name names, resolveXdgRoot env root = some base ∧
      Confined base application path result name names := by
  unfold resolveXdgPath at h
  obtain ⟨hchecks, hjoin⟩ := Option.ite_none_left_eq_some.1 h
  obtain ⟨base, hbase, rfl⟩ := Option.map_eq_some_iff.1 hjoin
  simp only [Bool.or_eq_true, Bool.not_eq_true', not_or, Bool.not_eq_false] at hchecks
  obtain ⟨happlication, hpath⟩ := hchecks
  obtain ⟨name, hname⟩ : ∃ name, components application = [.normal name] := by
    unfold isSingleNormalComponent at happlication
    split at happlication
    · rename_i component hcomponent
      cases component with
      | normal name => exact ⟨name, hcomponent⟩
      | _ => cases happlication
    · cases happlication
  obtain ⟨hnonempty, hnormal⟩ := Bool.and_eq_true_iff.1 hpath
  obtain ⟨names, hnames⟩ := exists_names hnormal
  refine ⟨base, name, names, hbase, hname, hnames, ?_, ?_⟩
  · rintro rfl
    exact components_ne_nil (of_decide_eq_true hnonempty) hnames
  · have hroot := hasRoot_of_resolveXdgRoot hbase
    obtain ⟨hroot', hfirst⟩ := @components_join base application [name] hroot hname
    rw [(components_join hroot' hnames).2, hfirst, List.append_assoc]
    rfl

/-- What is resolved lies strictly below the application's directory in its root. Two calls that
lead to one place below a root were for the same application and the same path. -/
theorem xdg_paths_confined (h : resolveXdgPath env root application path = some result) :
    (∃ base name names, resolveXdgRoot env root = some base ∧ hasRoot base = true ∧
      components application = [.normal name] ∧ components path = names.map .normal ∧ names ≠ [] ∧
      components result = components base ++ .normal name :: names.map .normal) ∧
    ∀ application' path' result', resolveXdgPath env root application' path' = some result' →
      components result' = components result →
      components application' = components application ∧ components path' = components path := by
  obtain ⟨base, name, names, hbase, hconfined⟩ := exists_confined h
  refine ⟨⟨base, name, names, hbase, hasRoot_of_resolveXdgRoot hbase, hconfined.application,
    hconfined.path, hconfined.nonempty, hconfined.result⟩,
      fun application' path' result' h' hsame => ?_⟩
  obtain ⟨base', name', names', hbase', hconfined'⟩ := exists_confined h'
  obtain rfl := Option.some.inj (hbase.symm.trans hbase')
  rw [hconfined.result, hconfined'.result] at hsame
  obtain ⟨hname, hnames⟩ := List.cons.inj (List.append_cancel_left hsame)
  rw [hconfined.application, hconfined'.application, hconfined.path, hconfined'.path, hnames,
    hname]
  exact ⟨rfl, rfl⟩

/-- Odd spellings lead to the same place as plain ones. -/
theorem xdg_paths_confined_spelled :
    let env : Environment := fun name =>
      if name = "HOME" then some "/home/me/".toUTF8.data.toList else none
    resolveXdgPath env .state "app/.".toUTF8.data.toList "a//b/".toUTF8.data.toList =
      some "/home/me/.local/state/app/./a//b/".toUTF8.data.toList ∧
    resolveXdgPath env .state "app".toUTF8.data.toList "a/../b".toUTF8.data.toList = none ∧
    ∀ application' path' result', resolveXdgPath env .state application' path' = some result' →
      components result' = components "/home/me/.local/state/app/./a//b/".toUTF8.data.toList →
      components application' = components "app/.".toUTF8.data.toList ∧
        components path' = components "a//b/".toUTF8.data.toList :=
  ⟨by decide, by decide, (xdg_paths_confined (by decide)).2⟩

end DaemonFramework.Files
