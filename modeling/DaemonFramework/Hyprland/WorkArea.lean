import DaemonFramework.Binary64
import DaemonFramework.Json
import Mathlib.Data.List.Sort
import Mathlib.Data.String.Basic
import Std.Data.TreeMap.Basic

/-!
# Work areas

`parse_work_areas` of `shelllist-hyprland/src/work_area.rs`: the insets of the monitors, from the
five documents that Hyprland describes its geometry with. A monitor's insets are what its panels
reserve and the gaps of the last workspace rule whose selector takes the workspace that it shows.

The documents are decoded by `serde_json`, which `decode` stands for. Numbers are `Float`, the `f64`
of the sources; the texts in selectors and gaps are read as the sources read them.
-/

namespace DaemonFramework.Hyprland

open Text Binary64

/-! ## Documents -/

/-- `Insets`. -/
structure Insets where
  left : Float
  top : Float
  right : Float
  bottom : Float

/-- `WorkspaceRef`. -/
structure WorkspaceRef where
  id : ℤ

/-- `Monitor`. -/
structure Monitor where
  id : ℤ
  name : String
  focused : Bool
  disabled : Bool
  x : Float
  y : Float
  width : Float
  height : Float
  scale : Float
  transform : UInt8
  description : String
  make : String
  model : String
  serial : String
  reserved : Option (Vector Float 4)
  active : WorkspaceRef
  special : WorkspaceRef

/-- `Workspace`. -/
structure Workspace where
  id : ℤ
  name : String
  windows : ℕ
  hasfullscreen : Bool

/-- `Window`. -/
structure Window where
  workspace : Option WorkspaceRef
  mapped : Bool
  floating : Bool
  pinned : Bool
  hidden : Bool
  visible : Option Bool
  grouped : List String
  fullscreen : ℤ

/-- `Rule`, with the gaps as they are in the document. -/
structure RuleDocument where
  selector : String
  gapsOut : Option Value

/-- The documents. -/
structure Documents where
  monitors : List Monitor
  workspaces : List Workspace
  rules : List RuleDocument
  clients : List Window
  options : Value

/-- `Rule`. -/
structure Rule where
  selector : String
  gaps : Option (Vector Float 4)

/-- `Snapshot`. -/
structure Snapshot where
  monitors : List Monitor
  workspaces : List Workspace
  rules : List Rule
  clients : List Window
  gaps : Vector Float 4

/-! ## Decoding -/

/-- A number of the model of `f64` texts. -/
def toFloat (v : Decimal.F64) : Float :=
  Float.ofBits (UInt64.ofNat (v.magnitude + if v.negative then 2 ^ 63 else 0))

/-- `Value::as_f64`. -/
def asF64 : Value → Option Float
  | .number (.posInt n) => some n.toFloat
  | .number (.negInt n) => some n.toFloat
  | .number (.float bits) => some (Float.ofBits bits)
  | _ => none

/-- `expand_css`: four gaps from one to four parts. -/
def expandCss (parts : List (Option Float)) : Option (Vector Float 4) := do
  let top ← parts[0]?.join
  let right ← parts[1]?.getD (some top)
  let bottom ← parts[2]?.getD (some top)
  let left ← parts[3]?.getD (some right)
  let gaps := #v[top, right, bottom, left]
  if parts[4]?.isNone && gaps.all Float.isFinite then some gaps else none

/-- `css`. -/
def css (value : Value) : Option (Vector Float 4) :=
  match value.asStr with
  | some text => expandCss ((splitWhitespace text.toList).map fun part => (parseF64 part).map toFloat)
  | none => value.asArray.bind fun items => expandCss (items.map asF64)

/-- The members of a client's group in the order of their names. -/
def Window.canonical (client : Window) : Window :=
  { client with grouped := client.grouped.insertionSort (· ≤ ·) }

/-- The largest reply in bytes. -/
def maxReply : ℕ := 16 * 1024 * 1024

/-- The checks on a monitor. -/
def Monitor.valid (m : Monitor) : Bool :=
  m.scale.isFinite && m.scale > 0 && [m.x, m.y, m.width, m.height].all Float.isFinite

/-- The snapshot of documents, which have gaps and monitors that can be used. -/
def snapshotOf (documents : Documents) : Except String Snapshot :=
  match (documents.options.get "css").bind css with
  | none => .error "Missing Hyprland outer gaps"
  | some gaps =>
    if !documents.monitors.all Monitor.valid then .error "Invalid Hyprland monitor geometry"
    else .ok {
      monitors := documents.monitors
      workspaces := documents.workspaces
      rules := documents.rules.map fun rule => ⟨rule.selector, rule.gapsOut.bind css⟩
      clients := documents.clients.map Window.canonical
      gaps := gaps }

/-- `parse`. -/
def parse (decode : String → Except String Documents) (text : String) : Except String Snapshot :=
  if maxReply < text.utf8ByteSize then .error "Hyprland geometry reply too large"
  else do snapshotOf (← decode text)

/-! ## Monitors -/

/-- `f64::min`. -/
def minimum (a b : Float) : Float := if a.isNaN then b else if b.isNaN then a else if a ≤ b then a else b

/-- `f64::max`. -/
def maximum (a b : Float) : Float := if a.isNaN then b else if b.isNaN then a else if a ≤ b then b else a

/-- `f64::partial_cmp`. -/
def partialCmp (a b : Float) : Option Ordering :=
  if a < b then some .lt else if b < a then some .gt else if a == b then some .eq else none

/-- `Iterator::min_by`: the first of equal elements is kept. -/
def minBy {α : Type*} (compare : α → α → Ordering) : List α → Option α
  | [] => none
  | a :: rest => some (rest.foldl (fun best next => if compare best next = .gt then next else best) a)

/-- `monitor_box`: the place and the size of a monitor, with the axis of the direction first. -/
def monitorBox (m : Monitor) (direction : List Char) : Float × Float × Float × Float :=
  let (width, height) := if m.transform % 2 ≠ 0 then (m.height, m.width) else (m.width, m.height)
  let width := (width / m.scale).round
  let height := (height / m.scale).round
  if direction = ['l'] ∨ direction = ['r'] then (m.x, m.y, width, height) else (m.y, m.x, height, width)

/-- `directional`: of the monitors that touch the focused one on a side, the first with the longest
common edge. -/
def directional (direction : List Char) (monitors : List Monitor) : Option Monitor := do
  let focused ← monitors.find? (·.focused)
  let (x, y, w, h) := monitorBox focused direction
  let others := monitors.filter fun m => m.name ≠ focused.name && !m.disabled
  let touching := others.filterMap fun monitor =>
    let (tx, ty, tw, th) := monitorBox monitor direction
    let before := direction = ['l'] ∨ direction = ['u'] ∨ direction = ['t']
    let distance := if before then x - tx - tw else x + w - tx
    if distance.abs ≥ 2 then none
    else some (monitor, maximum (minimum (y + h) (ty + th) - maximum y ty) 0)
  (minBy (fun a b => (partialCmp b.2 a.2).getD .eq) touching).map Prod.fst

/-- `monitor_matches`. -/
def monitorMatches (selector : List Char) (monitor : Monitor) (monitors : List Monitor) : Bool :=
  if selector = "current".toList then monitor.focused
  else if ["l", "r", "u", "d", "t", "b"].any (·.toList = selector) then
    (directional selector monitors).any fun m => m.name = monitor.name
  else if selector.head? = some '+' ∨ selector.head? = some '-' then
    match monitors.findIdx? (·.focused), parseSigned 64 10 selector with
    | some index, some delta =>
      -- `%` keeps the sign of the dividend, and `rem_euclid` has none
      let target := ((index : ℤ) + delta.tmod monitors.length) % monitors.length
      monitors[target.toNat]?.any fun m => m.name = monitor.name
    | _, _ => false
  else
    match parseUnsigned 64 10 selector with
    | some id => monitor.id = id
    | none =>
      match stripPrefix "desc:".toList selector with
      | some description =>
        let short := s!"{monitor.make} {monitor.model} {monitor.serial}"
        (trim description).isPrefixOf monitor.description.toList ||
          (trim description).isPrefixOf (trim short.toList)
      | none => monitor.name.toList = selector

/-! ## Windows -/

/-- `Window::on`. -/
def Window.on (client : Window) (workspace : Workspace) : Bool :=
  client.workspace.any fun w => w.id = workspace.id

/-- `Window::matches_flags`; the flag `g` is handled by `windowCount`. -/
def Window.matchesFlags (client : Window) (flags : List Char) : Bool :=
  flags.all fun flag =>
    if flag = 't' then !client.floating
    else if flag = 'f' then client.floating
    else if flag = 'p' then client.pinned
    else if flag = 'v' then !client.hidden && client.visible ≠ some false
    else true

/-- How many clients are in a group that was not seen before them. -/
def countGroups : List (List String) → List Window → ℕ
  | _, [] => 0
  | groups, client :: rest =>
    if client.grouped ≠ [] ∧ client.grouped ∉ groups then countGroups (client.grouped :: groups) rest + 1
    else countGroups groups rest

/-- `window_count`. -/
def windowCount (flags : List Char) (workspace : Workspace) (clients : List Window) : ℕ :=
  if flags = [] then workspace.windows
  else
    let counted := clients.filter fun c => c.on workspace && c.mapped && c.matchesFlags flags
    if 'g' ∈ flags then countGroups [] counted else counted.length

/-! ## Selectors -/

/-- `range`, by its bounds. -/
def range (value : List Char) : Option (ℤ × ℤ) :=
  match splitOnce '-' value with
  | some (low, high) =>
    (parseSigned 64 10 low).bind fun low => (parseSigned 64 10 high).bind fun high =>
      if low ≥ 1 ∧ high ≥ low then some (low, high) else none
  | none => (parseSigned 64 10 value).map fun count => (count, count)

/-- A number is in a range. -/
def contains (range : ℤ × ℤ) (n : ℤ) : Bool := range.1 ≤ n ∧ n ≤ range.2

/-- The bit of a flag. -/
def flagBit (flag : Char) : Option ℕ :=
  if flag = 't' ∨ flag = 'f' then some 1
  else if flag = 'p' then some 2
  else if flag = 'g' then some 4
  else if flag = 'v' then some 8
  else none

/-- The flags that come first, each bit once, and the rest. -/
def splitFlags : ℕ → List Char → List Char × List Char
  | _, [] => ([], [])
  | seen, flag :: rest =>
    match flagBit flag with
    | none => ([], flag :: rest)
    | some bit =>
      if seen &&& bit ≠ 0 then ([], flag :: rest)
      else
        let (flags, count) := splitFlags (seen ||| bit) rest
        (flag :: flags, count)

/-- `window_selector`. -/
def windowSelector (value : List Char) : List Char × List Char := splitFlags 0 value

/-- `selector_integer`. -/
def selectorInteger (value : List Char) : Option ℤ :=
  if ["true", "on", "yes"].any (·.toList.isPrefixOf value) then some 1
  else if ["false", "off", "no"].any (·.toList.isPrefixOf value) then some 0
  else
    match stripPrefix "0x".toList value with
    | some hex => parseSigned 64 16 hex
    | none => parseSigned 64 10 value

/-- The decimal number that a text starts with, which has a sign or none. -/
def numericStart : List Char → List Char
  | [] => []
  | c :: rest =>
    if c.isDigit ∨ c = '+' ∨ c = '-' then c :: rest.takeWhile Char.isDigit else []

/-- `fullscreen_matches`. -/
def fullscreenMatches (value : List Char) (workspace : Workspace) (clients : List Window) : Bool :=
  let inMode (mode : ℤ) : Bool :=
    workspace.hasfullscreen && clients.any fun c => c.on workspace && c.fullscreen = mode
  match parseSigned 32 10 (numericStart (trimStart value)) with
  | some (-1) => !workspace.hasfullscreen
  | some 0 => inMode 2
  | some 1 => inMode 1
  | some _ => true
  | none => false

/-- `as i64`. -/
def asI64 (n : ℕ) : ℤ := Int.bmod n (2 ^ 64)

/-- `term`. -/
def term (kind value : List Char) (workspace : Workspace) (monitor : Monitor) (snapshot : Snapshot) : Bool :=
  let integer := selectorInteger value
  if kind = ['r'] then '-' ∈ value && (range value).any (contains · workspace.id)
  else if kind = ['s'] then
    integer.all fun value => decide (workspace.id < -1 ∧ workspace.id > -1337) == decide (value ≠ 0)
  else if kind = ['n'] then
    match splitOnce ':' value with
    | some (['s'], start) => start.isPrefixOf workspace.name.toList
    | some (['e'], tail) => tail.isSuffixOf workspace.name.toList
    | _ => integer.all fun value => (if workspace.id ≤ -1337 then 1 else 0) = value
  else if kind = ['m'] then monitorMatches value monitor snapshot.monitors
  else if kind = ['w'] then
    let (flags, count) := windowSelector value
    (range count).any (contains · (asI64 (windowCount flags workspace snapshot.clients)))
  else if kind = ['f'] then fullscreenMatches value workspace snapshot.clients
  else false

/-- `matches`. -/
def selectorMatches (selector : String) (workspace : Workspace) (monitor : Monitor) (snapshot : Snapshot) :
    Bool :=
  let rest := trim selector.toList
  if rest = [] then true
  else
    match parseSigned 64 10 rest with
    | some id => workspace.id = id
    | none =>
      match stripPrefix "name:".toList rest with
      | some name => workspace.name.toList = name
      | none =>
        if "special".toList.isPrefixOf rest then workspace.name.toList = rest
        else
          match stripSuffix [']'] rest with
          | none => false
          | some clauses =>
            (clauses.splitOn ']').all fun clause =>
              match splitOnce '[' (trimStart clause) with
              | none => false
              | some (kind, value) => term kind value workspace monitor snapshot

/-! ## Insets -/

/-- The gaps of the last rule that takes a workspace, or those of the options. -/
def gapsOf (snapshot : Snapshot) (monitor : Monitor) (workspace : Workspace) : Vector Float 4 :=
  let found := snapshot.rules.reverse.findSome? fun rule =>
    rule.gaps.bind fun gaps =>
      if selectorMatches rule.selector workspace monitor snapshot then some gaps else none
  found.getD snapshot.gaps

/-- The insets of one monitor. -/
def insetsOf (snapshot : Snapshot) (monitor : Monitor) : Option (String × Insets) := do
  let reserved ← monitor.reserved
  if reserved.any fun v => !v.isFinite then none
  let active := if monitor.special.id ≠ 0 then monitor.special.id else monitor.active.id
  let workspace ← snapshot.workspaces.find? fun w => w.id = active
  let gaps := gapsOf snapshot monitor workspace
  return (monitor.name, {
    left := reserved[0] + gaps[3]
    top := reserved[1] + gaps[0]
    right := reserved[2] + gaps[1]
    bottom := reserved[3] + gaps[2] })

/-- `insets`. -/
def insets (snapshot : Snapshot) : Std.TreeMap String Insets :=
  .ofList ((snapshot.monitors.filter fun m => !m.disabled).filterMap (insetsOf snapshot))

/-- `parse_work_areas`. -/
def parseWorkAreas (decode : String → Except String Documents) (text : String) :
    Except String (Std.TreeMap String Insets) := do
  return insets (← parse decode text)

end DaemonFramework.Hyprland
