import DaemonFramework.Json
import DaemonFramework.Worklist
import Mathlib.Data.List.Nodup
import Mathlib.Data.List.Perm.Subperm
import Mathlib.Data.Nat.Find

/-!
# Input references of a lock

`resolve` of `shelllist-local-build/src/lock.rs`. A reference that is a string names a node. One
that is an array is a follows path from the lock's root: each part names an input of the node that
was reached so far, and the input's own reference is resolved in turn. `trail` has the paths that
are being resolved, and a path that is on it already is a cycle.

`Resolves` says the same without a trail: a reference has a target if its path can be walked through
finitely many levels of follows. `resolveLink_eq_ok_iff` says that the two agree. The recursion of
the source is bounded here by `fuel`; a trail has no path twice, so the number of references in the
lock is enough, and `resolveLink_ne_exhausted` says that it never runs out.

The source has one trail for all levels, to which it pushes and from which it pops. `resolveOn` does
the same, and `resolveOn_spec` says that this makes no difference.
-/

namespace DaemonFramework.LocalBuild

open Value Worklist

/-- Why a lock cannot be pruned. -/
inductive Failure where
  /-- An error of the source, with its message. -/
  | message (text : String)
  /-- The bound on the recursion was too small. -/
  | exhausted
deriving DecidableEq

/-- The nodes of a lock. -/
abbrev Nodes := List (String × Value)

/-- The inputs of a node, none if it has no object of them. -/
def inputsOf (node : Value) : List (String × Value) := ((node.get "inputs").bind asObject).getD []

/-- The reference that the input `part` of the node `current` has. -/
def inputAt (nodes : Nodes) (current part : String) : Option Value :=
  ((lookupField current nodes).bind fun node => node.get "inputs").bind fun inputs =>
    inputs.get part

/-- The references of all inputs of all nodes. -/
def links (nodes : Nodes) : List Value :=
  nodes.flatMap fun node => (inputsOf node.2).map Prod.snd

/-- One part of a follows path: from `current` to the target of its input `part`, which `descend`
resolves. -/
def followPart (nodes : Nodes) (descend : Value → Except Failure String) (current : String)
    (part : Value) : Except Failure String :=
  match part.asStr with
  | none => .error (.message "invalid lock follows path")
  | some name =>
    match inputAt nodes current name with
    | none => .error (.message s!"missing lock follows edge {current}/{name}")
    | some next => descend next

/-- A follows path from `current`, part by part. -/
def followPath (nodes : Nodes) (descend : Value → Except Failure String) :
    String → List Value → Except Failure String
  | current, [] => .ok current
  | current, part :: rest =>
    (followPart nodes descend current part).bind fun next => followPath nodes descend next rest

/-- `resolve`. -/
def resolve (nodes : Nodes) (root : String) : ℕ → Value → List Value → Except Failure String
  | _, .string name, _ => .ok name
  | 0, .array _, _ => .error .exhausted
  | fuel + 1, .array path, trail =>
    if .array path ∈ trail then .error (.message "cycle in lock follows")
    else
      followPath nodes (fun next => resolve nodes root fuel next (trail ++ [.array path])) root path
  | _, _, _ => .error (.message "invalid lock input reference")

/-- `resolve` with an empty trail. -/
def resolveLink (nodes : Nodes) (root : String) (link : Value) : Except Failure String :=
  resolve nodes root ((links nodes).length + 2) link []

/-- A follows path can be walked from `current` to `target` through follows that are nested at most
`depth` deep. -/
inductive Walks (nodes : Nodes) (root : String) : ℕ → String → List Value → String → Prop where
  /-- The end of the path. -/
  | done {depth : ℕ} {current : String} : Walks nodes root depth current [] current
  /-- The next part is an input that names a node. -/
  | name {depth : ℕ} {current part next target : String} {rest : List Value}
    (hinput : inputAt nodes current part = some (.string next))
    (hrest : Walks nodes root depth next rest target) :
    Walks nodes root depth current (.string part :: rest) target
  /-- The next part is an input that follows a path from the root. -/
  | follow {depth : ℕ} {current part next target : String} {path rest : List Value}
    (hinput : inputAt nodes current part = some (.array path))
    (hpath : Walks nodes root depth root path next)
    (hrest : Walks nodes root (depth + 1) next rest target) :
    Walks nodes root (depth + 1) current (.string part :: rest) target

/-- The reference `link` has the node `target` as its target, through follows that are nested at
most `depth` deep. -/
def ResolvesWithin (nodes : Nodes) (root : String) (depth : ℕ) : Value → String → Prop
  | .string name, target => name = target
  | .array path, target => Walks nodes root depth root path target
  | _, _ => False

/-- The reference `link` has the node `target` as its target. -/
def Resolves (nodes : Nodes) (root : String) (link : Value) (target : String) : Prop :=
  ∃ depth, ResolvesWithin nodes root depth link target

section
variable {nodes : Nodes} {root : String}

/-- An input that is found is one of the inputs of a node that is found. -/
theorem inputAt_eq_some {current part : String} {link : Value}
    (h : inputAt nodes current part = some link) :
    ∃ node, lookupField current nodes = some node ∧ (part, link) ∈ inputsOf node := by
  obtain ⟨inputs, hinputs, hlink⟩ := Option.bind_eq_some_iff.1 h
  obtain ⟨node, hnode, hget⟩ := Option.bind_eq_some_iff.1 hinputs
  refine ⟨node, hnode, ?_⟩
  cases inputs with
  | object fields =>
    have hfields : inputsOf node = fields := by simp [inputsOf, hget, asObject]
    rw [hfields]
    exact mem_of_lookupField hlink
  | _ => cases hlink

/-- The reference of an input of a node is among the references. -/
theorem mem_links {name key : String} {node link : Value}
    (hnode : lookupField name nodes = some node) (hlink : (key, link) ∈ inputsOf node) :
    link ∈ links nodes :=
  List.mem_flatMap.2 ⟨(name, node), mem_of_lookupField hnode, List.mem_map.2 ⟨_, hlink, rfl⟩⟩

/-- The reference of an input that is found is among the references. -/
theorem mem_links_of_inputAt {current part : String} {link : Value}
    (h : inputAt nodes current part = some link) : link ∈ links nodes := by
  obtain ⟨node, hnode, hlink⟩ := inputAt_eq_some h
  exact mem_links hnode hlink

/-- More levels of follows do no harm. -/
theorem Walks.mono {depth depth' : ℕ} {current target : String} {path : List Value}
    (h : Walks nodes root depth current path target) (hle : depth ≤ depth') :
    Walks nodes root depth' current path target := by
  induction h generalizing depth' with
  | done => exact .done
  | name hinput _ ih => exact .name hinput (ih hle)
  | follow hinput _ _ ihpath ihrest =>
    obtain ⟨deeper, rfl⟩ : ∃ deeper, depth' = deeper + 1 := ⟨depth' - 1, by omega⟩
    exact .follow hinput (ihpath (by omega)) (ihrest hle)

/-- A path leads to one node. -/
theorem Walks.target_eq {depth depth' : ℕ} {current target target' : String} {path : List Value}
    (h : Walks nodes root depth current path target)
    (h' : Walks nodes root depth' current path target') : target = target' := by
  induction h generalizing depth' target' with
  | done =>
    cases h'
    rfl
  | name hinput _ ih =>
    cases h' with
    | name hinput' hrest' =>
      have heq := Value.string.inj (Option.some.inj (hinput.symm.trans hinput'))
      subst heq
      exact ih hrest'
    | follow hinput' => exact absurd (hinput.symm.trans hinput') (by simp)
  | follow hinput _ _ ihpath ihrest =>
    cases h' with
    | name hinput' => exact absurd (hinput.symm.trans hinput') (by simp)
    | follow hinput' hpath' hrest' =>
      have hpath := Value.array.inj (Option.some.inj (hinput.symm.trans hinput'))
      subst hpath
      have heq := ihpath hpath'
      subst heq
      exact ihrest hrest'

/-- More levels of follows do no harm to a reference. -/
theorem ResolvesWithin.mono {depth depth' : ℕ} {link : Value} {target : String}
    (h : ResolvesWithin nodes root depth link target) (hle : depth ≤ depth') :
    ResolvesWithin nodes root depth' link target := by
  cases link with
  | string name => exact h
  | array path => exact Walks.mono h hle
  | _ => exact h

/-- A reference has one target. -/
theorem Resolves.target_eq {link : Value} {target target' : String}
    (h : Resolves nodes root link target) (h' : Resolves nodes root link target') :
    target = target' := by
  obtain ⟨depth, h⟩ := h
  obtain ⟨depth', h'⟩ := h'
  cases link with
  | string name => exact Eq.trans (Eq.symm h) h'
  | array path => exact Walks.target_eq h h'
  | _ => exact h.elim

/-- What `followPath` finds can be walked, if what `descend` finds resolves. -/
theorem walks_of_followPath {descend : Value → Except Failure String}
    (hdescend : ∀ link target, descend link = .ok target → Resolves nodes root link target)
    {current target : String} {path : List Value}
    (h : followPath nodes descend current path = .ok target) :
    ∃ depth, Walks nodes root depth current path target := by
  induction path generalizing current with
  | nil =>
    obtain rfl : current = target := Except.ok.inj h
    exact ⟨0, .done⟩
  | cons part rest ih =>
    obtain ⟨next, hpart, hrest⟩ := bind_eq_ok h
    obtain ⟨depth, hwalks⟩ := ih hrest
    unfold followPart at hpart
    cases part with
    | string name =>
      simp only [asStr] at hpart
      cases hinput : inputAt nodes current name with
      | none =>
        rw [hinput] at hpart
        cases hpart
      | some link =>
        rw [hinput] at hpart
        -- A link is a name, or a path of its own that is walked first.
        obtain ⟨depth', hlink⟩ := hdescend link next hpart
        cases link with
        | string name' =>
          obtain rfl : name' = next := hlink
          exact ⟨depth, .name hinput hwalks⟩
        | array path' =>
          have hpath : Walks nodes root (max depth depth') root path' next :=
            Walks.mono hlink (Nat.le_max_right _ _)
          have hmore : Walks nodes root (max depth depth' + 1) next rest target :=
            hwalks.mono (Nat.le_succ_of_le (Nat.le_max_left _ _))
          exact ⟨max depth depth' + 1, .follow hinput hpath hmore⟩
        | _ => exact hlink.elim
    | _ => cases hpart

/-- What `resolve` finds is the target of the reference. -/
theorem resolves_of_resolve {fuel : ℕ} {link : Value} {trail : List Value} {target : String}
    (h : resolve nodes root fuel link trail = .ok target) : Resolves nodes root link target := by
  induction fuel generalizing link trail target with
  | zero =>
    cases link with
    | string name => exact ⟨0, Except.ok.inj h⟩
    | _ => cases h
  | succ fuel ih =>
    cases link with
    | string name => exact ⟨0, Except.ok.inj h⟩
    | array path =>
      simp only [resolve] at h
      split_ifs at h
      exact walks_of_followPath (fun link target h => ih h) h
    | _ => cases h

/-- A path that can be walked is found by `followPath`, unless the bound on the recursion is too
small, if `descend` does the same for the references one level down. -/
theorem followPath_of_walks {descend : Value → Except Failure String} {depth : ℕ}
    {current target : String} {path : List Value} (h : Walks nodes root depth current path target)
    (hstring : ∀ name, descend (.string name) = .ok name)
    (hdescend : ∀ below path' next, depth = below + 1 → Walks nodes root below root path' next →
      descend (.array path') = .ok next ∨ descend (.array path') = .error .exhausted) :
    followPath nodes descend current path = .ok target ∨
      followPath nodes descend current path = .error .exhausted := by
  induction h with
  | done => exact .inl rfl
  | @name depth current part next target rest hinput _ ih =>
    have hpart : followPart nodes descend current (.string part) = .ok next := by
      simp only [followPart, asStr, hinput, hstring]
    simp only [followPath, hpart]
    exact ih hdescend
  | @follow depth current part next target path' rest hinput hpath _ _ ih =>
    have hpart : followPart nodes descend current (.string part) = descend (.array path') := by
      simp only [followPart, asStr, hinput]
    simp only [followPath, hpart]
    rcases hdescend depth path' next rfl hpath with h | h
    · rw [h]
      exact ih hdescend
    · rw [h]
      exact .inr rfl

/-- `resolve` finds the target of a reference, unless the bound on the recursion is too small: where
a reference resolves within some depth and no path on the trail does, there is no cycle. The
induction is on the depth, which is taken to be the least. -/
theorem resolve_of_resolvesWithin (depth : ℕ) :
    ∀ {fuel : ℕ} {link : Value} {trail : List Value} {target : String},
      ResolvesWithin nodes root depth link target →
      (∀ other ∈ trail, ∀ name, ¬ ResolvesWithin nodes root depth other name) →
      resolve nodes root fuel link trail = .ok target ∨
        resolve nodes root fuel link trail = .error .exhausted := by
  induction depth using Nat.strong_induction_on with
  | _ depth ih =>
    intro fuel link trail target h htrail
    cases link with
    | string name =>
      obtain rfl : name = target := h
      cases fuel <;> exact .inl rfl
    | array path =>
      cases fuel with
      | zero => exact .inr rfl
      | succ fuel =>
        have hfresh : Value.array path ∉ trail := fun hmem => htrail _ hmem target h
        simp only [resolve, if_neg hfresh]
        classical
        -- The least depth at which the path can be walked: one level down, it cannot.
        have hexists : ∃ d, Walks nodes root d root path target := ⟨depth, h⟩
        have hleast : Nat.find hexists ≤ depth := Nat.find_min' hexists h
        refine followPath_of_walks (Nat.find_spec hexists) ?_ ?_
        · intro name
          cases fuel <;> rfl
        · intro below path' next hbelow hpath
          have hlink : ResolvesWithin nodes root below (.array path') next := hpath
          refine ih below (by omega) hlink ?_
          intro other hother name hname
          rcases List.mem_append.1 hother with hother | hother
          · exact htrail other hother name (hname.mono (by omega))
          · obtain rfl := List.mem_singleton.1 hother
            have hwalk : Walks nodes root below root path target := by
              have heq : target = name := Walks.target_eq h hname
              rw [heq]
              exact hname
            exact Nat.find_min hexists (by omega) hwalk
    | _ => exact h.elim

/-- A follows path fails with what a part of it fails with. -/
theorem exhausted_of_followPath {descend : Value → Except Failure String} {current : String}
    {path : List Value} (h : followPath nodes descend current path = .error .exhausted) :
    ∃ link ∈ links nodes, descend link = .error .exhausted := by
  induction path generalizing current with
  | nil => cases h
  | cons part rest ih =>
    rcases bind_eq_error h with hpart | ⟨next, -, hrest⟩
    · unfold followPart at hpart
      split at hpart
      · cases hpart
      · rename_i name _
        split at hpart
        · cases hpart
        · rename_i next hinput
          exact ⟨next, mem_links_of_inputAt hinput, hpart⟩
    · exact ih hrest

/-- A trail without repetitions is no longer than the list that its paths are from, so it leaves
fuel for one more path. -/
theorem resolve_ne_exhausted (known : List Value) {trail : List Value}
    (hknown : ∀ link ∈ links nodes, link ∈ known)
    {fuel : ℕ} {link : Value} (hlink : link ∈ known) (hnodup : trail.Nodup)
    (htrail : ∀ other ∈ trail, other ∈ known) (hfuel : known.length < fuel + trail.length) :
    resolve nodes root fuel link trail ≠ .error .exhausted := by
  induction fuel generalizing link trail with
  | zero =>
    have hle : trail.length ≤ known.length := (List.subperm_of_subset hnodup htrail).length_le
    omega
  | succ fuel ih =>
    intro h
    cases link with
    | array path =>
      simp only [resolve] at h
      split_ifs at h with hmem
      · cases h
      obtain ⟨next, hnext, hexhausted⟩ := exhausted_of_followPath h
      refine ih (hknown next hnext) ?_ ?_ ?_ hexhausted
      · exact List.nodup_append.2 ⟨hnodup, List.nodup_singleton _, by
          rintro other hother _ hsingle rfl
          exact hmem (List.mem_singleton.1 hsingle ▸ hother)⟩
      · exact fun other hother => (List.mem_append.1 hother).elim (htrail other)
          fun hsingle => List.mem_singleton.1 hsingle ▸ hlink
      · rw [List.length_append, List.length_singleton]
        omega
    | _ => cases h

/-- The bound on the recursion is never reached. -/
theorem resolveLink_ne_exhausted (nodes : Nodes) (root : String) (link : Value) :
    resolveLink nodes root link ≠ .error .exhausted := by
  refine resolve_ne_exhausted (link :: links nodes) ?_ List.mem_cons_self List.nodup_nil nofun ?_
  · exact fun other hother => List.mem_cons_of_mem _ hother
  · simp

/-- `resolve` finds the target of a reference and nothing else: the check of the trail refuses only
references that do not resolve. -/
theorem resolveLink_eq_ok_iff {link : Value} {target : String} :
    resolveLink nodes root link = .ok target ↔ Resolves nodes root link target := by
  constructor
  · exact resolves_of_resolve
  · rintro ⟨depth, h⟩
    exact (resolve_of_resolvesWithin depth h
      fun _ hmem => absurd hmem List.not_mem_nil).resolve_right
      (resolveLink_ne_exhausted nodes root link)

end

/-! ### One trail for all levels -/

/-- A follows path from `current`, part by part, and the trail that is left. -/
def followPathOn (nodes : Nodes)
    (descend : Value → List Value → Except Failure String × List Value) :
    String → List Value → List Value → Except Failure String × List Value
  | current, [], trail => (.ok current, trail)
  | current, part :: rest, trail =>
    match part.asStr with
    | none => (.error (.message "invalid lock follows path"), trail)
    | some name =>
      match inputAt nodes current name with
      | none => (.error (.message s!"missing lock follows edge {current}/{name}"), trail)
      | some next =>
        match descend next trail with
        | (.ok current, trail) => followPathOn nodes descend current rest trail
        | (.error e, trail) => (.error e, trail)

/-- `resolve`, and the trail that is left. -/
def resolveOn (nodes : Nodes) (root : String) :
    ℕ → Value → List Value → Except Failure String × List Value
  | _, .string name, trail => (.ok name, trail)
  | 0, .array _, trail => (.error .exhausted, trail)
  | fuel + 1, .array path, trail =>
    if .array path ∈ trail then (.error (.message "cycle in lock follows"), trail)
    else
      match followPathOn nodes (resolveOn nodes root fuel) root path (trail ++ [.array path]) with
      | (.ok current, trail) => (.ok current, trail.dropLast)
      | (.error e, trail) => (.error e, trail)
  | _, _, trail => (.error (.message "invalid lock input reference"), trail)

section
variable {nodes : Nodes} {root : String}

/-- What a call finds, and that the trail is as before if it succeeds. -/
def Restores (result : Except Failure String × List Value) (found : Except Failure String)
    (trail : List Value) : Prop :=
  result.1 = found ∧ ∀ target, found = .ok target → result.2 = trail

theorem followPathOn_spec {descend : Value → List Value → Except Failure String × List Value}
    {find : Value → Except Failure String} {trail : List Value}
    (hdescend : ∀ link, Restores (descend link trail) (find link) trail) (current : String)
    (path : List Value) :
    Restores (followPathOn nodes descend current path trail) (followPath nodes find current path)
      trail := by
  induction path generalizing current with
  | nil => exact ⟨rfl, fun _ _ => rfl⟩
  | cons part rest ih =>
    unfold followPathOn followPath followPart
    cases hpart : part.asStr with
    | none => exact ⟨rfl, nofun⟩
    | some name =>
      cases hinput : inputAt nodes current name with
      | none => exact ⟨by simp [hinput, Except.bind], by simp [hinput, Except.bind]⟩
      | some next =>
        -- What the descent pushes on the trail it has popped when it succeeds.
        obtain ⟨hfound, hrestored⟩ := hdescend next
        rcases hcall : descend next trail with ⟨result, left⟩
        rw [hcall] at hfound hrestored
        obtain rfl : result = find next := hfound
        cases hfind : find next with
        | error e =>
          rw [hfind] at hcall
          exact ⟨by simp [hinput, hcall, hfind, Except.bind], by simp [hinput, hfind, Except.bind]⟩
        | ok found =>
          obtain rfl : left = trail := hrestored found hfind
          rw [hfind] at hcall
          have hrest := ih found
          simpa [hinput, hcall, hfind, Except.bind] using hrest

/-- The trail that is passed on is the one that each level has by itself. -/
theorem resolveOn_spec (fuel : ℕ) (link : Value) (trail : List Value) :
    Restores (resolveOn nodes root fuel link trail) (resolve nodes root fuel link trail) trail := by
  induction fuel generalizing link trail with
  | zero => cases link <;> exact ⟨rfl, by simp [resolve, resolveOn]⟩
  | succ fuel ih =>
    cases link with
    | array path =>
      unfold resolveOn resolve
      split
      · exact ⟨rfl, nofun⟩
      · obtain ⟨hfound, hrestored⟩ := followPathOn_spec
          (fun next => ih next (trail ++ [.array path])) root path
        rcases hcall : followPathOn nodes (resolveOn nodes root fuel) root path
          (trail ++ [.array path]) with ⟨result, left⟩
        rw [hcall] at hfound hrestored
        rw [← hfound, hcall]
        cases result with
        | error e => exact ⟨rfl, nofun⟩
        | ok current =>
          have hleft : left = trail ++ [.array path] := hrestored current hfound.symm
          exact ⟨rfl, fun _ _ => by simp [hleft]⟩
    | _ => exact ⟨rfl, by simp [resolve, resolveOn]⟩

/-- `resolve` ends, finds the target of a reference and nothing else, calls only what has no target
a cycle, and leaves the trail as it was where it succeeds. `extra` is what the recursion may have
beyond its bound. -/
theorem resolve_exact (nodes : Nodes) (root : String) (link : Value) (extra : ℕ) :
    (resolveOn nodes root ((links nodes).length + 2 + extra) link []).1 ≠ .error .exhausted ∧
    (∀ target, (resolveOn nodes root ((links nodes).length + 2 + extra) link []).1 = .ok target ↔
      Resolves nodes root link target) ∧
    ((resolveOn nodes root ((links nodes).length + 2 + extra) link []).1 =
      .error (.message "cycle in lock follows") → ¬ ∃ target, Resolves nodes root link target) ∧
    ∀ fuel other trail target, (resolveOn nodes root fuel other trail).1 = .ok target →
      (resolveOn nodes root fuel other trail).2 = trail := by
  have hsame := (@resolveOn_spec nodes root ((links nodes).length + 2 + extra) link []).1
  have hends : resolve nodes root
    ((links nodes).length + 2 + extra) link [] ≠ .error .exhausted := by
    refine resolve_ne_exhausted (link :: links nodes) ?_ List.mem_cons_self List.nodup_nil nofun ?_
    · exact fun other hother => List.mem_cons_of_mem _ hother
    · rw [List.length_cons, List.length_nil]
      omega
  have hiff : ∀ target, resolve nodes root ((links nodes).length + 2 + extra) link [] = .ok target ↔
      Resolves nodes root link target := by
    refine fun target => ⟨resolves_of_resolve, ?_⟩
    rintro ⟨depth, h⟩
    exact (resolve_of_resolvesWithin depth h
      fun _ hmem => absurd hmem List.not_mem_nil).resolve_right hends
  rw [hsame]
  refine ⟨hends, hiff, ?_, fun fuel other trail target hfound => ?_⟩
  · rintro hcycle ⟨target, htarget⟩
    rw [(hiff target).mpr htarget] at hcycle
    cases hcycle
  · obtain ⟨hresult, hrestored⟩ := @resolveOn_spec nodes root fuel other trail
    exact hrestored target (hresult ▸ hfound)

end

end DaemonFramework.LocalBuild
