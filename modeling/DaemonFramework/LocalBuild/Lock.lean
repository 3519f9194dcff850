import DaemonFramework.LocalBuild.Follows

/-!
# Pruning a lock

`prune_lock` of `shelllist-local-build/src/lock.rs`: the named inputs of the root are removed, and
then the nodes that the root does not reach any more. `Live` says what is reached: the root, and the
target of every input reference of what is reached. A follows path passes only through targets of
input references, from the root on, so all nodes that it meets are live with it; this is why a
reference of a live node has the same target in the pruned lock.
-/

namespace DaemonFramework.LocalBuild

open Value Worklist

/-- `inputs.remove(name)` on the inputs of a node, for each of the names. -/
def removeInputs (names : List String) (node : Value) : Value :=
  node.modify "inputs" (retain fun name => name ∉ names)

/-- The nodes of a lock after the named inputs of its root were removed. -/
def withoutInputs (names : List String) (root : String) (nodes : Nodes) : Nodes :=
  modifyField root (removeInputs names) nodes

/-- The targets of the inputs of a node, pushed one after the other. -/
def pushTargets (nodes : Nodes) (root : String) :
    List String → List (String × Value) → Except Failure (List String)
  | pushed, [] => .ok pushed
  | pushed, input :: rest =>
    (resolveLink nodes root input.2).bind fun target =>
      pushTargets nodes root (target :: pushed) rest

/-- The body of the loop for a node that was not reached before: what it pushes, last first. -/
def visit (nodes : Nodes) (root name : String) : Except Failure (List String) :=
  match lookupField name nodes with
  | none => .error (.message s!"missing lock node {name}")
  | some node => pushTargets nodes root [] (inputsOf node)

/-- The number of names that the visit of a node can push. -/
def inputCount (nodes : Nodes) (name : String) : ℕ :=
  (lookupField name nodes).elim 0 fun node => (inputsOf node).length

/-- The loop over the pending names. -/
def reachable (nodes : Nodes) (root : String) : Except Failure (List String) :=
  search (visit nodes root) .exhausted (1 + ((nodes.map Prod.fst).map (inputCount nodes)).sum) []
    [root]

/-- `prune_lock`. -/
def pruneLock (lock : Value) (names : List String) : Except Failure Value :=
  match (lock.get "root").bind asStr with
  | none => .error (.message "lock has no root")
  | some root =>
    match (lock.get "nodes").bind asObject with
    | none => .error (.message "lock has no nodes")
    | some nodes =>
      match ((lookupField root nodes).bind fun node => node.get "inputs").bind asObject with
      | none => .error (.message "lock root has no inputs")
      | some _ =>
        (reachable (withoutInputs names root nodes) root).map fun live =>
          lock.modify "nodes" fun _ =>
            .object ((withoutInputs names root nodes).filter fun node => node.1 ∈ live)

/-- The nodes that the root reaches through input references. -/
inductive Live (nodes : Nodes) (root : String) : String → Prop where
  /-- The root itself. -/
  | root : Live nodes root root
  /-- The target of an input reference of a node that is reached. -/
  | input {name key target : String} {node link : Value} (hname : Live nodes root name)
    (hnode : lookupField name nodes = some node) (hlink : (key, link) ∈ inputsOf node)
    (htarget : Resolves nodes root link target) : Live nodes root target

section
variable {nodes : Nodes} {root : String} {names : List String}

/-- Removing inputs a second time does nothing. -/
theorem removeInputs_removeInputs (names : List String) (node : Value) :
    removeInputs names (removeInputs names node) = removeInputs names node := by
  unfold removeInputs
  cases node with
  | object fields =>
    simp only [Value.modify]
    refine congrArg Value.object (modifyField_eq_self fun value hvalue => ?_)
    rw [lookupField_modifyField, if_pos rfl] at hvalue
    obtain ⟨inputs, -, rfl⟩ := Option.map_eq_some_iff.1 hvalue
    cases inputs with
    | object inputs => simp [retain]
    | _ => rfl
  | _ => rfl

/-- A node, after the named inputs of the root were removed. -/
theorem lookupField_withoutInputs (names : List String) (root : String) (nodes : Nodes)
    (name : String) :
    lookupField name (withoutInputs names root nodes) =
      (lookupField name nodes).map fun node =>
        if name = root then removeInputs names node else node := by
  unfold withoutInputs
  rw [lookupField_modifyField]
  split_ifs <;> simp

/-- Removing inputs adds none: an input that is left has the reference it had. -/
theorem inputAt_withoutInputs {current part : String} {link : Value}
    (h : inputAt (withoutInputs names root nodes) current part = some link) :
    inputAt nodes current part = some link := by
  obtain ⟨inputs, hinputs, hlink⟩ := Option.bind_eq_some_iff.1 h
  obtain ⟨node, hnode, hget⟩ := Option.bind_eq_some_iff.1 hinputs
  rw [lookupField_withoutInputs] at hnode
  obtain ⟨old, hold, rfl⟩ := Option.map_eq_some_iff.1 hnode
  split_ifs at hget with hroot
  · rw [removeInputs, get_modify, if_pos rfl] at hget
    obtain ⟨before, hbefore, rfl⟩ := Option.map_eq_some_iff.1 hget
    rw [get_retain] at hlink
    split_ifs at hlink
    simp only [inputAt, hold, Option.bind_some, hbefore, hlink]
  · simp only [inputAt, hold, Option.bind_some, hget, hlink]

/-- A path that can be walked can be walked where all its inputs have the same references. -/
theorem Walks.of_inputs {other : Nodes} {depth : ℕ} {current target : String} {path : List Value}
    (hinputs : ∀ current part link, inputAt nodes current part = some link →
      inputAt other current part = some link)
    (h : Walks nodes root depth current path target) :
    Walks other root depth current path target := by
  induction h with
  | done => exact .done
  | name hinput _ ih => exact .name (hinputs _ _ _ hinput) ih
  | follow hinput _ _ ihpath ihrest => exact .follow (hinputs _ _ _ hinput) ihpath ihrest

/-- A reference has the target in the whole lock that it has after inputs of the root were
removed. -/
theorem Resolves.of_withoutInputs {link : Value} {target : String}
    (h : Resolves (withoutInputs names root nodes) root link target) :
    Resolves nodes root link target := by
  obtain ⟨depth, h⟩ := h
  refine ⟨depth, ?_⟩
  cases link with
  | string name => exact h
  | array path => exact Walks.of_inputs (fun _ _ _ hinput => inputAt_withoutInputs hinput) h
  | _ => exact h

/-- What the inputs of a live node lead to is live. -/
theorem Live.inputAt {current part target : String} {link : Value} (h : Live nodes root current)
    (hinput : inputAt nodes current part = some link) (htarget : Resolves nodes root link target) :
    Live nodes root target := by
  obtain ⟨node, hnode, hlink⟩ := inputAt_eq_some hinput
  exact .input h hnode hlink htarget

/-- Of the nodes, exactly the live ones are kept. -/
structure Keeps (nodes kept : Nodes) (root : String) : Prop where
  /-- A live node is kept as it is. -/
  live : ∀ name, Live nodes root name → lookupField name kept = lookupField name nodes
  /-- Nothing else is kept. -/
  only : ∀ name node, lookupField name kept = some node →
    Live nodes root name ∧ lookupField name nodes = some node

namespace Keeps

variable {kept : Nodes} (hkeeps : Keeps nodes kept root)
include hkeeps

/-- A live node has its inputs. -/
theorem inputAt_eq {current : String} (h : Live nodes root current) (part : String) :
    inputAt kept current part = inputAt nodes current part := by
  unfold LocalBuild.inputAt
  rw [hkeeps.live current h]

/-- A path from a live node passes through live nodes only, so it can be walked among them. -/
theorem walks {depth : ℕ} {current target : String} {path : List Value}
    (h : Walks nodes root depth current path target) (hlive : Live nodes root current) :
    Walks kept root depth current path target ∧ Live nodes root target := by
  induction h with
  | done => exact ⟨.done, hlive⟩
  | name hinput _ ih =>
    obtain ⟨hrest, htarget⟩ := ih (hlive.inputAt hinput ⟨0, rfl⟩)
    exact ⟨.name ((hkeeps.inputAt_eq hlive _).trans hinput) hrest, htarget⟩
  | follow hinput hpath _ ihpath ihrest =>
    obtain ⟨hwalk, -⟩ := ihpath .root
    obtain ⟨hrest, htarget⟩ := ihrest (hlive.inputAt hinput ⟨_, hpath⟩)
    exact ⟨.follow ((hkeeps.inputAt_eq hlive _).trans hinput) hwalk hrest, htarget⟩

/-- A reference that resolves has the same target among the live nodes. -/
theorem resolves {link : Value} {target : String} (h : Resolves nodes root link target) :
    Resolves kept root link target := by
  obtain ⟨depth, h⟩ := h
  refine ⟨depth, ?_⟩
  cases link with
  | string name => exact h
  | array path => exact (hkeeps.walks h .root).1
  | _ => exact h

/-- The live nodes reach each other without the dropped ones. -/
theorem live_kept {name : String} (h : Live nodes root name) : Live kept root name := by
  induction h with
  | root => exact .root
  | input hname hnode hlink htarget ih =>
    exact .input ih ((hkeeps.live _ hname).trans hnode) hlink (hkeeps.resolves htarget)

/-- Dropping nodes makes no node live. -/
theorem live_of_kept {name : String} (h : Live kept root name) : Live nodes root name := by
  induction h with
  | root => exact .root
  | @input name key target node link _ hnode hlink htarget ih =>
    have hresolves : Resolves nodes root link target := by
      obtain ⟨depth, hwithin⟩ := htarget
      refine ⟨depth, ?_⟩
      cases link with
      | string name => exact hwithin
      | array path =>
        refine Walks.of_inputs (fun current part link hinput => ?_) hwithin
        obtain ⟨node', hnode', -⟩ := inputAt_eq_some hinput
        exact (hkeeps.inputAt_eq (hkeeps.only _ _ hnode').1 part).symm.trans hinput
      | _ => exact hwithin
    exact .input ih (hkeeps.only _ _ hnode).2 hlink hresolves

end Keeps

/-- What is pushed are the targets of the inputs, one for each. -/
theorem pushTargets_eq_ok {pushed found : List String} {inputs : List (String × Value)}
    (h : pushTargets nodes root pushed inputs = .ok found) :
    found.length = pushed.length + inputs.length ∧
      (∀ input ∈ inputs, ∃ target, Resolves nodes root input.2 target) ∧
      ∀ target, target ∈ found ↔
        target ∈ pushed ∨ ∃ input ∈ inputs, Resolves nodes root input.2 target := by
  induction inputs generalizing pushed with
  | nil =>
    obtain rfl : pushed = found := Except.ok.inj h
    exact ⟨rfl, nofun, by simp⟩
  | cons input rest ih =>
    obtain ⟨next, hlink, hrest⟩ := bind_eq_ok h
    have hnext : Resolves nodes root input.2 next := resolveLink_eq_ok_iff.1 hlink
    obtain ⟨hlength, hresolve, hmem⟩ := ih hrest
    refine ⟨?_, ?_, fun target => ?_⟩
    · rw [hlength, List.length_cons, List.length_cons]
      omega
    · exact List.forall_mem_cons.2 ⟨⟨next, hnext⟩, hresolve⟩
    · have hhead : target = next ↔ Resolves nodes root input.2 target :=
        ⟨fun heq => heq ▸ hnext, fun htarget => htarget.target_eq hnext⟩
      rw [hmem target]
      simp only [List.mem_cons, exists_eq_or_imp, hhead]
      tauto

/-- Pushing targets fails where one of the references does not resolve. -/
theorem pushTargets_eq_error {pushed : List String} {inputs : List (String × Value)} {e : Failure}
    (h : pushTargets nodes root pushed inputs = .error e) :
    ∃ input ∈ inputs, resolveLink nodes root input.2 = .error e := by
  induction inputs generalizing pushed with
  | nil => cases h
  | cons input rest ih =>
    rcases bind_eq_error h with hlink | ⟨next, -, hrest⟩
    · exact ⟨input, List.mem_cons_self, hlink⟩
    · obtain ⟨other, hother, hlink⟩ := ih hrest
      exact ⟨other, List.mem_cons_of_mem _ hother, hlink⟩

/-- What the visit of a node finds. -/
theorem visit_eq_ok {name : String} {found : List String} (h : visit nodes root name = .ok found) :
    ∃ node, lookupField name nodes = some node ∧ found.length = (inputsOf node).length ∧
      (∀ input ∈ inputsOf node, ∃ target, Resolves nodes root input.2 target) ∧
      ∀ target, target ∈ found ↔ ∃ input ∈ inputsOf node, Resolves nodes root input.2 target := by
  unfold visit at h
  split at h
  · cases h
  · rename_i node hnode
    obtain ⟨hlength, hresolve, hmem⟩ := pushTargets_eq_ok h
    refine ⟨node, hnode, ?_, hresolve, fun target => ?_⟩
    · simpa using hlength
    · simpa using hmem target

/-- What the visits reach is live. -/
theorem live_of_reaches {name : String} (h : Reaches (visit nodes root) root name) :
    Live nodes root name := by
  induction h with
  | root => exact .root
  | step _ hvisit hb ih =>
    obtain ⟨node, hnode, -, -, hmem⟩ := visit_eq_ok hvisit
    obtain ⟨input, hinput, htarget⟩ := (hmem _).1 hb
    exact .input ih hnode hinput htarget

/-- The loop fails only where the visit of a live node does. -/
theorem reachable_eq_error {e : Failure} (h : reachable nodes root = .error e) :
    ∃ name, Live nodes root name ∧ visit nodes root name = .error e := by
  have hall : ∀ name found, visit nodes root name = .ok found →
      name ∈ nodes.map Prod.fst ∧ found.length ≤ inputCount nodes name := by
    intro name found hvisit
    obtain ⟨node, hnode, hlength, -, -⟩ := visit_eq_ok hvisit
    refine ⟨List.mem_map.2 ⟨_, mem_of_lookupField hnode, rfl⟩, ?_⟩
    rw [hlength, inputCount, hnode]
    exact Nat.le_refl _
  obtain ⟨name, hreaches, hvisit⟩ := error_of_search hall .start (by simp [remaining]) h
  exact ⟨name, live_of_reaches hreaches, hvisit⟩

/-- The bound on the loop is never reached. -/
theorem reachable_ne_exhausted (nodes : Nodes) (root : String) :
    reachable nodes root ≠ .error .exhausted := by
  intro h
  obtain ⟨name, -, hvisit⟩ := reachable_eq_error h
  unfold visit at hvisit
  split at hvisit
  · cases hvisit
  · obtain ⟨input, -, hlink⟩ := pushTargets_eq_error hvisit
    exact resolveLink_ne_exhausted nodes root input.2 hlink

/-- A live node exists, and its references resolve. -/
def Sound (nodes : Nodes) (root : String) : Prop :=
  ∀ name, Live nodes root name → ∃ node, lookupField name nodes = some node ∧
    ∀ input ∈ inputsOf node, ∃ target, Resolves nodes root input.2 target

/-- What the loop reaches are exactly the live nodes, and it has found nothing missing. -/
theorem reachable_eq_ok {live : List String} (h : reachable nodes root = .ok live) :
    (∀ name, name ∈ live ↔ Live nodes root name) ∧ Sound nodes root := by
  have hreaches : ∀ name, Live nodes root name → name ∈ live := by
    intro name hlive
    induction hlive with
    | root => exact (mem_search_iff h _).2 .root
    | @input name key target node link _ hnode hlink htarget ih =>
      obtain ⟨found, hvisit⟩ := visit_of_mem_search h ih
      obtain ⟨node', hnode', -, -, hmem⟩ := visit_eq_ok hvisit
      obtain rfl : node = node' := Option.some.inj (hnode.symm.trans hnode')
      have hfound : target ∈ found := (hmem target).2 ⟨(key, link), hlink, htarget⟩
      exact (mem_search_iff h _).2 (.step ((mem_search_iff h _).1 ih) hvisit hfound)
  constructor
  · exact fun name => ⟨fun hmem => live_of_reaches ((mem_search_iff h name).1 hmem), hreaches name⟩
  · intro name hlive
    obtain ⟨found, hvisit⟩ := visit_of_mem_search h (hreaches name hlive)
    obtain ⟨node, hnode, -, hresolve, -⟩ := visit_eq_ok hvisit
    exact ⟨node, hnode, hresolve⟩

/-- The loop succeeds where nothing is missing. -/
theorem Sound.exists_reachable (h : Sound nodes root) :
    ∃ live, reachable nodes root = .ok live := by
  cases hreach : reachable nodes root with
  | ok live => exact ⟨live, rfl⟩
  | error e =>
    obtain ⟨name, hlive, hvisit⟩ := reachable_eq_error hreach
    obtain ⟨node, hnode, hresolve⟩ := h name hlive
    simp only [visit, hnode] at hvisit
    obtain ⟨input, hinput, hlink⟩ := pushTargets_eq_error hvisit
    obtain ⟨target, htarget⟩ := hresolve input hinput
    rw [resolveLink_eq_ok_iff.2 htarget] at hlink
    cases hlink

/-- Where only the live nodes are kept, nothing is missing either. -/
theorem Keeps.sound {kept : Nodes} (hkeeps : Keeps nodes kept root) (h : Sound nodes root) :
    Sound kept root := by
  intro name hlive
  have hbefore : Live nodes root name := hkeeps.live_of_kept hlive
  obtain ⟨node, hnode, hresolve⟩ := h name hbefore
  refine ⟨node, (hkeeps.live name hbefore).trans hnode, fun input hinput => ?_⟩
  obtain ⟨target, htarget⟩ := hresolve input hinput
  exact ⟨target, hkeeps.resolves htarget⟩

/-- The nodes that `prune_lock` retains are the live ones. -/
theorem keeps_filter {live : List String} (h : ∀ name, name ∈ live ↔ Live nodes root name) :
    Keeps nodes (nodes.filter fun node => node.1 ∈ live) root where
  live name hname := by
    rw [lookupField_filter (fun name => name ∈ live), if_pos (by simpa using (h name).2 hname)]
  only name node hnode := by
    rw [lookupField_filter (fun name => name ∈ live)] at hnode
    obtain ⟨hmem, hnode⟩ := Option.ite_none_right_eq_some.1 hnode
    exact ⟨(h name).1 (by simpa using hmem), hnode⟩

/-- The lock with other nodes. -/
def withNodes (lock : Value) (nodes : Nodes) : Value := lock.modify "nodes" fun _ => .object nodes

/-- When a lock is pruned, and what becomes of it. -/
theorem pruneLock_eq_ok_iff {lock out : Value} :
    pruneLock lock names = .ok out ↔ ∃ root nodes inputs live,
      lock.get "root" = some (.string root) ∧ lock.get "nodes" = some (.object nodes) ∧
      ((lookupField root nodes).bind fun node => node.get "inputs") = some (.object inputs) ∧
      reachable (withoutInputs names root nodes) root = .ok live ∧
      out = withNodes lock
        ((withoutInputs names root nodes).filter fun node => node.1 ∈ live) := by
  constructor
  · intro h
    unfold pruneLock at h
    split at h
    · cases h
    · rename_i root hroot
      split at h
      · cases h
      · rename_i nodes hnodes
        split at h
        · cases h
        · rename_i inputs hinputs
          cases hreach : reachable (withoutInputs names root nodes) root with
          | error e =>
            rw [hreach] at h
            cases h
          | ok live =>
            rw [hreach] at h
            exact ⟨root, nodes, inputs, live, bind_asStr_eq_some.1 hroot,
              bind_asObject_eq_some.1 hnodes, bind_asObject_eq_some.1 hinputs, hreach,
              (Except.ok.inj h).symm⟩
  · rintro ⟨root, nodes, inputs, live, hroot, hnodes, hinputs, hreach, rfl⟩
    simp only [pruneLock, bind_asStr_eq_some.2 hroot, bind_asObject_eq_some.2 hnodes,
      bind_asObject_eq_some.2 hinputs, hreach]
    rfl

/-- The other fields of a lock with other nodes are its own. -/
theorem get_withNodes (lock : Value) (nodes : Nodes) (key : String) :
    (withNodes lock nodes).get key =
      if key = "nodes" then (lock.get key).map fun _ => .object nodes else lock.get key :=
  get_modify "nodes" key _ lock

/-- Removing the named inputs of the root a second time does nothing. -/
theorem withoutInputs_of_removed {kept : Nodes} (hkept : ∀ node, lookupField root kept = some node →
    ∃ old, node = removeInputs names old) : withoutInputs names root kept = kept := by
  refine modifyField_eq_self fun node hnode => ?_
  obtain ⟨old, rfl⟩ := hkept node hnode
  exact removeInputs_removeInputs names old

/-- Setting the nodes a second time does nothing. -/
theorem withNodes_withNodes (lock : Value) (nodes : Nodes) :
    withNodes (withNodes lock nodes) nodes = withNodes lock nodes := by
  unfold withNodes
  cases lock with
  | object fields =>
    refine congrArg Value.object (modifyField_eq_self fun value hvalue => ?_)
    rw [lookupField_modifyField, if_pos rfl] at hvalue
    obtain ⟨old, -, rfl⟩ := Option.map_eq_some_iff.1 hvalue
    rfl
  | _ => rfl

/-- What `prune_lock` retains of the nodes: the root has lost the named inputs, and the others are
as they were. -/
theorem Keeps.node {kept : Nodes} (hkeeps : Keeps (withoutInputs names root nodes) kept root)
    {name : String} {node : Value} (h : lookupField name kept = some node) :
    ∃ old, lookupField name nodes = some old ∧
      node = if name = root then removeInputs names old else old := by
  obtain ⟨-, hbefore⟩ := hkeeps.only name node h
  rw [lookupField_withoutInputs] at hbefore
  obtain ⟨old, hold, rfl⟩ := Option.map_eq_some_iff.1 hbefore
  exact ⟨old, hold, rfl⟩

/-- The references of what `prune_lock` retains have targets among it, the same that they had. -/
theorem Keeps.link {kept : Nodes} (hkeeps : Keeps (withoutInputs names root nodes) kept root)
    (hsound : Sound (withoutInputs names root nodes) root) {name key : String} {node link : Value}
    (h : lookupField name kept = some node) (hlink : (key, link) ∈ inputsOf node) :
    ∃ target, Live (withoutInputs names root nodes) root target ∧
      resolveLink kept root link = .ok target ∧ resolveLink nodes root link = .ok target := by
  obtain ⟨hlive, hbefore⟩ := hkeeps.only name node h
  obtain ⟨node', hnode', hresolve⟩ := hsound name hlive
  obtain rfl : node = node' := Option.some.inj (hbefore.symm.trans hnode')
  obtain ⟨target, htarget⟩ := hresolve (key, link) hlink
  exact ⟨target, .input hlive hbefore hlink htarget,
    resolveLink_eq_ok_iff.2 (hkeeps.resolves htarget),
    resolveLink_eq_ok_iff.2 htarget.of_withoutInputs⟩

/-- A kept node is a live one. -/
theorem Keeps.mem_iff {kept : Nodes} (hkeeps : Keeps nodes kept root) (hsound : Sound nodes root)
    (hkept : ∀ node ∈ kept, Live nodes root node.1) (name : String) :
    name ∈ kept.map Prod.fst ↔ Live nodes root name := by
  constructor
  · intro hmem
    obtain ⟨node, hnode, rfl⟩ := List.mem_map.1 hmem
    exact hkept node hnode
  · intro hlive
    obtain ⟨node, hnode, -⟩ := hsound name hlive
    have hfound : lookupField name kept = some node := (hkeeps.live name hlive).trans hnode
    exact List.mem_map.2 ⟨(name, node), mem_of_lookupField hfound, rfl⟩

/-- The pruned nodes are pruned to themselves. -/
theorem Keeps.reachable_again {kept : Nodes} (hkeeps : Keeps nodes kept root)
    (hsound : Sound nodes root) (hkept : ∀ node ∈ kept, Live nodes root node.1) :
    ∃ live, reachable kept root = .ok live ∧ (kept.filter fun node => node.1 ∈ live) = kept := by
  obtain ⟨live, hreach⟩ := (hkeeps.sound hsound).exists_reachable
  obtain ⟨hlive, -⟩ := reachable_eq_ok hreach
  refine ⟨live, hreach, List.filter_eq_self.2 fun node hnode => ?_⟩
  have hmem : node.1 ∈ live := (hlive node.1).2 (hkeeps.live_kept (hkept node hnode))
  simpa using hmem

/-- Pruning keeps exactly the live part of a lock: the nodes that the root reaches once the named
inputs are removed, each as it was but for those inputs of the root, with references that have the
targets they had. What is beside the nodes is as it was, and pruning again does nothing. -/
theorem prune_keeps_live_part {lock out : Value} {names : List String}
    (h : pruneLock lock names = .ok out) :
    ∃ root nodes kept, lock.get "root" = some (.string root) ∧
      lock.get "nodes" = some (.object nodes) ∧ out.get "nodes" = some (.object kept) ∧
      (∀ key, key ≠ "nodes" → out.get key = lock.get key) ∧
      (∀ name, name ∈ kept.map Prod.fst ↔ Live (withoutInputs names root nodes) root name) ∧
      (∀ name node, lookupField name kept = some node → ∃ old, lookupField name nodes = some old ∧
        node = if name = root then removeInputs names old else old) ∧
      (∀ name node key link, lookupField name kept = some node → (key, link) ∈ inputsOf node →
        ∃ target, target ∈ kept.map Prod.fst ∧ resolveLink kept root link = .ok target ∧
          resolveLink nodes root link = .ok target) ∧
      pruneLock out names = .ok out := by
  obtain ⟨root, nodes, inputs, live, hroot, hnodes, hinputs, hreach, rfl⟩ :=
    pruneLock_eq_ok_iff.1 h
  obtain ⟨hlive, hsound⟩ := reachable_eq_ok hreach
  have hkeeps := keeps_filter hlive
  have hkept : ∀ node ∈ (withoutInputs names root nodes).filter fun node => node.1 ∈ live,
      Live (withoutInputs names root nodes) root node.1 := fun node hnode =>
    (hlive node.1).1 (by simpa using (List.mem_filter.1 hnode).2)
  -- From here on only what `Keeps` says of the nodes that are left is used.
  generalize ((withoutInputs names root nodes).filter fun node => node.1 ∈ live) = kept
    at hkeeps hkept ⊢
  have hmem : ∀ name, name ∈ kept.map Prod.fst ↔ Live (withoutInputs names root nodes) root name :=
    hkeeps.mem_iff hsound hkept
  have hget : (withNodes lock kept).get "nodes" = some (.object kept) := by
    rw [get_withNodes, if_pos rfl, hnodes]
    rfl
  refine ⟨root, nodes, kept, hroot, hnodes, hget, ?_, hmem, fun _ _ => hkeeps.node, ?_, ?_⟩
  · intro key hkey
    rw [get_withNodes, if_neg hkey]
  · intro name node key link hnode hlink
    obtain ⟨target, htarget, hafter, hbefore⟩ := hkeeps.link hsound hnode hlink
    exact ⟨target, (hmem target).2 htarget, hafter, hbefore⟩
  -- The second run: the root is kept, and it has its remaining inputs.
  · obtain ⟨old, hold, hinputs⟩ := Option.bind_eq_some_iff.1 hinputs
    have hrootKept : lookupField root kept = some (removeInputs names old) := by
      rw [hkeeps.live root .root, lookupField_withoutInputs, hold]
      simp
    have hrootInputs : (removeInputs names old).get "inputs" =
        some (.object (inputs.filter fun input => input.1 ∉ names)) := by
      rw [removeInputs, get_modify, if_pos rfl, hinputs]
      rfl
    have hremoved : withoutInputs names root kept = kept := by
      refine withoutInputs_of_removed fun node hnode => ⟨old, ?_⟩
      exact Option.some.inj (hnode.symm.trans hrootKept)
    obtain ⟨again, hagain, hfilter⟩ := hkeeps.reachable_again hsound hkept
    refine pruneLock_eq_ok_iff.2
      ⟨root, kept, inputs.filter fun input => input.1 ∉ names, again, ?_, hget, ?_, ?_, ?_⟩
    · rw [get_withNodes, if_neg (by decide), hroot]
    · rw [hrootKept]
      exact hrootInputs
    · rw [hremoved]
      exact hagain
    · rw [hremoved, hfilter, withNodes_withNodes]

/-- A lock with a local input, a follows path through an input of another node, and a pin that only
the local input needs. -/
def sampleLock : Value :=
  .object [("nodes", .object [
      ("a", .object [("inputs", .object [("dep", .string "remote")])]),
      ("local", .object [("inputs", .object [("private", .string "private")])]),
      ("private", .object []),
      ("remote", .object []),
      ("root", .object [("inputs", .object [("a", .string "a"),
        ("alias", .array [.string "a", .string "dep"]), ("local", .string "local")])])]),
    ("root", .string "root")]

/-- The local input goes with its pin, and pruning again does nothing. -/
theorem prune_keeps_live_part_sample :
    ∃ out, pruneLock sampleLock ["local"] = .ok out ∧ pruneLock out ["local"] = .ok out ∧
      (out.get "nodes").bind asObject = some [
        ("a", .object [("inputs", .object [("dep", .string "remote")])]),
        ("remote", .object []),
        ("root", .object [("inputs", .object [("a", .string "a"),
          ("alias", .array [.string "a", .string "dep"])])])] := by
  have hprune : ∃ out, pruneLock sampleLock ["local"] = .ok out ∧
      (out.get "nodes").bind asObject = some [
        ("a", .object [("inputs", .object [("dep", .string "remote")])]),
        ("remote", .object []),
        ("root", .object [("inputs", .object [("a", .string "a"),
          ("alias", .array [.string "a", .string "dep"])])])] := ⟨_, rfl, by decide⟩
  obtain ⟨out, hout, hnodes⟩ := hprune
  obtain ⟨root, nodes, kept, -, -, -, -, -, -, -, hagain⟩ := prune_keeps_live_part hout
  exact ⟨out, hout, hagain, hnodes⟩

end

end DaemonFramework.LocalBuild
