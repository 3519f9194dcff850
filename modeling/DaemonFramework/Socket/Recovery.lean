import DaemonFramework.Socket.Place
import Mathlib.Data.Fintype.EquivFin

/-!
# Binding after a crash

Whatever the calls of a name have done and wherever their processes have died, a later call of the
name can bind, as long as other programs leave the place and the lock file alone and no call of the
name runs under a mask that takes the permissions of the lock file away (`Calm`). A lock file that a
call has created is a safe one then, and a socket in the place is one of the user's that is listened
on only while its call has it open (`Usable`). So once no call of the name has a file open, nothing
stands in the way (`bind_recovers`).
-/

namespace DaemonFramework.Socket.Listener

/-- Other programs leave the place of a socket and its lock file alone, and no call of the name has
a mask that takes the permissions of the lock file away. -/
def Calm (name : String) (s : System) : Label → Prop
  | .call name' _ umask => name' = name → 0o600 &&& ~~~umask = (0o600 : UInt32)
  | .act _ _ => True
  | .relink entry target =>
    entry ≠ socketName name ∧ ∀ l, s.disk.entries.lookup (lockName name) = some l → target ≠ some l
  | .alter ino _ =>
    s.disk.entries.lookup (socketName name) ≠ some ino ∧
      s.disk.entries.lookup (lockName name) ≠ some ino

/-- The lock file is safe, and no other entry leads to it. -/
def SafeLock (name : String) (uid : ℕ) (d : Disk) : Prop :=
  ∀ l, d.entries.lookup (lockName name) = some l →
    System.safeLock (d.nodes l) uid = true ∧
      ∀ other, d.entries.lookup other = some l → other = lockName name

/-- What is in the place is a socket of the user, on which only the call that has it open
listens. -/
def OwnPlace (name : String) (uid : ℕ) (s : System) : Prop :=
  ∀ m, s.disk.entries.lookup (socketName name) = some m →
    s.disk.IsSocket m uid ∧
      ((s.disk.nodes m).listening = true → ∃ c ∈ s.calls, c.phase.own = some m)

/-- Nothing but an open listener keeps a call of the name from binding. -/
structure Usable (runtime : Runtime) (name : String) (s : System) : Prop where
  /-- The place is left alone. -/
  placed : Placed name s
  /-- A call that goes on was admitted, and its mask leaves the lock file its permissions. -/
  admitted : ∀ c ∈ s.calls, c.phase ≠ .ended →
    runtime.admits c.name c.uid ∧ (c.name = name → 0o600 &&& ~~~c.umask = (0o600 : UInt32))
  /-- The lock file is safe. -/
  lock : SafeLock name runtime.uid s.disk
  /-- The place is the user's own. -/
  place : OwnPlace name runtime.uid s

theorem Calm.untouched {name : String} {s : System} {label : Label} (h : Calm name s label) :
    Untouched name s label := by
  cases label with
  | call => trivial
  | act => trivial
  | relink => exact h.1
  | alter => exact h.1

/-- The user of an admitted call. -/
theorem Runtime.uid_eq {runtime : Runtime} {name : String} {uid : ℕ} (h : runtime.admits name uid) :
    runtime.uid = uid := by
  simp only [Runtime.admits, Bool.and_eq_true, decide_eq_true_eq] at h
  exact h.1.2

/-- A call that has ended does nothing. -/
theorem ne_ended_of_act {s : System} {k : ℕ} {c : Call} {e : Event} {r : Phase × Disk}
    (h : s.act k c e = some r) : c.phase ≠ .ended := by
  intro hphase
  unfold System.act at h
  rw [hphase] at h
  cases e <;> cases h

namespace Effect

variable {s : System} {k : ℕ} {c : Call} {phase : Phase} {disk : Disk}

/-- A call keeps its socket open, or nobody listens on it. -/
theorem own_kept (h : Effect s k c phase disk) {i : ℕ} (hi : c.phase.own = some i) :
    phase.own = some i ∨ (disk.nodes i).listening = false := by
  cases h with
  | keep _ hown => exact .inl (hown.trans hi)
  | unlink _ hown => exact .inl (hown.trans hi)
  | release _ _ hown => exact .inl (hown.trans hi)
  | listen hphase =>
    rw [hphase] at hi
    exact .inl hi
  | permit hphase =>
    rw [hphase] at hi
    exact .inl hi
  | hangUp _ hown =>
    obtain rfl := Option.some.inj (hown.symm.trans hi)
    exact .inr (by simp [Disk.hangUp, Disk.modify])
  | openLock hphase => simp [hphase, Phase.own] at hi
  | createLock hphase => simp [hphase, Phase.own] at hi
  | acquire hphase => simp [hphase, Phase.own] at hi
  | bind hphase => simp [hphase, Phase.own] at hi

/-- A lock file to which no other entry leads stays safe. -/
theorem safeLock (h : Effect s k c phase disk) {name : String} {uid : ℕ}
    (hs : SafeLock name uid s.disk) (huid : c.uid = uid)
    (hmask : c.name = name → 0o600 &&& ~~~c.umask = (0o600 : UInt32)) :
    SafeLock name uid disk := by
  intro l hl
  -- The lock file is the one that was there, or one that this step has made.
  obtain hold | hfresh := h.lookup_old_or_fresh hl
  · obtain ⟨hsafe, honly⟩ := hs l hold
    have hused := not_fresh_of_lookup hold
    refine ⟨?_, fun other hother => ?_⟩
    -- Safety is read off these four fields, which `listen` and a close leave alone.
    · have hsame : ∀ {node : Node}, node.kind = (s.disk.nodes l).kind →
          node.uid = (s.disk.nodes l).uid → node.mode = (s.disk.nodes l).mode →
          node.links = (s.disk.nodes l).links → System.safeLock node uid = true := by
        intro node hkind huid' hmode hlinks
        unfold System.safeLock at hsafe ⊢
        rw [hkind, huid', hmode, hlinks]
        exact hsafe
      have hmodify : ∀ {ino : ℕ} {f : Node → Node} (P : Node → Prop), P (s.disk.nodes l) →
          (ino = l → P (f (s.disk.nodes l))) → P ((s.disk.modify ino f).nodes l) := by
        intro ino f P hP hf
        by_cases heq : l = ino
        · subst heq
          simpa [Disk.modify] using hf rfl
        · simpa [Disk.modify, Function.update_of_ne heq] using hP
      cases h with
      | createLock _ hentry hfresh =>
        have hne : l ≠ _ := fun heq => hused (heq ▸ hfresh)
        simpa [Disk.create, Function.update_of_ne hne] using hsafe
      | bind _ hfresh =>
        have hne : l ≠ _ := fun heq => hused (heq ▸ hfresh)
        simpa [Disk.create, Function.update_of_ne hne] using hsafe
      | unlink =>
        rw [Disk.unlink_nodes]
        exact hsafe
      | release =>
        rw [Disk.release_nodes]
        exact hsafe
      | listen =>
        exact hmodify (System.safeLock · uid = true) hsafe fun _ => hsame rfl rfl rfl rfl
      | hangUp =>
        exact hmodify (System.safeLock · uid = true) hsafe fun _ => hsame rfl rfl rfl rfl
      -- `chmod` is for the file in the place, which cannot be the lock file: no other entry leads
      -- there.
      | permit _ hplace =>
        refine hmodify (System.safeLock · uid = true) hsafe fun heq => ?_
        have hname := honly _ (heq ▸ hplace)
        exact absurd hname.symm (lockName_ne_socketName _ _)
      | _ => exact hsafe
    · obtain hother' | hfresh := h.lookup_old_or_fresh hother
      · exact honly other hother'
      · exact absurd hfresh hused
  -- A new entry has the name that was created, and the inode that was free.
  · have hnew : ∀ {entry : String} {ino : ℕ} {node : Node}, s.Fresh ino →
        (s.disk.create entry ino node).entries.lookup (lockName name) = some l →
        lockName name = entry ∧ l = ino := by
      intro entry ino node hino hlookup
      by_cases heq : lockName name = entry
      · subst heq
        exact ⟨rfl, (Option.some.inj ((AList.lookup_insert _).symm.trans hlookup)).symm⟩
      · rw [Disk.lookup_create heq] at hlookup
        exact absurd hfresh (not_fresh_of_lookup hlookup)
    cases h with
    -- It was made by a call under this name, with the mode its umask leaves and one link.
    | @createLock ino _ _ hino =>
      obtain ⟨hname, rfl⟩ := hnew hino hl
      have hname' := lockName_injective hname
      refine ⟨?_, fun other hother => ?_⟩
      · simp [System.safeLock, Disk.create, huid, hmask hname'.symm]
      · by_contra hne
        rw [hname] at hne
        rw [Disk.lookup_create hne] at hother
        exact not_fresh_of_lookup hother hfresh
    | bind _ hino => exact absurd (hnew hino hl).1 (lockName_ne_socketName _ _)
    | unlink =>
      rw [Disk.lookup_unlink (lockName_ne_socketName _ _)] at hl
      exact absurd hfresh (not_fresh_of_lookup hl)
    | release =>
      rw [Disk.release_entries] at hl
      exact absurd hfresh (not_fresh_of_lookup hl)
    | _ => exact absurd hfresh (not_fresh_of_lookup hl)

/-- A new socket in the place is the user's own and does not listen yet. -/
theorem fresh_place (h : Effect s k c phase disk) {name : String} {m : ℕ} (hfresh : s.Fresh m)
    (hm : disk.entries.lookup (socketName name) = some m) :
    disk.IsSocket m c.uid ∧ (disk.nodes m).listening = false := by
  have hold : s.disk.entries.lookup (socketName name) ≠ some m := fun h =>
    not_fresh_of_lookup h hfresh
  cases h with
  | createLock =>
    rw [Disk.lookup_create (lockName_ne_socketName _ _).symm] at hm
    exact absurd hm hold
  | @bind l ino _ hino =>
    by_cases heq : socketName name = socketName c.name
    · rw [heq] at hm
      obtain rfl := Option.some.inj ((AList.lookup_insert _).symm.trans hm)
      simp [Disk.IsSocket, Disk.create]
    · rw [Disk.lookup_create heq] at hm
      exact absurd hm hold
  | unlink =>
    by_cases heq : socketName name = socketName c.name
    · unfold Disk.unlink at hm
      split_ifs at hm with hkind
      · exact absurd hm hold
      · rw [heq, AList.lookup_erase] at hm
        cases hm
    · rw [Disk.lookup_unlink heq] at hm
      exact absurd hm hold
  | release =>
    rw [Disk.release_entries] at hm
    exact absurd hm hold
  | _ => exact absurd hm hold

end Effect

namespace Usable

variable {runtime : Runtime} {name : String} {s t : System}

/-- A step of a call keeps the place usable. -/
theorem act (hs : Usable runtime name s) {k : ℕ} {e : Event}
    (h : s.step runtime (.act k e) = some t) : Usable runtime name t := by
  have hplaced := hs.placed.act h
  obtain ⟨c, phase, disk, hk, hact, rfl⟩ := System.step_act h
  have heffect := System.effect_of_act hact
  have hmem := List.mem_of_getElem? hk
  have hlt := (List.getElem?_eq_some_iff.1 hk).1
  obtain ⟨hadmits, hmask⟩ := hs.admitted c hmem (ne_ended_of_act hact)
  have huid := (Runtime.uid_eq hadmits).symm
  refine ⟨hplaced, Roster.forall_mem_set hs.admitted fun _ => ⟨hadmits, hmask⟩,
    heffect.safeLock hs.lock huid hmask, fun m hm => ?_⟩
  obtain hold | hfresh := heffect.lookup_old_or_fresh hm
  · obtain ⟨⟨hkind, huid'⟩, hopen⟩ := hs.place m hold
    obtain ⟨hkind', huid'', hlistening⟩ := heffect.node (not_fresh_of_lookup hold)
    refine ⟨⟨hkind'.trans hkind, huid''.trans huid'⟩, fun hlistens => ?_⟩
    obtain ⟨c', hc', hown⟩ : ∃ c' ∈ s.calls, c'.phase.own = some m := by
      obtain hsame | ⟨hown, -⟩ := hlistening
      · exact hopen (hsame ▸ hlistens)
      · exact ⟨c, hmem, hown⟩
    obtain ⟨j, hj⟩ := List.getElem?_of_mem hc'
    by_cases hjk : j = k
    · subst hjk
      obtain rfl := Option.some.inj (hk.symm.trans hj)
      obtain hkept | hfalse := heffect.own_kept hown
      · exact ⟨{ c with phase := phase }, List.mem_of_getElem? (List.getElem?_set_self hlt), hkept⟩
      · rw [hlistens] at hfalse
        cases hfalse
    · exact ⟨c', List.mem_of_getElem? ((List.getElem?_set_ne (Ne.symm hjk)).trans hj), hown⟩
  · obtain ⟨hsocket, hfalse⟩ := heffect.fresh_place hfresh hm
    refine ⟨huid ▸ hsocket, fun hlistens => ?_⟩
    rw [hfalse] at hlistens
    cases hlistens

/-- A calm step keeps the place usable. -/
theorem step (hs : Usable runtime name s) {label : Label} (hcalm : Calm name s label)
    (h : s.step runtime label = some t) : Usable runtime name t := by
  cases label with
  | act k e => exact hs.act h
  | call name' uid umask =>
    have hplaced := hs.placed.step hcalm.untouched h
    -- A new call is listed behind the others, admitted under the mask it runs with.
    obtain rfl := Option.some.inj h
    refine ⟨hplaced, Roster.forall_mem_append_singleton hs.admitted fun hphase => ?_, hs.lock,
      fun m hm => ?_⟩
    · dsimp only at hphase ⊢
      split_ifs at hphase with hadmits
      · exact ⟨hadmits, hcalm⟩
      · exact absurd rfl hphase
    · obtain ⟨hsocket, hopen⟩ := hs.place m hm
      refine ⟨hsocket, fun hlistens => ?_⟩
      obtain ⟨c, hc, hown⟩ := hopen hlistens
      exact ⟨c, List.mem_append_left _ hc, hown⟩
  | relink entry target =>
    have hplaced := hs.placed.step hcalm.untouched h
    obtain ⟨hentry, htarget⟩ := hcalm
    simp only [System.step] at h
    obtain ⟨hname, rfl⟩ := Machine.refused_eq_some.1 h
    -- Other programs leave the names of lock files alone, and the name of the place by calmness.
    have hlockEntry : lockName name ≠ entry := fun heq => hname (heq ▸ isLockName_lockName name)
    refine ⟨hplaced, hs.admitted, fun l hl => ?_, fun m hm => ?_⟩
    · have hl' : s.disk.entries.lookup (lockName name) = some l := by
        cases target with
        | none => exact (AList.lookup_erase_ne hlockEntry).symm.trans hl
        | some ino => exact (AList.lookup_insert_ne hlockEntry).symm.trans hl
      obtain ⟨hsafe, honly⟩ := hs.lock l hl'
      refine ⟨hsafe, fun other hother => ?_⟩
      by_cases heq : other = entry
      · subst heq
        cases target with
        | none =>
          rw [show AList.lookup other (s.disk.entries.erase other) = none from
            AList.lookup_erase ..]
            at hother
          cases hother
        | some ino =>
          rw [show AList.lookup other (s.disk.entries.insert other ino) = some ino from
            AList.lookup_insert _] at hother
          exact absurd hother (htarget l hl')
      · cases target with
        | none => exact honly other ((AList.lookup_erase_ne heq).symm.trans hother)
        | some ino => exact honly other ((AList.lookup_insert_ne heq).symm.trans hother)
    · have hm' : s.disk.entries.lookup (socketName name) = some m := by
        cases target with
        | none => exact (AList.lookup_erase_ne (Ne.symm hentry)).symm.trans hm
        | some ino => exact (AList.lookup_insert_ne (Ne.symm hentry)).symm.trans hm
      exact hs.place m hm'
  | alter ino node =>
    have hplaced := hs.placed.step hcalm.untouched h
    obtain ⟨hplace, hlock⟩ := hcalm
    obtain ⟨-, rfl⟩ := System.step_alter h
    -- What they change is neither the file in the place nor the lock file.
    have hsame : ∀ {i}, i ≠ ino → (s.disk.modify ino fun _ => node).nodes i = s.disk.nodes i :=
      fun hne => Function.update_of_ne hne ..
    refine ⟨hplaced, hs.admitted, fun l hl => ?_, fun m hm => ?_⟩
    · rw [hsame fun heq => hlock (heq ▸ hl)]
      exact hs.lock l hl
    · have hnode := hsame fun heq : m = ino => hplace (heq ▸ hm)
      obtain ⟨hsocket, hopen⟩ := hs.place m hm
      unfold Disk.IsSocket
      dsimp only
      rw [hnode]
      exact ⟨hsocket, hopen⟩

end Usable

/-! ## A new call -/

/-- The kernel can always hand out an inode. -/
theorem exists_fresh (s : System) : ∃ ino, s.Fresh ino := by
  obtain ⟨ino, hino⟩ := Infinite.exists_notMem_finset
    ((s.disk.entries.entries.map fun entry => entry.2) ++
      s.calls.flatMap fun c => c.phase.lock.toList ++ c.phase.own.toList).toFinset
  simp only [List.mem_toFinset, List.mem_append, List.mem_map, List.mem_flatMap,
    Option.mem_toList, not_or, not_exists, not_and] at hino
  obtain ⟨hentries, hcalls⟩ := hino
  refine ⟨ino, fun entry hentry heq => hentries entry hentry heq, ?_⟩
  rintro ⟨c, hc, hlock | hown⟩
  · exact (hcalls c hc).1 hlock
  · exact (hcalls c hc).2 hown

section NewCall

variable {runtime : Runtime} {entries : AList fun _ : String => ℕ} {nodes : ℕ → Node}
  {calls : List Call} {c : Call} {d d' : Disk} {phase : Phase}

/-- The youngest call does something, and the run goes on. -/
theorem run_act_cons {e : Event} {labels : List Label} {t : System}
    (h : System.act ⟨d, calls ++ [c]⟩ calls.length c e = some (phase, d'))
    (hrest : (binders runtime entries nodes).run ⟨d', calls ++ [{ c with phase := phase }]⟩ labels =
      some t) :
    (binders runtime entries nodes).run ⟨d, calls ++ [c]⟩ (.act calls.length e :: labels) =
      some t := by
  refine (Machine.run_cons_eq_some _).2 ⟨_, ?_, hrest⟩
  simp [binders, System.step, h]

/-- The youngest call can go on until it serves. -/
def Serves (runtime : Runtime) (entries : AList fun _ : String => ℕ) (nodes : ℕ → Node)
    (calls : List Call) (c : Call) (d : Disk) : Prop :=
  ∃ (events : List Event) (t : System) (c' : Call) (l i : ℕ),
    (binders runtime entries nodes).run ⟨d, calls ++ [c]⟩
      (events.map (Label.act calls.length)) = some t ∧
    t.calls[calls.length]? = some c' ∧ c'.name = c.name ∧ c'.phase = .serving l i i

/-- One event of the youngest call on its way. -/
theorem Serves.of_act (e : Event) (phase : Phase) (d' : Disk)
    (h : System.act ⟨d, calls ++ [c]⟩ calls.length c e = some (phase, d'))
    (hrest : Serves runtime entries nodes calls { c with phase := phase } d') :
    Serves runtime entries nodes calls c d := by
  obtain ⟨events, t, c', l, i, hrun, hcall, hname, hserving⟩ := hrest
  exact ⟨e :: events, t, c', l, i, run_act_cons h hrun, hcall, hname, hserving⟩

/-- With its own socket in its place a call goes on to serve. -/
theorem serves_of_listening {l i : ℕ} (hphase : c.phase = .listening l i)
    (hplace : d.entries.lookup (socketName c.name) = some i) :
    Serves runtime entries nodes calls c d := by
  refine Serves.of_act .identify (.identified l i i) d
    (by simp [System.act, hphase, System.place, hplace]) ?_
  refine Serves.of_act .permit (.serving l i i)
    (d.modify i fun node => { node with mode := 0o700 })
    (by simp [System.act, System.place, hplace]) ?_
  exact ⟨[], _, { c with phase := .serving l i i }, l, i, rfl, by simp, rfl, rfl⟩

/-- With nothing in its place a call goes on to serve. -/
theorem serves_of_vacant {l : ℕ} (hphase : c.phase = .vacant l)
    (hplace : d.entries.lookup (socketName c.name) = none) :
    Serves runtime entries nodes calls c d := by
  obtain ⟨i, hfresh⟩ := exists_fresh ⟨d, calls ++ [c]⟩
  refine Serves.of_act (.bind i) (.bound l i)
    (d.create (socketName c.name) i ⟨.socket, c.uid, 0o777 &&& ~~~c.umask, 1, false⟩)
    (by simp [System.act, hphase, System.place, hplace, hfresh]) ?_
  exact Serves.of_act .listen _ _ rfl (serves_of_listening rfl (AList.lookup_insert _))

/-- With a socket of the user in its place on which nobody listens a call goes on to serve. -/
theorem serves_of_locked {l : ℕ} (hphase : c.phase = .locked l)
    (hplace : ∀ m, d.entries.lookup (socketName c.name) = some m →
      d.IsSocket m c.uid ∧ (d.nodes m).listening = false) :
    Serves runtime entries nodes calls c d := by
  cases hfound : d.entries.lookup (socketName c.name) with
  | none =>
    refine Serves.of_act .inspect (.vacant l) d
      (by simp [System.act, hphase, System.place, hfound]) ?_
    exact serves_of_vacant rfl hfound
  | some m =>
    obtain ⟨⟨hkind, huid⟩, hfalse⟩ := hplace m hfound
    refine Serves.of_act .inspect (.inspected l m) d
      (by simp [System.act, hphase, System.place, hfound, hkind, huid]) ?_
    refine Serves.of_act .connect (.refused l m) d
      (by simp [System.act, System.place, hfound, hfalse]) ?_
    refine Serves.of_act .confirm (.confirmed l m) d
      (by simp [System.act, System.place, hfound]) ?_
    refine Serves.of_act .remove (.vacant l) (d.unlink (socketName c.name))
      (by simp [System.act, System.place, hfound, hkind]) ?_
    refine serves_of_vacant rfl ?_
    unfold Disk.unlink
    rw [if_neg (by simp [hfound, hkind])]
    exact AList.lookup_erase ..

/-- With a safe lock file that no call has locked a call goes on to serve. -/
theorem serves_of_opened {l : ℕ} (hphase : c.phase = .opened l)
    (hsafe : System.safeLock (d.nodes l) c.uid = true) (hfree : d.locks l = none)
    (hplace : ∀ m, d.entries.lookup (socketName c.name) = some m →
      d.IsSocket m c.uid ∧ (d.nodes m).listening = false) :
    Serves runtime entries nodes calls c d := by
  refine Serves.of_act .checkLock (.checked l) d
    (by simp [System.act, hphase, hsafe]) ?_
  refine Serves.of_act .flock (.locked l) (d.acquire l calls.length)
    (by simp [System.act, hfree]) ?_
  exact serves_of_locked rfl hplace

end NewCall

section Runs

variable {runtime : Runtime} {entries : AList fun _ : String => ℕ} {nodes : ℕ → Node}

/-- The place is usable after every calm run. -/
theorem usable_of_run {name : String} {labels : List Label} {s : System}
    (hlock : SafeLock name runtime.uid (binders runtime entries nodes).init.disk)
    (hplace : OwnPlace name runtime.uid (binders runtime entries nodes).init)
    (hcalm : (binders runtime entries nodes).StepsMeet (Calm name)
      (binders runtime entries nodes).init labels)
    (hrun : (binders runtime entries nodes).run (binders runtime entries nodes).init labels =
      some s) :
    Usable runtime name s := by
  refine Machine.invariant_of_stepsMeet (fun _ _ _ hs hC hstep => hs.step hC hstep) ?_ hcalm hrun
  have hstart : (binders runtime entries nodes).StepsMeet (Untouched name)
      (binders runtime entries nodes).init [] := trivial
  refine ⟨placed_of_run hstart rfl, ?_, hlock, hplace⟩
  simp [binders]

/-- Calls of a name have run under masks that leave the permissions of the lock file, from a lock
file and a place that were in order, otherwise in any way, with any failures and crashes, and have
closed their files. If other programs have left the place and the lock file alone, the next call of
the name that is admitted, under such a mask, can go on to serve. -/
theorem bind_recovers (name : String) (labels : List Label) (s : System)
    (hlock : SafeLock name runtime.uid (binders runtime entries nodes).init.disk)
    (hplace : OwnPlace name runtime.uid (binders runtime entries nodes).init)
    (hcalm : (binders runtime entries nodes).StepsMeet (Calm name)
      (binders runtime entries nodes).init labels)
    (hrun : (binders runtime entries nodes).run (binders runtime entries nodes).init labels =
      some s)
    (hclosed : ∀ c ∈ s.calls, c.name = name → c.phase.lock = none ∧ c.phase.own = none)
    (uid : ℕ) (umask : UInt32) (hadmits : runtime.admits name uid)
    (humask : 0o600 &&& ~~~umask = (0o600 : UInt32)) :
    ∃ (events : List Event) (t : System) (c : Call) (l i : ℕ),
      (binders runtime entries nodes).run s
        (.call name uid umask :: events.map (Label.act s.calls.length)) = some t ∧
      t.calls[s.calls.length]? = some c ∧ c.name = name ∧ c.phase = .serving l i i := by
  have hs := usable_of_run hlock hplace hcalm hrun
  have huid := Runtime.uid_eq hadmits
  -- Nobody listens in the place: a call that does would have its socket open.
  have hfree : ∀ m, s.disk.entries.lookup (socketName name) = some m →
      s.disk.IsSocket m uid ∧ (s.disk.nodes m).listening = false := by
    intro m hm
    obtain ⟨hsocket, hopen⟩ := hs.place m hm
    refine ⟨huid ▸ hsocket, Bool.eq_false_iff.2 fun hlistens => ?_⟩
    obtain ⟨c, hc, hown⟩ := hopen hlistens
    by_cases hname : c.name = name
    · rw [(hclosed c hc hname).2] at hown
      cases hown
    · exact hs.placed.foreign c hc hname m hown hm
  -- Nobody holds the lock: a call that does would have the lock file open.
  have hunlocked : ∀ l, s.disk.entries.lookup (lockName name) = some l →
      s.disk.locks l = none := by
    intro l hl
    cases hheld : s.disk.locks l with
    | none => rfl
    | some k =>
      obtain ⟨c, hk, hopen⟩ := hs.placed.locking.holder l k hheld
      have hentry := (hs.placed.locking.locked k c hk l hopen).1
      have hname := lockName_injective ((hs.lock l hl).2 _ hentry)
      rw [(hclosed c (List.mem_of_getElem? hk) hname).1] at hopen
      cases hopen
  have hcall : (binders runtime entries nodes).step s (.call name uid umask) =
      some ⟨s.disk, s.calls ++ [⟨name, uid, umask, .opening⟩]⟩ := by
    simp [binders, System.step, hadmits]
  suffices hserves : Serves runtime entries nodes s.calls ⟨name, uid, umask, .opening⟩ s.disk by
    obtain ⟨events, t, c, l, i, hrun', hc, hname, hserving⟩ := hserves
    exact ⟨events, t, c, l, i, (Machine.run_cons_eq_some _).2 ⟨_, hcall, hrun'⟩, hc, hname,
      hserving⟩
  cases hentry : s.disk.entries.lookup (lockName name) with
  | some l =>
    obtain ⟨hsafe, -⟩ := hs.lock l hentry
    have hkind : (s.disk.nodes l).kind = .regular := by
      simp only [System.safeLock, Bool.and_eq_true, decide_eq_true_eq] at hsafe
      exact hsafe.1.1.1
    refine Serves.of_act (.openLock 0) (.opened l) s.disk
      (by simp [System.act, hentry, hkind]) ?_
    exact serves_of_opened rfl (huid ▸ hsafe) (hunlocked l hentry) hfree
  | none =>
    obtain ⟨l, hfresh⟩ := exists_fresh ⟨s.disk, s.calls ++ [⟨name, uid, umask, .opening⟩]⟩
    refine Serves.of_act (.openLock l) (.opened l)
      (s.disk.create (lockName name) l ⟨.regular, uid, 0o600 &&& ~~~umask, 1, false⟩)
      (by simp [System.act, hentry, hfresh]) ?_
    refine serves_of_opened rfl (by simp [System.safeLock, Disk.create, humask]) ?_ fun m hm => ?_
    -- A lock on an inode that nobody has open is held by no call.
    · cases hheld : s.disk.locks l with
      | none => exact hheld
      | some k =>
        obtain ⟨c, hk, hopen⟩ := hs.placed.locking.holder l k hheld
        exact absurd ⟨c, List.mem_append_left _ (List.mem_of_getElem? hk), .inl hopen⟩ hfresh.2
    · have hm' : s.disk.entries.lookup (socketName name) = some m :=
        (Disk.lookup_create (lockName_ne_socketName _ _).symm ..).symm.trans hm
      have hne : m ≠ l := fun heq => hfresh.1 ⟨_, m⟩ (AList.mem_lookup_iff.1 hm') heq
      have hnode : (s.disk.create (lockName name) l
          ⟨.regular, uid, 0o600 &&& ~~~umask, 1, false⟩).nodes m = s.disk.nodes m :=
        Function.update_of_ne hne ..
      unfold Disk.IsSocket
      rw [hnode]
      exact hfree m hm'

/-- After the first call has died with its process, the next one serves. -/
theorem bind_recovers_died : ∃ s,
    emptyRuntime.run emptyRuntime.init
      (firstBind ++ [.act 0 .die, .act 0 .dieLock, .act 0 .dieSocket]) = some s ∧
    ∃ (events : List Event) (t : System) (c : Call) (l i : ℕ),
      emptyRuntime.run s
        (.call "bar" 1000 0o077 :: events.map (Label.act s.calls.length)) = some t ∧
      t.calls[s.calls.length]? = some c ∧ c.name = "bar" ∧ c.phase = .serving l i i := by
  obtain ⟨s, hrun⟩ : ∃ s, emptyRuntime.run emptyRuntime.init
      (firstBind ++ [.act 0 .die, .act 0 .dieLock, .act 0 .dieSocket]) = some s := ⟨_, rfl⟩
  have hclosed : ∀ c ∈ s.calls, c.name = "bar" → c.phase.lock = none ∧ c.phase.own = none := by
    obtain rfl := Option.some.inj hrun
    intro c hc _
    obtain rfl := List.mem_singleton.1 hc
    exact ⟨rfl, rfl⟩
  have hC : ∀ label ∈ firstBind ++ [.act 0 .die, .act 0 .dieLock, .act 0 .dieSocket],
      ∀ s, Calm "bar" s label := by
    intro label hlabel s
    obtain rfl | hlabel := List.mem_cons.1 hlabel
    · exact fun _ => by decide
    · obtain hlabel | hlabel := List.mem_append.1 hlabel
      · obtain ⟨e, -, rfl⟩ := List.mem_map.1 hlabel
        trivial
      · simp only [List.mem_cons, List.not_mem_nil, or_false] at hlabel
        obtain rfl | rfl | rfl := hlabel <;> trivial
  have hempty : ∀ entry, emptyRuntime.init.disk.entries.lookup entry = none := fun _ => rfl
  have hlock : SafeLock "bar" privateRuntime.uid emptyRuntime.init.disk := fun l hl => by
    rw [hempty] at hl
    cases hl
  have hplace : OwnPlace "bar" privateRuntime.uid emptyRuntime.init := fun m hm => by
    rw [hempty] at hm
    cases hm
  exact ⟨s, hrun, bind_recovers "bar" _ s hlock hplace (Machine.stepsMeet_of_forall hC _) hrun
    hclosed 1000 0o077 (by decide) (by decide)⟩

end Runs

end DaemonFramework.Socket.Listener
