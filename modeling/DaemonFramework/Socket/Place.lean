import DaemonFramework.Socket.Exclusion

/-!
# The place of a socket

What is in the place of a socket that other programs leave alone (`Untouched`). The call that holds
the lock knows what is there (`Knows`), since the steps that change the place, or make a socket
listen that is in it, are steps of calls that hold the lock. So a socket on which a process listens
is unlinked by the drop of its own listener and by nothing else (`live_listener_kept`).

What a crash leaves is not in the way of a later call, where the masks of the calls leave the lock
file its permissions: the lock is gone with the process that held it, and a socket that is still in
the place refuses connections (`bind_recovers`).
-/

namespace DaemonFramework.Socket.Listener

/-- The inode is a socket of the user. -/
def Disk.IsSocket (d : Disk) (ino uid : ℕ) : Prop :=
  (d.nodes ino).kind = .socket ∧ (d.nodes ino).uid = uid

/-- What a call knows of its place. -/
def Knows (d : Disk) (c : Call) : Prop :=
  match c.phase with
  | .inspected _ m => d.entries.lookup (socketName c.name) = some m ∧ d.IsSocket m c.uid
  | .refused _ m | .confirmed _ m =>
    d.entries.lookup (socketName c.name) = some m ∧ d.IsSocket m c.uid ∧
      (d.nodes m).listening = false
  | .vacant _ => d.entries.lookup (socketName c.name) = none
  | .bound _ i => d.entries.lookup (socketName c.name) = some i ∧ d.IsSocket i c.uid
  | .listening _ i =>
    d.entries.lookup (socketName c.name) = some i ∧ d.IsSocket i c.uid ∧ (d.nodes i).listening = true
  | .identified _ i identity | .serving _ i identity | .dropping _ i identity
  | .matched _ i identity =>
    (d.entries.lookup (socketName c.name) = some i ∧ d.IsSocket i c.uid ∧
      (d.nodes i).listening = true) ∧ identity = i
  | _ => True

/-- A call that does not hold its lock knows nothing. -/
theorem knows_of_not_critical {d : Disk} {c : Call} (h : c.phase.critical = false) : Knows d c := by
  unfold Knows
  cases hphase : c.phase <;> first | trivial | simp [hphase, Phase.critical] at h

/-- What a call knows survives its failures. -/
theorem knows_failure {d : Disk} {c : Call} {phase : Phase} (h : c.phase.onFailure = some phase)
    (hs : Knows d c) : Knows d { c with phase := phase } := by
  unfold Knows at hs
  cases hphase : c.phase <;>
    simp only [hphase, Phase.onFailure, Option.some.injEq, reduceCtorEq] at h hs <;> subst h <;>
    trivial

/-- What a step of the call itself tells it. -/
theorem knows_act {s : System} {k : ℕ} {c : Call} {e : Event} {phase : Phase} {disk : Disk}
    (h : s.act k c e = some (phase, disk)) (hs : Knows s.disk c) :
    Knows disk { c with phase := phase } := by
  -- Outside the critical section a call knows nothing.
  have hnothing : phase.critical = false → Knows disk { c with phase := phase } :=
    fun hcritical => knows_of_not_critical hcritical
  revert h hnothing
  fun_cases System.act s k c e
  all_goals intro h hnothing
  all_goals simp only [Option.some.injEq, Prod.mk.injEq, reduceCtorEq, Option.map_eq_some_iff] at h
  case case33 =>
    obtain ⟨phase', hfailure, rfl, rfl⟩ := h
    exact knows_failure hfailure hs
  all_goals obtain ⟨rfl, rfl⟩ := h
  case case7 => trivial
  -- Inside it, what it has looked up under the lock it may rely on in the next step.
  case case9 l hphase m hplace hsocket => exact ⟨hplace, hsocket⟩
  case case11 l hphase hplace => exact hplace
  case case13 l m hphase i hplace hrefuses =>
    obtain ⟨hm, hsocket⟩ : s.disk.entries.lookup (socketName c.name) = some m ∧
        s.disk.IsSocket m c.uid := by
      simpa only [Knows, hphase] using hs
    obtain rfl := Option.some.inj (hplace.symm.trans hm)
    exact ⟨hm, hsocket, Bool.eq_false_iff.2 fun hlistens => hrefuses ⟨hsocket.1, hlistens⟩⟩
  case case15 l m hphase hplace => simpa only [Knows, hphase] using hs
  case case18 l m hphase i hplace hkind =>
    have hlookup : s.disk.entries.lookup (socketName c.name) = some i := hplace
    have hremoved : ((s.disk.unlink (socketName c.name)).entries).lookup (socketName c.name) =
      none := by
      unfold Disk.unlink
      rw [if_neg (by simpa [hlookup] using hkind)]
      exact AList.lookup_erase ..
    exact hremoved
  -- From here on the place is its own: it binds, listens, and compares what it finds there.
  case case20 l ino hphase hguard =>
    exact ⟨AList.lookup_insert _, by simp [Disk.IsSocket, Disk.create]⟩
  case case22 l i hphase =>
    obtain ⟨hplace, hkind, huid⟩ : s.disk.entries.lookup (socketName c.name) = some i ∧
        s.disk.IsSocket i c.uid := by
      simpa only [Knows, hphase] using hs
    exact ⟨hplace, by simp [Disk.IsSocket, Disk.modify, hkind, huid], by simp [Disk.modify]⟩
  case case23 l i hphase d hplace =>
    obtain ⟨hi, hsocket⟩ : s.disk.entries.lookup (socketName c.name) = some i ∧
        s.disk.IsSocket i c.uid ∧ (s.disk.nodes i).listening = true := by
      simpa only [Knows, hphase] using hs
    exact ⟨⟨hi, hsocket⟩, Option.some.inj (hplace.symm.trans hi)⟩
  case case25 l i d hphase m hplace =>
    obtain ⟨⟨hi, ⟨hkind, huid⟩, hlistening⟩, rfl⟩ :
        (s.disk.entries.lookup (socketName c.name) = some i ∧ s.disk.IsSocket i c.uid ∧
          (s.disk.nodes i).listening = true) ∧ d = i := by
      simpa only [Knows, hphase] using hs
    obtain rfl := Option.some.inj (hplace.symm.trans hi)
    exact ⟨⟨hi, by simp [Disk.IsSocket, Disk.modify, hkind, huid],
      by simp [Disk.modify, hlistening]⟩,
      rfl⟩
  case case27 l i d hphase => simpa only [Knows, hphase] using hs
  case case28 l i d hphase hsame => simpa only [Knows, hphase] using hs
  case case29 => trivial
  case case30 => trivial
  all_goals exact hnothing rfl

/-! ## Other calls and other programs -/

/-- An entry has an inode that the kernel cannot hand out. -/
theorem not_fresh_of_lookup {s : System} {entry : String} {ino : ℕ}
    (h : s.disk.entries.lookup entry = some ino) : ¬ s.Fresh ino := fun hfresh =>
  hfresh.1 ⟨entry, ino⟩ (AList.mem_lookup_iff.1 h) rfl

/-- An open file has an inode that the kernel cannot hand out. -/
theorem not_fresh_of_own {s : System} {c : Call} {ino : ℕ} (hc : c ∈ s.calls)
    (h : c.phase.own = some ino) : ¬ s.Fresh ino := fun hfresh => hfresh.2 ⟨c, hc, .inr h⟩

namespace Effect

variable {s : System} {k : ℕ} {c : Call} {phase : Phase} {disk : Disk}

/-- An entry leads where it led, or to a fresh inode. -/
theorem lookup_old_or_fresh (h : Effect s k c phase disk) {entry : String} {ino : ℕ}
    (hentry : disk.entries.lookup entry = some ino) :
    s.disk.entries.lookup entry = some ino ∨ s.Fresh ino := by
  have hcreate : ∀ {entry' : String} {new : ℕ} {node : Node},
      (s.disk.create entry' new node).entries.lookup entry = some ino → s.Fresh new →
      s.disk.entries.lookup entry = some ino ∨ s.Fresh ino := by
    intro entry' new node hnew hfresh
    by_cases heq : entry = entry'
    · subst heq
      rw [show (s.disk.create entry new node).entries.lookup entry = some new from
        AList.lookup_insert _] at hnew
      exact .inr (Option.some.inj hnew ▸ hfresh)
    · exact .inl ((Disk.lookup_create heq ..).symm.trans hnew)
  cases h with
  | createLock hphase hnone hfresh => exact hcreate hentry hfresh
  | bind hphase hfresh => exact hcreate hentry hfresh
  | unlink =>
    by_cases heq : entry = socketName c.name
    · unfold Disk.unlink at hentry
      split_ifs at hentry with hkind
      · exact .inl hentry
      · rw [heq, AList.lookup_erase] at hentry
        cases hentry
    · exact .inl ((Disk.lookup_unlink heq).symm.trans hentry)
  | release =>
    rw [Disk.release_entries] at hentry
    exact .inl hentry
  | _ => exact .inl hentry

/-- Only a call of its name that holds the lock changes a place. -/
theorem lookup_place (h : Effect s k c phase disk) {name : String}
    (hother : c.name ≠ name ∨ c.phase.critical = false) :
    disk.entries.lookup (socketName name) = s.disk.entries.lookup (socketName name) := by
  have hname : c.phase.critical = true → socketName name ≠ socketName c.name := by
    rintro hcritical heq
    obtain hne | hfalse := hother
    · exact hne (socketName_injective heq).symm
    · rw [hcritical] at hfalse
      cases hfalse
  cases h with
  | createLock => exact Disk.lookup_create (lockName_ne_socketName _ _).symm ..
  | unlink _ _ hcritical => exact Disk.lookup_unlink (hname hcritical)
  | bind hphase => exact Disk.lookup_create (hname (hphase ▸ rfl)) ..
  | release => rw [Disk.release_entries]
  | _ => rfl

/-- The socket of a call is the one that it had, or a fresh inode. -/
theorem own_old_or_fresh (h : Effect s k c phase disk) {i : ℕ} (hi : phase.own = some i) :
    c.phase.own = some i ∨ s.Fresh i := by
  cases h with
  | keep _ hown => exact .inl (hown ▸ hi)
  | unlink _ hown => exact .inl (hown ▸ hi)
  | release _ _ hown => exact .inl (hown ▸ hi)
  | hangUp _ _ hnone =>
    rw [hnone] at hi
    cases hi
  | bind _ hfresh =>
    obtain rfl := Option.some.inj hi
    exact .inr hfresh
  | listen hphase => exact .inl (hphase ▸ hi)
  | permit hphase => exact .inl (hphase ▸ hi)
  | _ => cases hi

/-- An inode in use stays what it is. Whether it is listened on is changed by its own call, and a
call that does not hold the lock only ends it. -/
theorem node (h : Effect s k c phase disk) {ino : ℕ} (hused : ¬ s.Fresh ino) :
    (disk.nodes ino).kind = (s.disk.nodes ino).kind ∧
      (disk.nodes ino).uid = (s.disk.nodes ino).uid ∧
      ((disk.nodes ino).listening = (s.disk.nodes ino).listening ∨
        c.phase.own = some ino ∧
          (c.phase.critical = false → (disk.nodes ino).listening = false)) := by
  have hcreate : ∀ {entry : String} {new : ℕ} {node : Node}, s.Fresh new →
      (s.disk.create entry new node).nodes ino = s.disk.nodes ino := fun {_ new _} hfresh =>
    Function.update_of_ne (fun heq : ino = new => hused (heq ▸ hfresh)) ..
  cases h with
  | createLock _ _ hfresh =>
    rw [hcreate hfresh]
    exact ⟨rfl, rfl, .inl rfl⟩
  | bind _ hfresh =>
    rw [hcreate hfresh]
    exact ⟨rfl, rfl, .inl rfl⟩
  | unlink =>
    rw [Disk.unlink_nodes]
    exact ⟨rfl, rfl, .inl rfl⟩
  | release =>
    rw [Disk.release_nodes]
    exact ⟨rfl, rfl, .inl rfl⟩
  | @listen l i hphase =>
    by_cases heq : ino = i
    · subst heq
      simp [Disk.modify, hphase, Phase.own, Phase.critical]
    · simp [Disk.modify, Function.update_of_ne heq]
  | @permit l i d m hphase =>
    by_cases heq : ino = m
    · subst heq
      simp [Disk.modify]
    · simp [Disk.modify, Function.update_of_ne heq]
  | @hangUp phase i _ hown =>
    by_cases heq : ino = i
    · subst heq
      simp [Disk.hangUp, Disk.modify, hown]
    · simp [Disk.hangUp, Disk.modify, Function.update_of_ne heq]
  | _ => exact ⟨rfl, rfl, .inl rfl⟩

end Effect

/-- What a call knows stays true where its place stays as it is. What it has bound itself is not
closed by another call. -/
theorem Knows.frame {d d' : Disk} {c : Call} (h : Knows d c)
    (hplace : d'.entries.lookup (socketName c.name) = d.entries.lookup (socketName c.name))
    (hnode : ∀ i, d.entries.lookup (socketName c.name) = some i →
      (d'.nodes i).kind = (d.nodes i).kind ∧ (d'.nodes i).uid = (d.nodes i).uid ∧
        ((d'.nodes i).listening = (d.nodes i).listening ∨
          (d'.nodes i).listening = false ∧ c.phase.own ≠ some i)) : Knows d' c := by
  have hsocket : ∀ {i}, d.entries.lookup (socketName c.name) = some i → d.IsSocket i c.uid →
      d'.IsSocket i c.uid := by
    rintro i hi ⟨hkind, huid⟩
    obtain ⟨hkind', huid', -⟩ := hnode i hi
    exact ⟨hkind'.trans hkind, huid'.trans huid⟩
  have hquiet : ∀ {i}, d.entries.lookup (socketName c.name) = some i →
      (d.nodes i).listening = false → (d'.nodes i).listening = false := by
    intro i hi hfalse
    obtain ⟨-, -, hsame | ⟨hfalse', -⟩⟩ := hnode i hi
    · exact hsame.trans hfalse
    · exact hfalse'
  have hloud : ∀ {i}, d.entries.lookup (socketName c.name) = some i → c.phase.own = some i →
      (d.nodes i).listening = true → (d'.nodes i).listening = true := by
    intro i hi hown htrue
    obtain ⟨-, -, hsame | ⟨-, hne⟩⟩ := hnode i hi
    · exact hsame.trans htrue
    · exact absurd hown hne
  have hown : ∀ {phase : Phase} {i},
      c.phase = phase → phase.own = some i → c.phase.own = some i := by
    rintro _ i rfl hi
    exact hi
  unfold Knows at h ⊢
  rw [hplace]
  cases hphase : c.phase <;> simp only [hphase] at h ⊢
  case inspected => exact ⟨h.1, hsocket h.1 h.2⟩
  case refused => exact ⟨h.1, hsocket h.1 h.2.1, hquiet h.1 h.2.2⟩
  case confirmed => exact ⟨h.1, hsocket h.1 h.2.1, hquiet h.1 h.2.2⟩
  case vacant => exact h
  case bound => exact ⟨h.1, hsocket h.1 h.2⟩
  case listening => exact ⟨h.1, hsocket h.1 h.2.1, hloud h.1 (hown hphase rfl) h.2.2⟩
  all_goals
    obtain ⟨⟨hi, hs, hl⟩, hidentity⟩ := h
    exact ⟨⟨hi, hsocket hi hs, hloud hi (hown hphase rfl) hl⟩, hidentity⟩

/-- A step of a call leaves a socket on which a process listens in the place, unless it is the last
one of the drop of its listener. -/
theorem lookup_act {s : System} {k : ℕ} {c : Call} {e : Event} {phase : Phase} {disk : Disk}
    (h : s.act k c e = some (phase, disk)) (hs : Knows s.disk c) {i : ℕ}
    (hplace : s.disk.entries.lookup (socketName c.name) = some i)
    (hlistens : (s.disk.nodes i).listening = true) :
    disk.entries.lookup (socketName c.name) = some i ∨
      ∃ l, c.phase = .matched l i i ∧ e = .unlink := by
  -- Only a call in its critical section touches the place.
  cases hcritical : c.phase.critical with
  | false =>
    exact .inl (((System.effect_of_act h).lookup_place (.inr hcritical)).trans hplace)
  | true =>
    revert h
    fun_cases System.act s k c e
    all_goals intro h
    all_goals simp only [Option.some.injEq, Prod.mk.injEq, reduceCtorEq,
      Option.map_eq_some_iff] at h
    case case33 =>
      obtain ⟨phase', -, rfl, rfl⟩ := h
      exact .inl hplace
    all_goals obtain ⟨rfl, rfl⟩ := h
    case case3 =>
      exact .inl ((Disk.lookup_create (lockName_ne_socketName _ _).symm ..).trans hplace)
    -- What it removes before it binds is a socket that it has seen refuse.
    case case18 l m hphase _ _ _ =>
      obtain ⟨hm, -, hfalse⟩ : s.disk.entries.lookup (socketName c.name) = some m ∧
          s.disk.IsSocket m c.uid ∧ (s.disk.nodes m).listening = false := by
        simpa only [Knows, hphase] using hs
      obtain rfl := Option.some.inj (hm.symm.trans hplace)
      rw [hlistens] at hfalse
      cases hfalse
    -- It binds only where nothing is in the place.
    case case20 l ino hphase hguard =>
      rw [show s.place c = some i from hplace] at hguard
      cases hguard.1
    -- The drop removes the file if it is that of its own socket.
    case case30 l own identity hphase =>
      obtain ⟨⟨hm, -⟩, rfl⟩ : (s.disk.entries.lookup (socketName c.name) = some own ∧
          s.disk.IsSocket own c.uid ∧ (s.disk.nodes own).listening = true) ∧ identity = own := by
        simpa only [Knows, hphase] using hs
      obtain rfl := Option.some.inj (hm.symm.trans hplace)
      exact .inr ⟨l, hphase, rfl⟩
    all_goals first | exact .inl hplace | (rw [Disk.release_entries]; exact .inl hplace)

/-! ## The place over a run -/

/-- Other programs leave the place of a socket alone. -/
def Untouched (name : String) (s : System) : Label → Prop
  | .relink entry _ => entry ≠ socketName name
  | .alter ino _ => s.disk.entries.lookup (socketName name) ≠ some ino
  | _ => True

/-- What holds of a place that other programs leave alone. -/
structure Placed (name : String) (s : System) : Prop where
  /-- The locks are in order. -/
  locking : Locking s
  /-- Two calls have bound different sockets. -/
  own : ∀ (j k : ℕ) (c c' : Call) (i : ℕ), s.calls[j]? = some c → s.calls[k]? = some c' →
    c.phase.own = some i → c'.phase.own = some i → j = k
  /-- What a call of another name has bound is not in the place. -/
  foreign : ∀ c ∈ s.calls, c.name ≠ name → ∀ i, c.phase.own = some i →
    s.disk.entries.lookup (socketName name) ≠ some i
  /-- What the calls of the name know is true. -/
  knows : ∀ c ∈ s.calls, c.name = name → Knows s.disk c

namespace Placed

variable {name : String} {runtime : Runtime} {s t : System}

/-- A step of a call keeps it so. -/
theorem act (hs : Placed name s) {k : ℕ} {e : Event} (h : s.step runtime (.act k e) = some t) :
    Placed name t := by
  have hlocking := hs.locking.step h
  obtain ⟨c, phase, disk, hk, hact, rfl⟩ := System.step_act h
  have heffect := System.effect_of_act hact
  have hmem := List.mem_of_getElem? hk
  refine ⟨hlocking, fun i j a b n hi hj ha hb => ?_, fun a ha hname n hn hplace => ?_,
    fun a ha hname => ?_⟩
  · obtain ⟨rfl, rfl⟩ | ⟨hik, hi'⟩ := getElem?_set_calls hi <;>
      obtain ⟨rfl, rfl⟩ | ⟨hjk, hj'⟩ := getElem?_set_calls hj
    · rfl
    · obtain hold | hfresh := heffect.own_old_or_fresh ha
      · exact absurd (hs.own _ _ _ _ _ hk hj' hold hb) (Ne.symm hjk)
      · exact absurd hfresh (not_fresh_of_own (List.mem_of_getElem? hj') hb)
    · obtain hold | hfresh := heffect.own_old_or_fresh hb
      · exact absurd (hs.own _ _ _ _ _ hi' hk ha hold) hik
      · exact absurd hfresh (not_fresh_of_own (List.mem_of_getElem? hi') ha)
    · exact hs.own _ _ _ _ _ hi' hj' ha hb
  · obtain ⟨j, hj⟩ := List.getElem?_of_mem ha
    obtain ⟨rfl, rfl⟩ | ⟨hjk, hj⟩ := getElem?_set_calls hj
    · rw [heffect.lookup_place (.inl hname)] at hplace
      obtain hold | hfresh := heffect.own_old_or_fresh hn
      · exact hs.foreign c hmem hname n hold hplace
      · exact not_fresh_of_lookup hplace hfresh
    · have ha' := List.mem_of_getElem? hj
      obtain hold | hfresh := heffect.lookup_old_or_fresh hplace
      · exact hs.foreign a ha' hname n hn hold
      · exact not_fresh_of_own ha' hn hfresh
  · obtain ⟨j, hj⟩ := List.getElem?_of_mem ha
    obtain ⟨rfl, rfl⟩ | ⟨hjk, hj⟩ := getElem?_set_calls hj
    · exact knows_act hact (hs.knows c hmem hname)
    · have ha' := List.mem_of_getElem? hj
      cases hcritical : a.phase.critical with
      | false => exact knows_of_not_critical hcritical
      | true =>
        -- The acting call does not hold the lock of this name.
        have hother : c.name ≠ a.name ∨ c.phase.critical = false := by
          by_contra hboth
          obtain ⟨hsame, hc⟩ : c.name = a.name ∧ c.phase.critical = true := by simpa using hboth
          exact hjk (hs.locking.exclusive hk hj hsame hc hcritical).symm
        refine (hs.knows a ha' hname).frame (heffect.lookup_place hother) fun i hi => ?_
        obtain ⟨hkind, huid, hsame | ⟨hown, hquiet⟩⟩ := heffect.node (not_fresh_of_lookup hi)
        · exact ⟨hkind, huid, .inl hsame⟩
        · refine ⟨hkind, huid, .inr ⟨?_, fun hown' => hjk (hs.own _ _ _ _ _ hk hj hown hown').symm⟩⟩
          obtain hne | hfalse := hother
          · exact absurd (hname ▸ hi)
              (hs.foreign c hmem (fun heq => hne (heq.trans hname.symm)) i hown)
          · exact hquiet hfalse

/-- A step that leaves the place alone keeps it so. -/
theorem step (hs : Placed name s) {label : Label} (huntouched : Untouched name s label)
    (h : s.step runtime label = some t) : Placed name t := by
  cases label with
  | act k e => exact hs.act h
  | call name' uid umask =>
    have hlocking := hs.locking.step h
    obtain rfl := Option.some.inj h
    -- A new call has no socket and is not in its critical section.
    have hnew : ∀ {c : Call}, c ∈ s.calls ++ [⟨name', uid, umask,
        if runtime.admits name' uid then .opening else .ended⟩] →
        c ∈ s.calls ∨ (c.phase.own = none ∧ c.phase.critical = false) := by
      intro c hc
      obtain hc | hc := List.mem_append.1 hc
      · exact .inl hc
      · right
        rw [List.mem_singleton.1 hc]
        constructor <;> dsimp only <;> split_ifs <;> rfl
    refine ⟨hlocking, fun i j a b n hi hj ha hb => ?_, fun a ha hname n hn => ?_,
      fun a ha hname => ?_⟩
    · have hold : ∀ {m : ℕ} {c : Call}, (s.calls ++ [⟨name', uid, umask,
          if runtime.admits name' uid then .opening else .ended⟩])[m]? = some c →
          c.phase.own = some n → s.calls[m]? = some c := by
        intro m c hm hc
        obtain hm | rfl := Roster.getElem?_append_singleton_cases hm
        · exact hm
        · dsimp only at hc
          split_ifs at hc <;> cases hc
      exact hs.own i j a b n (hold hi ha) (hold hj hb) ha hb
    · obtain ha | ⟨hnone, -⟩ := hnew ha
      · exact hs.foreign a ha hname n hn
      · rw [hnone] at hn
        cases hn
    · obtain ha | ⟨-, hfalse⟩ := hnew ha
      · exact hs.knows a ha hname
      · exact knows_of_not_critical hfalse
  -- Other programs leave the place and the file in it alone, so what the calls know stays true.
  | relink entry target =>
    have hlocking := hs.locking.step h
    obtain ⟨-, hcalls, hnodes, -, hlookup⟩ := System.step_relink h
    have hplace := hlookup _ (Ne.symm huntouched)
    refine ⟨hlocking, hcalls ▸ hs.own, ?_, ?_⟩
    · rw [hcalls, hplace]
      exact hs.foreign
    · rw [hcalls]
      intro c hc hname
      refine (hs.knows c hc hname).frame (hname ▸ hplace) fun i _ => ?_
      rw [hnodes]
      exact ⟨rfl, rfl, .inl rfl⟩
  | alter ino node =>
    have hlocking := hs.locking.step h
    obtain ⟨-, rfl⟩ := System.step_alter h
    refine ⟨hlocking, hs.own, hs.foreign, fun c hc hname => ?_⟩
    refine (hs.knows c hc hname).frame rfl fun i hi => ?_
    have hne : i ≠ ino := fun heq => huntouched (by rw [← heq, ← hname]; exact hi)
    have hsame : (s.disk.modify ino fun _ => node).nodes i = s.disk.nodes i :=
      Function.update_of_ne hne ..
    rw [hsame]
    exact ⟨rfl, rfl, .inl rfl⟩

end Placed

section Runs

variable {runtime : Runtime} {entries : AList fun _ : String => ℕ} {nodes : ℕ → Node}

/-- The facts hold after every run that leaves the place alone. -/
theorem placed_of_run {name : String} {labels : List Label} {s : System}
    (huntouched : (binders runtime entries nodes).StepsMeet (Untouched name)
      (binders runtime entries nodes).init labels)
    (hrun : (binders runtime entries nodes).run (binders runtime entries nodes).init labels =
      some s) :
    Placed name s := by
  refine Machine.invariant_of_stepsMeet (fun _ _ _ hs hC hstep =>
    hs.step hC hstep) ?_ huntouched hrun
  have hnone : (binders runtime entries nodes).init.calls = [] := rfl
  refine ⟨locking_of_reachable (binders runtime entries nodes).reachable_init, ?_, ?_, ?_⟩ <;>
    simp [hnone]

/-- Where other programs leave the place of a socket alone: a listener that is serving is the one in
the place, and listens; a socket in the place on which a process listens stays there in every step
but the last one of the drop of its own listener; and what a call unlinks before it binds is a
socket of its user on which no process listens. -/
theorem live_listener_kept (name : String) (labels : List Label) (s : System)
    (huntouched : (binders runtime entries nodes).StepsMeet (Untouched name)
      (binders runtime entries nodes).init labels)
    (hrun : (binders runtime entries nodes).run (binders runtime entries nodes).init labels =
      some s) :
    (∀ c ∈ s.calls, c.name = name → ∀ l i identity, c.phase = .serving l i identity →
      identity = i ∧ s.disk.entries.lookup (socketName name) = some i ∧
        (s.disk.nodes i).listening = true) ∧
    (∀ label t i, Untouched name s label → s.step runtime label = some t →
      s.disk.entries.lookup (socketName name) = some i → (s.disk.nodes i).listening = true →
      t.disk.entries.lookup (socketName name) = some i ∨
        ∃ k c l, label = .act k .unlink ∧ s.calls[k]? = some c ∧ c.name = name ∧
          c.phase = .matched l i i) ∧
    (∀ k c t, s.calls[k]? = some c → c.name = name → s.step runtime (.act k .remove) = some t →
      ∃ i, s.disk.entries.lookup (socketName name) = some i ∧ s.disk.IsSocket i c.uid ∧
        (s.disk.nodes i).listening = false) := by
  have hs := placed_of_run huntouched hrun
  refine ⟨fun c hc hname l i identity hphase => ?_, fun label t i hC hstep hplace hlistens => ?_,
    fun k c t hk hname hstep => ?_⟩
  · have hknows := hs.knows c hc hname
    simp only [Knows, hphase] at hknows
    exact ⟨hknows.2, hname ▸ hknows.1.1, hknows.1.2.2⟩
  -- Calls begin without a change, and other programs leave the place alone.
  · cases label with
    | call name' uid umask =>
      obtain rfl := Option.some.inj hstep
      exact .inl hplace
    | relink entry target =>
      obtain ⟨-, -, -, -, hlookup⟩ := System.step_relink hstep
      exact .inl ((hlookup _ (Ne.symm hC)).trans hplace)
    | alter ino node =>
      obtain ⟨-, rfl⟩ := System.step_alter hstep
      exact .inl hplace
    | act k e =>
      obtain ⟨c, phase, disk, hk, hact, rfl⟩ := System.step_act hstep
      -- A call of this name keeps the socket by what it knows, and one of another name has another
      -- place.
      by_cases hname : c.name = name
      · have hknows := hs.knows c (List.mem_of_getElem? hk) hname
        obtain hsame | ⟨l, hphase, rfl⟩ := lookup_act hact hknows (hname ▸ hplace) hlistens
        · exact .inl (hname ▸ hsame)
        · exact .inr ⟨k, c, l, rfl, hk, hname, hphase⟩
      · exact .inl (((System.effect_of_act hact).lookup_place (.inl hname)).trans hplace)
  · obtain ⟨c', phase, disk, hk', hact, rfl⟩ := System.step_act hstep
    obtain rfl := Option.some.inj (hk.symm.trans hk')
    have hknows := hs.knows c (List.mem_of_getElem? hk) hname
    obtain ⟨l, m, hphase⟩ : ∃ l m, c.phase = .confirmed l m := by
      unfold System.act at hact
      split at hact <;> simp_all
    simp only [Knows, hphase] at hknows
    exact ⟨m, hname ▸ hknows.1, hknows.2⟩

/-- The socket of the first call is kept. -/
theorem live_listener_kept_first : ∃ s,
    emptyRuntime.run emptyRuntime.init firstBind = some s ∧
    ∀ label t, Untouched "bar" s label → s.step privateRuntime label = some t →
      t.disk.entries.lookup "bar.sock" = some 2 ∨
        ∃ k c l, label = .act k .unlink ∧ s.calls[k]? = some c ∧ c.name = "bar" ∧
          c.phase = .matched l 2 2 := by
  obtain ⟨s, hrun⟩ : ∃ s, emptyRuntime.run emptyRuntime.init firstBind = some s := ⟨_, rfl⟩
  obtain ⟨hplace, hlistens⟩ : s.disk.entries.lookup "bar.sock" = some 2 ∧
      (s.disk.nodes 2).listening = true := by
    obtain rfl := Option.some.inj hrun
    exact ⟨rfl, rfl⟩
  have hC : ∀ label ∈ firstBind, ∀ s, Untouched "bar" s label := by
    intro label hlabel s
    obtain rfl | hlabel := List.mem_cons.1 hlabel
    · trivial
    · obtain ⟨e, -, rfl⟩ := List.mem_map.1 hlabel
      trivial
  exact ⟨s, hrun, fun label t huntouched hstep =>
    (live_listener_kept "bar" firstBind s (Machine.stepsMeet_of_forall hC _) hrun).2.1 label t 2
      huntouched hstep hplace hlistens⟩

end Runs

end DaemonFramework.Socket.Listener
