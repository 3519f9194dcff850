import DaemonFramework.Socket.Server

/-!
# The owners of a socket server

Each connection of `shelllist-daemon-tokio/src/socket.rs` is an owner of its own, and the service
keys what it registers by owners. `Minted` says that the owners of the tasks are names of values
that the counter of the process has had, each value once. So what a call of `disconnected` removes
for one connection is never another's.
-/

namespace DaemonFramework.Socket.Server

variable {ε : Type*} {uid : UInt32} {config : JsonlSocketConfig} {first : UInt64} {s t : Server}

/-- The owners are names of different values of the counter. -/
structure Minted (first : UInt64) (s : Server) : Prop where
  /-- The counter. -/
  value : s.nextOwner = first + UInt64.ofNat s.minted
  /-- An owner is the name of a value that the counter has had. -/
  named : ∀ c ∈ s.clients, ∀ owner, c.stage.owner = some owner →
    ∃ bytes : List UInt8, bytes.length = 16 ∧ ∃ k < s.minted,
      owner = ownerName bytes (first + UInt64.ofNat k)
  /-- No two tasks have one owner. -/
  distinct : ∀ (i j : ℕ) (c d : Client) (owner : List Char), s.clients[i]? = some c →
    s.clients[j]? = some d → c.stage.owner = some owner → d.stage.owner = some owner → i = j

namespace Minted

/-- The call of `serve`. -/
theorem init (ε : Type*) : Minted first (machine ε config uid first).init where
  value := by simp [machine]
  named := by simp [machine]
  distinct := by simp [machine]

/-- What mints no owner and gives a task none. -/
theorem congr (h : Minted first s) (hnext : t.nextOwner = s.nextOwner)
    (hminted : t.minted = s.minted)
    (howner : ∀ (i : ℕ) (d : Client) (owner : List Char), t.clients[i]? = some d →
      d.stage.owner = some owner → ∃ c, s.clients[i]? = some c ∧ c.stage.owner = some owner) :
    Minted first t where
  value := by rw [hnext, hminted, h.value]
  named := by
    intro d hd owner hdowner
    obtain ⟨i, hi⟩ := List.mem_iff_getElem?.1 hd
    obtain ⟨c, hc, hcowner⟩ := howner i d owner hi hdowner
    rw [hminted]
    exact h.named c (List.mem_of_getElem? hc) owner hcowner
  distinct := by
    intro i j c d owner hi hj hc hd
    obtain ⟨c', hc', hcowner⟩ := howner i c owner hi hc
    obtain ⟨d', hd', hdowner⟩ := howner j d owner hj hd
    exact h.distinct i j c' d' owner hc' hd' hcowner hdowner

/-- A value of the counter that is passed over. -/
theorem skip (h : Minted first s) :
    Minted first { s with nextOwner := s.nextOwner + 1, minted := s.minted + 1 } where
  value := by
    show s.nextOwner + 1 = first + UInt64.ofNat (s.minted + 1)
    rw [h.value, UInt64.ofNat_add, UInt64.add_assoc]
    rfl
  named := by
    intro c hc owner howner
    obtain ⟨bytes, hbytes, k, hk, heq⟩ := h.named c hc owner howner
    exact ⟨bytes, hbytes, k, hk.trans (Nat.lt_succ_self _), heq⟩
  distinct := h.distinct

/-- A task that mints the next owner: nobody has had it, as the counter has not come round. -/
theorem mint (h : Minted first s) (hbound : s.minted < 2 ^ 64) {i : ℕ} {c : Client}
    (hc : s.clients[i]? = some c) {bytes : List UInt8} (hbytes : bytes.length = 16)
    (state : Connection) :
    Minted first { s.setStage i c (.connected (ownerName bytes s.nextOwner) state) with
      nextOwner := s.nextOwner + 1
      minted := s.minted + 1 } := by
  have hnew : ∀ d ∈ s.clients, d.stage.owner ≠ some (ownerName bytes s.nextOwner) := by
    intro d hd howner
    obtain ⟨bytes', hbytes', k, hk, heq⟩ := h.named d hd _ howner
    have hvalue := ((ownerName_eq_iff hbytes hbytes').1 heq).2
    rw [h.value] at hvalue
    have hnat := congrArg UInt64.toNat ((UInt64.add_right_inj first).1 hvalue)
    rw [UInt64.toNat_ofNat_of_lt' hbound, UInt64.toNat_ofNat_of_lt' (hk.trans hbound)] at hnat
    omega
  have hget : ∀ {j : ℕ} {d : Client}, (s.setStage i c
      (.connected (ownerName bytes s.nextOwner) state)).clients[j]? = some d →
      j = i ∧ d.stage.owner = some (ownerName bytes s.nextOwner) ∨ s.clients[j]? = some d := by
    intro j d hd
    by_cases hij : i = j
    · subst hij
      rw [show (s.setStage i c _).clients[i]? = _ from
        List.getElem?_set_self (List.getElem?_eq_some_iff.1 hc).1] at hd
      exact .inl ⟨rfl, by rw [← Option.some.inj hd]; rfl⟩
    · exact .inr ((List.getElem?_set_ne hij).symm.trans hd)
  refine ⟨h.skip.value, ?_, ?_⟩
  · intro d hd owner howner
    obtain ⟨j, hj⟩ := List.mem_iff_getElem?.1 hd
    rcases hget hj with ⟨-, hown⟩ | hold
    · obtain rfl := Option.some.inj (hown.symm.trans howner)
      exact ⟨bytes, hbytes, s.minted, Nat.lt_succ_self _, by rw [h.value]⟩
    · exact h.skip.named d (List.mem_of_getElem? hold) owner howner
  · intro j k d e owner hj hk hd he
    rcases hget hj with ⟨rfl, hown⟩ | hjold
    · obtain rfl := Option.some.inj (hown.symm.trans hd)
      rcases hget hk with ⟨rfl, -⟩ | hkold
      · rfl
      · exact absurd he (hnew e (List.mem_of_getElem? hkold))
    · rcases hget hk with ⟨rfl, hown⟩ | hkold
      · obtain rfl := Option.some.inj (hown.symm.trans he)
        exact absurd hd (hnew d (List.mem_of_getElem? hjold))
      · exact h.distinct j k d e owner hjold hkold hd he

/-- A task that moves on without minting keeps the owner that it has. -/
theorem setStage (h : Minted first s) {i : ℕ} {c : Client} {stage : Stage}
    (hc : s.clients[i]? = some c)
    (howner : ∀ owner, stage.owner = some owner → c.stage.owner = some owner) :
    Minted first (s.setStage i c stage) := by
  refine h.congr rfl rfl fun j d owner hd hdowner => ?_
  by_cases hij : i = j
  · subst hij
    rw [show (s.setStage i c _).clients[i]? = _ from
      List.getElem?_set_self (List.getElem?_eq_some_iff.1 hc).1] at hd
    obtain rfl := Option.some.inj hd
    exact ⟨c, hc, howner owner hdowner⟩
  · exact ⟨d, (List.getElem?_set_ne hij).symm.trans hd, hdowner⟩

/-- Every step keeps the owners different, as long as the counter has not come round. -/
theorem step {label : ServerStep ε} (h : s.minted ≤ 2 ^ 64 → Minted first s)
    (hstep : s.step uid label = some t) (hbound : t.minted ≤ 2 ^ 64) : Minted first t := by
  cases effect_of_step hstep with
  | refuse peer hphase hpeer => exact h hbound
  | admitted hphase hpermits =>
    refine (h hbound).congr rfl rfl fun i d owner hd howner => ?_
    rcases Roster.getElem?_append_singleton_cases hd with hold | rfl
    · exact ⟨d, hold, howner⟩
    · cases howner
  | stop result hlabel hphase =>
    exact (h hbound).congr rfl rfl fun i d owner hd howner => ⟨d, hd, howner⟩
  | join i hc hphase hover hjoined =>
    rename_i c
    refine (h hbound).congr rfl rfl fun j d owner hd howner => ?_
    by_cases hij : i = j
    · subst hij
      rw [List.getElem?_set_self (List.getElem?_eq_some_iff.1 hc).1] at hd
      obtain rfl := Option.some.inj hd
      exact ⟨c, hc, howner⟩
    · exact ⟨d, (List.getElem?_set_ne hij).symm.trans hd, howner⟩
  | finish result hphase hjoined =>
    exact (h hbound).congr rfl rfl fun i d owner hd howner => ⟨d, hd, howner⟩
  | abort hphase => exact (h hbound).congr rfl rfl fun i d owner hd howner => ⟨d, hd, howner⟩
  | move i hc hmoves =>
    rename_i c stage nextOwner minted
    generalize hold : c.stage = old at hmoves
    cases hmoves with
    | mint bytes hbytes =>
      have hlt : s.minted < 2 ^ 64 := hbound
      exact (h hlt.le).mint hlt hc hbytes _
    | fail => exact (h hbound).setStage hc nofun
    | discard => exact (h hbound).setStage hc nofun
    | connection owner hstop hstep =>
      refine (h hbound).setStage hc fun owner' howner' => ?_
      rw [hold]
      exact howner'
  | mintElsewhere =>
    have hlt : s.minted < 2 ^ 64 := hbound
    exact (h hlt.le).skip

/-- Every run keeps the owners different. -/
theorem of_reachable (h : (machine ε config uid first).Reachable s) :
    s.minted ≤ 2 ^ 64 → Minted first s :=
  Machine.invariant_of_reachable (m := machine ε config uid first)
    (P := fun s : Server => s.minted ≤ 2 ^ 64 → Minted first s)
    (fun _ => init ε) (fun _ _ _ hs hstep hbound => step hs hstep hbound) h

end Minted

/-! ## What owners hold -/

/-- Only work in the service registers a resource, and only a call of `disconnected` removes any. -/
theorem resources_of_step {s t : Connection} {l : SocketStep} (h : connection.step s l = some t) :
    t.resources = s.resources ∨ (∃ i, l = .register i ∧ t.resources = i :: s.resources) ∨
      ∃ j, l = .remove j ∧ t.resources = [] := by
  -- The phases of the work leave the resources alone.
  have hwork : ∀ {u : Connection} {i : ℕ} {old new : WorkPhase},
      s.moveWork i old new = some u → u.resources = s.resources := by
    intro u i old new hmove
    obtain ⟨-, rfl⟩ := moveWork_eq_some.1 hmove
    rfl
  cases l with
  | cleaned =>
    simp only [connection] at h
    split at h
    · obtain ⟨-, rfl⟩ := Machine.guarded_eq_some.1 h
      exact .inl rfl
    · cases h
  | drop =>
    simp only [connection, Connection.drop] at h
    split at h <;> cases h <;> exact .inl rfl
  | closeSession reason =>
    obtain rfl := Option.some.inj h
    exact .inl rfl
  | poll i => exact .inl (hwork h)
  | abort i => exact .inl (hwork (Option.ite_none_right_eq_some.1 h).2)
  | dispatch i => exact .inl (hwork h)
  | register i =>
    obtain ⟨-, rfl⟩ := Machine.guarded_eq_some.1 h
    exact .inr (.inl ⟨i, rfl, rfl⟩)
  | complete i => exact .inl (hwork h)
  | check i =>
    obtain ⟨u, hmove, rfl⟩ := Option.map_eq_some_iff.1 h
    have hu := hwork hmove
    split_ifs <;> exact .inl hu
  | start j =>
    obtain ⟨c, -, hstart⟩ := Option.bind_eq_some_iff.1 h
    obtain ⟨-, rfl⟩ := Machine.guarded_eq_some.1 hstart
    exact .inl rfl
  | remove j =>
    obtain ⟨u, -, rfl⟩ := Option.map_eq_some_iff.1 h
    exact .inr (.inr ⟨j, rfl, rfl⟩)
  | returned j =>
    obtain ⟨c, -, -, rfl⟩ := moveCleanup_eq_some.1 h
    exact .inl rfl
  | _ =>
    obtain ⟨-, rfl⟩ := Machine.guarded_eq_some.1 h
    exact .inl rfl

/-- The owner holds the resource `r` of one of its requests. -/
def Holds (s : Server) (owner : List Char) (r : ℕ) : Prop :=
  ∃ c ∈ s.clients, ∃ state, c.stage = .connected owner state ∧ r ∈ state.resources

/-- The task `i` is a connection of the owner. -/
def IsOwner (s : Server) (i : ℕ) (owner : List Char) : Prop :=
  ∃ c, s.clients[i]? = some c ∧ c.stage.owner = some owner

/-- What an owner holds after the entry of a task has changed, it held before or by this entry. -/
theorem holds_set (owner : List Char) (r : ℕ) {i : ℕ} {c d : Client} (hc : s.clients[i]? = some c)
    (ht : t.clients = s.clients.set i d) :
    (t.Holds owner r → s.Holds owner r ∨
      ∃ state, d.stage = .connected owner state ∧ r ∈ state.resources) ∧
    (s.Holds owner r → t.Holds owner r ∨
      ∃ state, c.stage = .connected owner state ∧ r ∈ state.resources) := by
  constructor
  · rintro ⟨e, he, hholds⟩
    rw [ht] at he
    rcases List.mem_or_eq_of_mem_set he with he | rfl
    · exact .inl ⟨e, he, hholds⟩
    · exact .inr hholds
  · rintro ⟨e, he, hholds⟩
    rcases Roster.mem_set_of_mem hc he d with rfl | he
    · exact .inr hholds
    · exact .inl ⟨e, ht ▸ he, hholds⟩

/-- An owner gets a resource by a request of its own connection, and loses one by a call of
`disconnected` for its own connection. -/
theorem holds_of_step (owner : List Char) (r : ℕ) {label : ServerStep ε}
    (hstep : s.step uid label = some t) :
    (t.Holds owner r → s.Holds owner r ∨
      ∃ i, label = .client i (.register r) ∧ s.IsOwner i owner) ∧
    (s.Holds owner r → t.Holds owner r ∨
      ∃ i j, label = .client i (.remove j) ∧ s.IsOwner i owner) := by
  -- Only a step of one connection changes resources; the others change the list of the tasks at
  -- most.
  cases effect_of_step hstep with
  | refuse peer hphase hpeer => exact ⟨.inl, .inl⟩
  -- The task added has not minted its owner, so it holds nothing.
  | admitted hphase hpermits =>
    constructor
    · rintro ⟨c, hc, state, hstage, hr⟩
      rcases List.mem_append.1 hc with hc | hc
      · exact .inl ⟨c, hc, state, hstage, hr⟩
      · obtain rfl := List.mem_singleton.1 hc
        cases hstage
    · rintro ⟨c, hc, hholds⟩
      exact .inl ⟨c, List.mem_append_left _ hc, hholds⟩
  | stop result hlabel hphase => exact ⟨.inl, .inl⟩
  -- A task that is joined keeps the stage it ended in, and with it what the owner holds.
  | join i hc hphase hover hjoined =>
    rename_i c
    obtain ⟨hnew, hold⟩ := holds_set owner r hc (d := { c with joined := true })
      (t := { s with clients := s.clients.set i { c with joined := true } }) rfl
    constructor
    · intro h
      rcases hnew h with h | hself
      · exact .inl h
      · exact .inl ⟨c, List.mem_of_getElem? hc, hself⟩
    · intro h
      rcases hold h with h | hself
      · exact .inl h
      · have hlt := (List.getElem?_eq_some_iff.1 hc).1
        exact .inl ⟨_, List.mem_of_getElem? (List.getElem?_set_self hlt), hself⟩
  | finish result hphase hjoined => exact ⟨.inl, .inl⟩
  | abort hphase => exact ⟨.inl, .inl⟩
  | move i hc hmoves =>
    rename_i c stage nextOwner minted
    obtain ⟨hnew, hold⟩ := holds_set owner r hc (d := { c with stage := stage })
      (t := { s.setStage i c stage with nextOwner := nextOwner, minted := minted }) rfl
    generalize hstage : c.stage = old at hmoves hold
    cases hmoves with
    -- A connection starts without resources, and before it the task had no owner.
    | mint bytes hbytes =>
      refine ⟨fun h => .inl ((hnew h).resolve_right ?_), fun h => .inl ((hold h).resolve_right ?_)⟩
      · rintro ⟨state, hstate, hr⟩
        obtain ⟨-, rfl⟩ := Stage.connected.inj hstate
        cases hr
      · rintro ⟨state, hstate, -⟩
        cases hstate
    -- Here the task has no owner, neither before the step nor after it.
    | fail =>
      refine ⟨fun h => .inl ((hnew h).resolve_right ?_),
        fun h => .inl ((hold h).resolve_right ?_)⟩ <;>
      · rintro ⟨state, hstate, -⟩
        cases hstate
    | discard =>
      refine ⟨fun h => .inl ((hnew h).resolve_right ?_),
        fun h => .inl ((hold h).resolve_right ?_)⟩ <;>
      · rintro ⟨state, hstate, -⟩
        cases hstate
    | connection owner' hstop hconnection =>
      rename_i state state' l
      -- By the step of the connection itself: the same resources, one registered, or none left.
      have hresources := resources_of_step hconnection
      constructor
      · intro h
        -- What the entry holds now: the connection held it before, or this step has registered it.
        rcases hnew h with h | ⟨u, hu, hr⟩
        · exact .inl h
        · obtain ⟨rfl, rfl⟩ := Stage.connected.inj hu
          rcases hresources with hsame | ⟨k, rfl, hadd⟩ | ⟨k, -, hnone⟩
          · exact .inl ⟨c, List.mem_of_getElem? hc, state, hstage, hsame ▸ hr⟩
          · rw [hadd] at hr
            rcases List.mem_cons.1 hr with rfl | hr
            · exact .inr ⟨i, rfl, c, hc, by rw [hstage]; rfl⟩
            · exact .inl ⟨c, List.mem_of_getElem? hc, state, hstage, hr⟩
          · rw [hnone] at hr
            cases hr
      · intro h
        -- What the entry held before: it is still in the list, or this step has removed
        -- everything.
        rcases hold h with h | ⟨u, hu, hr⟩
        · exact .inl h
        · obtain ⟨rfl, rfl⟩ := Stage.connected.inj hu
          have hmem := List.mem_of_getElem? (List.getElem?_set_self (a := { c with
            stage := .connected owner' state' }) (List.getElem?_eq_some_iff.1 hc).1)
          rcases hresources with hsame | ⟨k, -, hadd⟩ | ⟨k, rfl, -⟩
          · exact .inl ⟨_, hmem, state', rfl, hsame ▸ hr⟩
          · exact .inl ⟨_, hmem, state', rfl, hadd ▸ List.mem_cons_of_mem k hr⟩
          · exact .inr ⟨i, k, rfl, c, hc, by rw [hstage]; rfl⟩
  | mintElsewhere => exact ⟨.inl, .inl⟩

/-- The owners of a socket server. In every reachable state of a process that has minted at most
2^64 owners, no two connections have one owner; so in each step an owner gets a resource only by a
request of the one connection that has it, and loses one only by a call of `disconnected` for this
connection. Where every connection has settled, no owner holds anything. -/
theorem socket_owners (ε : Type*) (config : JsonlSocketConfig) (uid : UInt32) (first : UInt64)
    (s : Server) (h : (machine ε config uid first).Reachable s) (hbound : s.minted ≤ 2 ^ 64) :
    (∀ i j owner, s.IsOwner i owner → s.IsOwner j owner → i = j) ∧
      (∀ (label : ServerStep ε) t owner r, s.step uid label = some t →
        (t.Holds owner r → ¬s.Holds owner r → ∃ i, label = .client i (.register r) ∧
          s.IsOwner i owner ∧ ∀ j, s.IsOwner j owner → j = i) ∧
        (s.Holds owner r → ¬t.Holds owner r → ∃ i k, label = .client i (.remove k) ∧
          s.IsOwner i owner ∧ ∀ j, s.IsOwner j owner → j = i)) ∧
      ((∀ c ∈ s.clients, ∀ owner state, c.stage = .connected owner state → Settled state) →
        ∀ owner r, ¬s.Holds owner r) := by
  have hminted := Minted.of_reachable h hbound
  have hdistinct : ∀ i j owner, s.IsOwner i owner → s.IsOwner j owner → i = j := by
    rintro i j owner ⟨c, hc, hcowner⟩ ⟨d, hd, hdowner⟩
    exact hminted.distinct i j c d owner hc hd hcowner hdowner
  refine ⟨hdistinct, ?_, ?_⟩
  · intro label t owner r hstep
    obtain ⟨hgets, hloses⟩ := holds_of_step owner r hstep
    constructor
    · intro ht hs
      obtain ⟨i, hlabel, howner⟩ := (hgets ht).resolve_left hs
      exact ⟨i, hlabel, howner, fun j hj => hdistinct j i owner hj howner⟩
    · intro hs ht
      obtain ⟨i, k, hlabel, howner⟩ := (hloses hs).resolve_left ht
      exact ⟨i, k, hlabel, howner, fun j hj => hdistinct j i owner hj howner⟩
  · rintro hsettled owner r ⟨c, hc, state, hstage, hr⟩
    have hstate := (Serving.of_reachable h).connection c hc owner state hstage
    rw [(owner_cleanup_not_missed hstate (hsettled c hc owner state hstage)).1] at hr
    cases hr

/-- Two connections that the kernel has given the same bytes. -/
def sameBytes : List (ServerStep Unit) :=
  [.accept (some 1000), .accept (some 1000), .poll 1 [.ok (List.replicate 16 7)],
    .poll 0 [.ok (List.replicate 9 7), .ok (List.replicate 9 7)]]

/-- They are different owners. -/
theorem socket_owners_same_bytes :
    ∃ s, (machine Unit {} 1000 1).run (machine Unit {} 1000 1).init sameBytes = some s ∧
      ∀ i j owner, s.IsOwner i owner → s.IsOwner j owner → i = j := by
  obtain ⟨s, hrun⟩ : ∃ s, (machine Unit {} 1000 1).run (machine Unit {} 1000 1).init sameBytes =
      some s := ⟨_, rfl⟩
  refine ⟨s, hrun, (socket_owners Unit {} 1000 1 s ⟨sameBytes, hrun⟩ ?_).1⟩
  obtain rfl := Option.some.inj hrun
  decide

end DaemonFramework.Socket.Server
