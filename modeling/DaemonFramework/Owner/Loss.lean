import DaemonFramework.Owner.Monitor

/-!
# A wait is told of the loss, and of nothing else

The losses are the names broadcast so far and those that the signals on their way will broadcast, as
one list. The monitor task moves names along it and neither adds nor drops one, so a step that is
not the bus's leaves the list alone, and a receiver is a position in it. A call that has heard that
its owner is there keeps one of three facts: the monitor has ended, the owner is still there, or its
loss lies at or beyond the position of the call's receiver. Subscribing before asking is what
establishes it, and asking again after a lag is what restores it.
-/

namespace DaemonFramework.Owner

namespace System

variable {s t : System}

/-- The owner is still there, its loss is yet to be read from the position `next`, or the monitor
has ended. -/
def StillComing (s : System) (owner : String) (next : ℕ) : Prop :=
  s.stopped = true ∨ s.owner owner ≠ "" ∨ owner ∈ s.losses.drop next

/-- What no step takes back. -/
structure Forward (s t : System) : Prop where
  /-- A monitor that runs stays. -/
  running : s.cell = .running → t.cell = .running
  /-- What was broadcast stays broadcast. -/
  sent : s.sent.length ≤ t.sent.length
  /-- A name that was given out stays so. -/
  given : ∀ name ∈ s.assigned, name ∈ t.assigned
  /-- A name that has left does not come back. -/
  left : ∀ name, s.HasLeft name → t.HasLeft name
  /-- A receiver misses nothing. -/
  coming : s.cell = .running → ∀ owner next, isUnique owner → next ≤ s.sent.length →
    s.StillComing owner next → t.StillComing owner next

namespace Forward

/-- A step that leaves the bus, the broadcasts and the losses alone. -/
theorem of_losses_eq (hcell : s.cell = .running → t.cell = .running)
    (howner : t.owner = s.owner) (hassigned : t.assigned = s.assigned)
    (hsent : s.sent.length ≤ t.sent.length) (hstopped : t.stopped = s.stopped)
    (hlosses : s.cell = .running → t.losses = s.losses) : Forward s t where
  running := hcell
  sent := hsent
  given name hname := by rwa [hassigned]
  left name hleft := by
    refine ⟨hleft.unique, ?_, ?_⟩
    · rw [hassigned]
      exact hleft.given
    · rw [howner]
      exact hleft.gone
  coming hrun owner next _ _ hcoming := by
    unfold StillComing at hcoming ⊢
    rwa [hstopped, howner, hlosses hrun]

/-- Only the calls change. -/
theorem of_calls (s : System) (calls : List Call) : Forward s { s with calls := calls } :=
  of_losses_eq id rfl rfl (Nat.le_refl _) rfl fun _ => rfl

/-- A cell that is not running changes, and the stream with it. -/
theorem of_cell (hcell : s.cell ≠ .running) (cell : Cell) (stream : List Signal) :
    Forward s { s with cell := cell, stream := stream } :=
  of_losses_eq (fun h => absurd h hcell) rfl rfl (Nat.le_refl _) rfl fun h => absurd h hcell

theorem trans {u : System} (h₁ : Forward s t) (h₂ : Forward t u) : Forward s u where
  running h := h₂.running (h₁.running h)
  sent := Nat.le_trans h₁.sent h₂.sent
  given name h := h₂.given name (h₁.given name h)
  left name h := h₂.left name (h₁.left name h)
  coming hrun owner next hunique hnext h :=
    h₂.coming (h₁.running hrun) owner next hunique (Nat.le_trans hnext h₁.sent)
      (h₁.coming hrun owner next hunique hnext h)

end Forward

/-- A subscription that was held with the monitor running gets every signal until the monitor
ends. -/
theorem listens_of_running (hcell : s.cell = .running) (hstopped : s.stopped = false) :
    s.listens := by
  simp [listens, hcell, hstopped, Cell.listens]

/-- What lies beyond a position lies beyond it after more was added. -/
theorem mem_drop_append {l : List String} {name : String} {next : ℕ} (h : name ∈ l.drop next)
    (l' : List String) : name ∈ (l ++ l').drop next := by
  rw [List.drop_append]
  exact List.mem_append_left _ h

/-- What is added lies beyond every position in the list. -/
theorem mem_drop_concat {l : List String} {name : String} {next : ℕ} (h : next ≤ l.length) :
    name ∈ (l ++ [name]).drop next := by
  rw [List.drop_append_of_le_length h]
  exact List.mem_append_right _ (List.mem_singleton.2 rfl)

/-- A signal that names no loss does nothing to the waits. -/
theorem forward_emit_malformed (s : System) : Forward s (s.emit .malformed) := by
  refine .of_losses_eq (fun h => ?_) (owner_emit s _) (assigned_emit s _) ?_ (stopped_emit s _)
    fun _ => ?_
  · rwa [cell_emit]
  · exact Nat.le_of_eq (congrArg List.length (sent_emit s _).symm)
  · rw [losses_emit]
    simp [Signal.loss]

/-- What the bus allows for a unique name: it is new, or its connection leaves. -/
theorem changeAllowed_unique {name new : String} (h : s.changeAllowed name new)
    (hunique : isUnique name) :
    s.owner name = "" ∧ new = name ∧ name ∉ s.assigned ∨ s.owner name ≠ "" ∧ new = "" := by
  rw [changeAllowed, if_pos hunique] at h
  split_ifs at h with hgone
  · exact .inl ⟨hgone, by simpa using h⟩
  · exact .inr ⟨hgone, by simpa using h⟩

/-- The owner of one name changes. -/
theorem owner_change (s : System) (name new other : String) :
    (s.change name new).owner other = if other = name then new else s.owner other := by
  simp only [change, Function.update_apply]

/-- A name that was given out stays so when an owner changes. -/
theorem mem_assigned_change {name new other : String} (h : other ∈ s.assigned) :
    other ∈ (s.change name new).assigned := by
  simp only [change]
  split_ifs
  · exact List.mem_cons_of_mem _ h
  · exact h

/-- A name that has left stays away: a unique name is given out once. -/
theorem HasLeft.change {name new other : String} (h : s.HasLeft other)
    (hallowed : s.changeAllowed name new) : (s.change name new).HasLeft other := by
  refine ⟨h.unique, mem_assigned_change h.given, ?_⟩
  rw [owner_change]
  split_ifs with heq
  · subst heq
    rcases changeAllowed_unique hallowed h.unique with ⟨-, -, hfresh⟩ | ⟨-, hnew⟩
    · exact absurd h.given hfresh
    · exact hnew
  · exact h.gone

/-- A receiver misses no change: the signal of a loss goes to the end of the losses. -/
theorem StillComing.change {name new owner : String} {next : ℕ}
    (hallowed : s.changeAllowed name new) (hcell : s.cell = .running) (hunique : isUnique owner)
    (hnext : next ≤ s.sent.length) (h : s.StillComing owner next) :
    (s.change name new).StillComing owner next := by
  have hstopped : (s.change name new).stopped = s.stopped := stopped_emit s _
  have hlength : next ≤ s.losses.length := Nat.le_trans hnext s.length_sent_le_length_losses
  unfold StillComing
  rw [hstopped]
  rcases Bool.eq_false_or_eq_true s.stopped with hend | hend
  · exact .inl hend
  · rw [losses_change, if_pos (listens_of_running hcell hend), owner_change]
    rcases h with h | h | h
    · exact .inl h
    · split_ifs with heq
      · subst heq
        rcases changeAllowed_unique hallowed hunique with ⟨hgone, -⟩ | ⟨-, hnew⟩
        · exact absurd hgone h
        -- The owner itself leaves: its loss is the last one now.
        · have hloss : (Signal.changed owner (s.owner owner) new).loss = some owner := by
            simp [Signal.loss, hunique, h, hnew]
          rw [hloss]
          exact .inr (.inr (mem_drop_concat hlength))
      · exact .inr (.inl h)
    · exact .inr (.inr (mem_drop_append h _))

/-- The owner of a name changes. -/
theorem forward_change {name new : String} (hallowed : s.changeAllowed name new) :
    Forward s (s.change name new) where
  running h := (cell_emit s _).trans h
  sent := Nat.le_of_eq (congrArg List.length (sent_emit s _).symm)
  given _ h := mem_assigned_change h
  left _ h := h.change hallowed
  coming hcell _ _ hunique hnext h := h.change hallowed hcell hunique hnext

/-- A call gives up the cell. -/
theorem forward_release (s : System) (k : ℕ) : Forward s (s.release k) := by
  unfold release
  split_ifs with hheld
  · have hcell : s.cell ≠ .running := by
      intro hrun
      simp [hrun, Cell.heldBy] at hheld
    exact .of_cell hcell .empty []
  · exact .of_losses_eq id rfl rfl (Nat.le_refl _) rfl fun _ => rfl

/-- A call works on the cell, which does not run yet. -/
theorem initStep_cases {k : ℕ} {e : InitEvent} (h : s.initStep k e = some t) :
    s.cell ≠ .running ∧ ∃ cell stream, (∀ signal ∈ stream, signal ∈ s.stream) ∧
      t = { s with cell := cell, stream := stream } := by
  cases e with
  | start =>
    obtain ⟨hcell, rfl⟩ := Machine.guarded_eq_some.1 h
    exact ⟨by simp [hcell], .connecting k, s.stream, fun _ h => h, rfl⟩
  | listen =>
    obtain ⟨hcell, rfl⟩ := Machine.guarded_eq_some.1 h
    exact ⟨by simp [hcell], .listening k, [], nofun, rfl⟩
  | finish =>
    obtain ⟨hcell, rfl⟩ := Machine.guarded_eq_some.1 h
    exact ⟨by simp [hcell], .running, s.stream, fun _ h => h, rfl⟩

/-- What holds of a call. -/
structure CallFits (s : System) (c : Call) : Prop where
  /-- It waits for a unique name. -/
  unique : isUnique c.owner
  /-- A name known when the call was made was given out. -/
  given : c.known → c.owner ∈ s.assigned
  /-- A call with a receiver found the monitor running. -/
  running : c.phase.subscribed → s.cell = .running
  /-- Its receiver is a position in what was broadcast. -/
  next : c.phase.subscribed → c.next ≤ s.sent.length
  /-- A call that relies on being told will be. -/
  coming : c.phase.expects → s.StillComing c.owner c.next
  /-- A call that has learned of the loss of a known name is right. -/
  saw : c.phase.sawLoss → c.known → s.HasLeft c.owner

/-- A step takes nothing back of what holds of a call. -/
theorem CallFits.forward {c : Call} (h : s.CallFits c) (hst : Forward s t) : t.CallFits c where
  unique := h.unique
  given hknown := hst.given _ (h.given hknown)
  running hsub := hst.running (h.running hsub)
  next hsub := Nat.le_trans (h.next hsub) hst.sent
  coming hexp := by
    have hsub : c.phase.subscribed := Phase.subscribed_of_expects hexp
    exact hst.coming (h.running hsub) _ _ h.unique (h.next hsub) (h.coming hexp)
  saw hsaw hknown := hst.left _ (h.saw hsaw hknown)

/-- A call that is over fits, if it did not learn of a loss. -/
theorem CallFits.end {c : Call} (h : s.CallFits c) {phase : Phase} (hover : phase.isOver)
    (hsaw : phase.sawLoss = false) : s.CallFits { c with phase := phase } := by
  have hsub : phase.subscribed = false := by
    cases phase with
    | returned reply => rfl
    | abandoned => rfl
    | _ => cases hover
  have hexp : phase.expects = false := by
    cases phase with
    | returned reply => rfl
    | abandoned => rfl
    | _ => cases hover
  exact {
    unique := h.unique
    given := h.given
    running := fun hp => absurd hp (by simp [hsub])
    next := fun hp => absurd hp (by simp [hsub])
    coming := fun hp => absurd hp (by simp [hexp])
    saw := fun hp => absurd hp (by simp [hsaw]) }

/-- What holds of the bus and of the losses. -/
structure BusFits (s : System) : Prop where
  /-- A unique name that has an owner was given out. -/
  given : ∀ name, isUnique name → s.owner name ≠ "" → name ∈ s.assigned
  /-- A loss is that of a name that has left. -/
  left : ∀ name ∈ s.losses, s.HasLeft name

/-- A step that is not the bus's adds no loss. -/
theorem BusFits.of_losses (h : s.BusFits) (howner : t.owner = s.owner)
    (hassigned : t.assigned = s.assigned) (hlosses : ∀ name ∈ t.losses, name ∈ s.losses) :
    t.BusFits where
  given name hunique hpresent := by
    rw [howner] at hpresent
    rw [hassigned]
    exact h.given name hunique hpresent
  left name hname := by
    have hleft : s.HasLeft name := h.left name (hlosses name hname)
    refine ⟨hleft.unique, ?_, ?_⟩
    · rw [hassigned]
      exact hleft.given
    · rw [howner]
      exact hleft.gone

/-- The signal of a change names a loss where a connection with a unique name leaves. -/
theorem loss_changed_eq_some {name old new lost : String}
    (h : (Signal.changed name old new).loss = some lost) :
    lost = name ∧ isUnique name ∧ old ≠ "" ∧ new = "" := by
  obtain ⟨⟨hunique, hold, hnew⟩, heq⟩ := Option.ite_none_right_eq_some.1 h
  exact ⟨(Option.some.inj heq).symm, hunique, hold, hnew⟩

/-- The losses after a change are those of before, and that of the name where its connection has
left. -/
theorem mem_losses_change {name new lost : String} (h : lost ∈ (s.change name new).losses) :
    lost ∈ s.losses ∨ lost = name ∧ isUnique name ∧ s.owner name ≠ "" ∧ new = "" := by
  rw [losses_change] at h
  split_ifs at h
  · refine (List.mem_append.1 h).imp_right fun h => ?_
    exact loss_changed_eq_some (Option.mem_toList.1 h)
  · exact .inl h

/-- The owner of a name changes. -/
theorem BusFits.change (h : s.BusFits) {name new : String} (hallowed : s.changeAllowed name new) :
    (s.change name new).BusFits where
  given other hunique hpresent := by
    rw [owner_change] at hpresent
    split_ifs at hpresent with heq
    · subst heq
      have hassigned : (s.change other new).assigned = other :: s.assigned := by
        simp [System.change, hunique, hpresent]
      rw [hassigned]
      exact List.mem_cons_self
    · exact mem_assigned_change (h.given other hunique hpresent)
  left lost hlost := by
    rcases mem_losses_change hlost with hold | ⟨rfl, hunique, hpresent, hnew⟩
    · exact (h.left lost hold).change hallowed
    · refine ⟨hunique, mem_assigned_change (h.given lost hunique hpresent), ?_⟩
      rw [owner_change, if_pos rfl]
      exact hnew

/-- What a step can do: the bus or the monitor does something, a call is made, a call does
something, or a call is given up. -/
theorem step_cases {e : Label} (h : s.step e = some t) :
    (t.calls = s.calls ∧ Forward s t ∧ (s.BusFits → t.BusFits)) ∨
    (∃ owner, isUnique owner ∧
      t = { s with calls := s.calls ++ [⟨owner, owner ∈ s.assigned, .entered, 0⟩] }) ∨
    (∃ k c c' e', s.calls[k]? = some c ∧ s.callNext c e' = some c' ∧ t = s.setCall k c') ∨
    (∃ k c phase, s.calls[k]? = some c ∧ c.phase.isOver = false ∧ phase.isOver ∧
      phase.sawLoss = false ∧ t = (s.release k).setCall k { c with phase := phase }) := by
  cases e with
  -- The bus and the monitor leave the calls alone.
  | change name new =>
    obtain ⟨hallowed, rfl⟩ := Machine.guarded_eq_some.1 h
    exact .inl ⟨calls_emit s _, forward_change hallowed, fun hs => hs.change hallowed⟩
  | garble =>
    obtain rfl : s.emit .malformed = t := Option.some.inj h
    refine .inl ⟨calls_emit s _, forward_emit_malformed s, fun hs => ?_⟩
    refine hs.of_losses (owner_emit s _) (assigned_emit s _) fun name hname => ?_
    rw [losses_emit] at hname
    simpa [Signal.loss] using hname
  | take =>
    have htake : s.take = some t := h
    unfold System.take at htake
    split at htake
    · rename_i signal rest hhand hstream
      obtain ⟨-, rfl⟩ := Machine.guarded_eq_some.1 htake
      have hlosses := losses_take hhand hstream
      exact .inl ⟨rfl, .of_losses_eq id rfl rfl (Nat.le_refl _) rfl fun _ => hlosses,
        fun hs => hs.of_losses rfl rfl fun name hname => hlosses ▸ hname⟩
    · cases htake
  | handle =>
    obtain ⟨signal, hhand, rfl⟩ := Option.map_eq_some_iff.1 h
    have hlosses := losses_handle hhand
    have hsent : s.sent.length ≤ (s.sent ++ signal.loss.toList).length := by
      rw [List.length_append]
      omega
    exact .inl ⟨rfl, .of_losses_eq id rfl rfl hsent rfl fun _ => hlosses,
      fun hs => hs.of_losses rfl rfl fun name hname => hlosses ▸ hname⟩
  | stop =>
    obtain ⟨hcell, rfl⟩ := Machine.guarded_eq_some.1 h
    refine .inl ⟨rfl, ⟨id, Nat.le_refl _, fun _ h => h, fun _ h => ⟨h.unique, h.given, h.gone⟩,
      fun _ _ _ _ _ _ => .inl rfl⟩, fun hs => hs.of_losses rfl rfl fun name hname => ?_⟩
    have hsent : name ∈ s.sent := by simpa [losses, unhandled] using hname
    exact List.mem_append_left _ hsent
  | wait owner =>
    obtain ⟨hunique, rfl⟩ := Machine.guarded_eq_some.1 h
    exact .inr (.inl ⟨owner, hunique, rfl⟩)
  -- A call that starts the monitor changes the cell that all share.
  | init k e =>
    obtain ⟨c, -, h⟩ := Option.bind_eq_some_iff.1 h
    obtain ⟨-, h⟩ := Option.ite_none_right_eq_some.1 h
    obtain ⟨hcell, cell, stream, hstream, rfl⟩ := initStep_cases h
    refine .inl ⟨rfl, .of_cell hcell cell stream, fun hs => hs.of_losses rfl rfl ?_⟩
    exact mem_losses_of_stream hstream
  | call k e =>
    obtain ⟨c, hc, h⟩ := Option.bind_eq_some_iff.1 h
    obtain ⟨c', hnext, rfl⟩ := Option.map_eq_some_iff.1 h
    exact .inr (.inr (.inl ⟨k, c, c', e, hc, hnext, rfl⟩))
  -- A call that fails or is given up is over without a loss.
  | fail k =>
    obtain ⟨c, hc, h⟩ := Option.bind_eq_some_iff.1 h
    obtain ⟨hfail, rfl⟩ := Machine.guarded_eq_some.1 h
    exact .inr (.inr (.inr ⟨k, c, .returned .failed, hc, over_of_canFail hfail, rfl, rfl, rfl⟩))
  | abandon k =>
    obtain ⟨c, hc, h⟩ := Option.bind_eq_some_iff.1 h
    obtain ⟨hover, h⟩ := Option.ite_none_left_eq_some.1 h
    obtain rfl := Option.some.inj h
    exact .inr (.inr (.inr ⟨k, c, .abandoned, hc, by simpa using hover, rfl, rfl, rfl⟩))

/-- A step takes nothing back. -/
theorem Forward.step {e : Label} (h : s.step e = some t) : Forward s t := by
  rcases step_cases h with ⟨-, hst, -⟩ | ⟨owner, -, rfl⟩ | ⟨k, c, c', e', -, -, rfl⟩ |
    ⟨k, c, phase, -, -, -, -, rfl⟩
  · exact hst
  · exact .of_calls s _
  · exact .of_calls s _
  · exact (forward_release s k).trans (.of_calls _ _)

/-- A call fits whose receiver stands where it stood, or whose call is over. -/
theorem CallFits.receiving {c : Call} (h : s.CallFits c) (hexp : c.phase.expects) {phase : Phase}
    (hphase : phase.blocked) : s.CallFits { c with phase := phase } where
  unique := h.unique
  given := h.given
  running _ := h.running (Phase.subscribed_of_expects hexp)
  next _ := h.next (Phase.subscribed_of_expects hexp)
  coming _ := h.coming hexp
  saw hsaw := by
    cases phase with
    | receiving => cases hsaw
    | waiting => cases hsaw
    | checked => cases hsaw
    | _ => cases hphase

/-- A call fits that looks at the stopped state in `recv`. -/
theorem CallFits.looks {c : Call} (h : s.CallFits c) (hexp : c.phase.expects) {phase : Phase}
    (hphase : phase.blocked) :
    s.CallFits { c with phase := if s.stopped then .returned .stopped else phase } := by
  split_ifs
  · exact h.end rfl rfl
  · exact h.receiving hexp hphase

/-- A call fits that asks the bus from a receiver anywhere in what was broadcast. -/
theorem CallFits.asks {c : Call} (h : s.CallFits c) (hcell : s.cell = .running) {next : ℕ}
    (hnext : next ≤ s.sent.length) : s.CallFits { c with phase := .asking, next := next } where
  unique := h.unique
  given := h.given
  running _ := hcell
  next _ := hnext
  coming := nofun
  saw := nofun

/-- A call fits that the bus has answered. -/
theorem CallFits.answered {c : Call} (h : s.CallFits c) (hphase : c.phase = .asking) :
    s.CallFits { c with phase := .answered (s.owner c.owner ≠ "") } where
  unique := h.unique
  given := h.given
  running _ := h.running (by rw [hphase]; rfl)
  next _ := h.next (by rw [hphase]; rfl)
  coming hexp := by
    by_cases hgone : s.owner c.owner = ""
    · simp [hgone, Phase.expects] at hexp
    · exact .inr (.inl hgone)
  saw hsaw hknown := by
    by_cases hgone : s.owner c.owner = ""
    · exact ⟨h.unique, h.given hknown, hgone⟩
    · simp [hgone, Phase.sawLoss] at hsaw

/-- A call fits after a read: it lags and asks again, it has read its loss, or it has read another,
and its own lies beyond. -/
theorem CallFits.read {c c' : Call} (h : s.CallFits c) (hs : s.BusFits)
    (hphase : c.phase = .checked) (hread : s.read c = some c') : s.CallFits c' := by
  have hexp : c.phase.expects := by
    rw [hphase]
    rfl
  have hsub : c.phase.subscribed := Phase.subscribed_of_expects hexp
  unfold System.read at hread
  split_ifs at hread with hlag
  · obtain rfl := Option.some.inj hread
    exact h.asks (h.running hsub) (Nat.sub_le _ _)
  · obtain ⟨lost, hlost, rfl⟩ := Option.map_eq_some_iff.1 hread
    obtain ⟨hlt, hget⟩ := List.getElem?_eq_some_iff.1 hlost
    have hmem : lost ∈ s.losses := List.mem_append_left _ (List.mem_of_getElem? hlost)
    by_cases heq : lost = c.owner
    · rw [if_pos heq]
      exact {
        unique := h.unique
        given := h.given
        running := nofun
        next := nofun
        coming := nofun
        saw := fun _ _ => heq ▸ hs.left lost hmem }
    · rw [if_neg heq]
      exact {
        unique := h.unique
        given := h.given
        running := fun _ => h.running hsub
        next := fun _ => hlt
        coming := fun _ => (h.coming hexp).imp_right (Or.imp_right fun hdrop => by
          -- The name at the position is another one, so the loss is not the first beyond it.
          have hlen : c.next < s.losses.length :=
            Nat.lt_of_lt_of_le hlt s.length_sent_le_length_losses
          have hhead : s.losses[c.next] = lost := by
            simp only [losses, List.getElem_append_left hlt, hget]
          rw [List.drop_eq_getElem_cons hlen, hhead] at hdrop
          exact (List.mem_cons.1 hdrop).resolve_left fun h => heq h.symm)
        saw := nofun }

/-- A call still fits after a step of its own. -/
theorem CallFits.callNext {c c' : Call} {e : CallEvent} (h : s.CallFits c) (hs : s.BusFits)
    (hnext : s.callNext c e = some c') : s.CallFits c' := by
  unfold System.callNext at hnext
  split at hnext
  · obtain ⟨hcell, rfl⟩ := Machine.guarded_eq_some.1 hnext
    exact h.asks hcell (Nat.le_refl _)
  · rename_i hphase
    obtain rfl := Option.some.inj hnext
    exact h.answered hphase
  · rename_i hphase
    obtain rfl := Option.some.inj hnext
    exact h.receiving (by rw [hphase]; rfl) rfl
  · rename_i hphase
    obtain rfl := Option.some.inj hnext
    exact {
      unique := h.unique
      given := h.given
      running := nofun
      next := nofun
      coming := nofun
      saw := fun _ => h.saw (by rw [hphase]; rfl) }
  · rename_i hphase
    obtain rfl := Option.some.inj hnext
    exact h.looks (by rw [hphase]; rfl) rfl
  · rename_i hphase
    obtain rfl := Option.some.inj hnext
    exact h.looks (by rw [hphase]; rfl) rfl
  · rename_i hphase
    exact h.read hs hphase hnext
  · rename_i hphase
    obtain rfl := Option.some.inj hnext
    exact h.receiving (by rw [hphase]; rfl) rfl
  · cases hnext

/-- What holds of the system. -/
structure Invariant (s : System) : Prop where
  /-- What holds of the bus and of the losses. -/
  bus : s.BusFits
  /-- What holds of the calls. -/
  calls : ∀ c ∈ s.calls, s.CallFits c

/-- The bus starts without names. -/
theorem invariant_initial : Invariant initial where
  bus := ⟨fun _ _ h => absurd rfl h, nofun⟩
  calls := nofun

/-- A step of the calls alone keeps what holds of the bus. -/
theorem BusFits.of_calls (h : s.BusFits) (calls : List Call) :
    BusFits { s with calls := calls } :=
  h.of_losses rfl rfl fun _ hname => hname

/-- A call that gives up the cell takes no loss from the others. -/
theorem BusFits.release (h : s.BusFits) (k : ℕ) : (s.release k).BusFits := by
  unfold System.release
  split_ifs
  · exact h.of_losses rfl rfl (mem_losses_of_stream nofun)
  · exact h

/-- A step keeps the invariant. -/
theorem Invariant.step {e : Label} (h : s.Invariant) (he : s.step e = some t) : t.Invariant := by
  have hst : Forward s t := .step he
  have hfits : ∀ c ∈ s.calls, t.CallFits c := fun c hc => (h.calls c hc).forward hst
  rcases step_cases he with ⟨hcalls, -, hbus⟩ | ⟨owner, hunique, rfl⟩ |
    ⟨k, c, c', e', hc, hnext, rfl⟩ | ⟨k, c, phase, hc, -, hover, hsaw, rfl⟩
  · exact ⟨hbus h.bus, fun c hc => hfits c (hcalls ▸ hc)⟩
  · refine ⟨h.bus.of_calls _, Roster.forall_mem_append_singleton hfits ?_⟩
    exact ⟨hunique, fun hknown => by simpa using hknown, nofun, nofun, nofun, nofun⟩
  · refine ⟨h.bus.of_calls _, Roster.forall_mem_set hfits ?_⟩
    exact ((h.calls c (List.mem_of_getElem? hc)).callNext h.bus hnext).forward hst
  · have hset : ((s.release k).setCall k { c with phase := phase }).calls =
        s.calls.set k { c with phase := phase } := by
      rw [setCall, calls_release]
    refine ⟨(h.bus.release k).of_calls _, ?_⟩
    rw [hset]
    exact Roster.forall_mem_set hfits ((hfits c (List.mem_of_getElem? hc)).end hover hsaw)

/-- The invariant holds in every state that a run from a state with it ends in. -/
theorem Invariant.run {es : List Label} (h : s.Invariant) (hrun : machine.run s es = some t) :
    t.Invariant :=
  Machine.invariant_of_run (fun _ _ _ hs ht => hs.step ht) h hrun

/-- A call is on its way, and its owner is not on the bus. -/
def AbsentDuring (s : System) (k : ℕ) (owner : String) : Prop :=
  ∃ c, s.calls[k]? = some c ∧ c.owner = owner ∧ c.phase.isOver = false ∧ s.owner owner = ""

/-- A call has learned that its owner is gone. -/
def SawLoss (s : System) (k : ℕ) (owner : String) : Prop :=
  ∃ c, s.calls[k]? = some c ∧ c.owner = owner ∧ c.phase.sawLoss

/-- A step of a call keeps what the call waits for. -/
theorem owner_callNext {c c' : Call} {e : CallEvent} (h : s.callNext c e = some c') :
    c'.owner = c.owner := by
  unfold System.callNext at h
  split at h
  · obtain ⟨-, rfl⟩ := Machine.guarded_eq_some.1 h
    rfl
  case h_7 =>
    unfold System.read at h
    split_ifs at h
    · obtain rfl := Option.some.inj h
      rfl
    · obtain ⟨lost, -, rfl⟩ := Option.map_eq_some_iff.1 h
      rfl
  case h_9 => cases h
  all_goals
    obtain rfl := Option.some.inj h
    rfl

/-- A call learns that its owner is gone from the bus itself, or from a loss. -/
theorem sawLoss_callNext (hs : s.BusFits) {c c' : Call} {e : CallEvent}
    (h : s.callNext c e = some c') (hsaw : c'.phase.sawLoss) :
    c.phase.sawLoss ∨ c.phase.isOver = false ∧ s.owner c.owner = "" := by
  unfold System.callNext at h
  split at h
  · obtain ⟨-, rfl⟩ := Machine.guarded_eq_some.1 h
    cases hsaw
  · rename_i hphase
    obtain rfl := Option.some.inj h
    -- The call asks the bus, which names nobody.
    refine .inr ⟨by rw [hphase]; rfl, ?_⟩
    by_contra hpresent
    simp [hpresent, Phase.sawLoss] at hsaw
  · obtain rfl := Option.some.inj h
    cases hsaw
  · rename_i hphase
    exact .inl (by rw [hphase]; rfl)
  · obtain rfl := Option.some.inj h
    dsimp only at hsaw
    split_ifs at hsaw <;> cases hsaw
  · obtain rfl := Option.some.inj h
    dsimp only at hsaw
    split_ifs at hsaw <;> cases hsaw
  · rename_i hphase
    -- It reads a loss of its owner, which has left the bus by then.
    unfold System.read at h
    split_ifs at h with hlag
    · obtain rfl := Option.some.inj h
      cases hsaw
    · obtain ⟨lost, hlost, rfl⟩ := Option.map_eq_some_iff.1 h
      dsimp only at hsaw
      split_ifs at hsaw with heq
      · have hmem : lost ∈ s.losses := List.mem_append_left _ (List.mem_of_getElem? hlost)
        exact .inr ⟨by rw [hphase]; rfl, heq ▸ (hs.left lost hmem).gone⟩
      · cases hsaw
  · obtain rfl := Option.some.inj h
    cases hsaw
  · cases h

/-- A call learns that its owner is gone at a moment at which the owner is not on the bus. -/
theorem sawLoss_step {e : Label} {k : ℕ} {owner : String} (h : s.Invariant)
    (he : s.step e = some t) (ht : t.SawLoss k owner) :
    s.SawLoss k owner ∨ s.AbsentDuring k owner := by
  obtain ⟨x, hx, hxowner, hxsaw⟩ := ht
  rcases step_cases he with ⟨hcalls, -, -⟩ | ⟨o, -, rfl⟩ | ⟨j, c, c', e', hc, hnext, rfl⟩ |
    ⟨j, c, phase, hc, -, -, hsaw, rfl⟩
  · exact .inl ⟨x, hcalls ▸ hx, hxowner, hxsaw⟩
  · rcases Roster.getElem?_append_singleton_cases hx with hx | rfl
    · exact .inl ⟨x, hx, hxowner, hxsaw⟩
    · cases hxsaw
  · rcases getElem?_setCall_cases hx with hx | ⟨rfl, rfl⟩
    · exact .inl ⟨x, hx, hxowner, hxsaw⟩
    · rw [owner_callNext hnext] at hxowner
      rcases sawLoss_callNext h.bus hnext hxsaw with hsaw | ⟨hover, hgone⟩
      · exact .inl ⟨c, hc, hxowner, hsaw⟩
      · exact .inr ⟨c, hc, hxowner, hover, hxowner ▸ hgone⟩
  · rcases getElem?_setCall_cases hx with hx | ⟨rfl, rfl⟩
    · exact .inl ⟨x, calls_release s j ▸ hx, hxowner, hxsaw⟩
    · rw [hsaw] at hxsaw
      cases hxsaw

end System

/-- A wait can neither be missed nor invented, whatever happens in whatever order. When `wait` has
returned `Ok`, there was a moment of the call at which its owner was not on the bus, and an owner
that had been on the bus when the call was made has left it for good. While `wait` is in `recv` and
its owner is not on the bus, the loss is in the signal stream or in the queue of the call's
receiver, or the next read is a lag, or the monitor has stopped. -/
theorem wait_neither_missed_nor_invented {es : List Label} {s : System} {k : ℕ} {c : Call}
    (hrun : machine.run machine.init es = some s) (hc : s.calls[k]? = some c) :
    (c.phase = .returned .ok →
      (∃ es₁ es₂ u, es = es₁ ++ es₂ ∧ machine.run machine.init es₁ = some u ∧
        u.AbsentDuring k c.owner) ∧
      (c.known → s.HasLeft c.owner)) ∧
    (c.phase.blocked → s.owner c.owner = "" →
      s.OnItsWay c ∨ s.Lagged c ∨ s.stopped = true) := by
  have hs : s.Invariant := System.invariant_initial.run hrun
  have hfits : s.CallFits c := hs.calls c (List.mem_of_getElem? hc)
  constructor
  · intro hphase
    have hsaw : c.phase.sawLoss := by
      rw [hphase]
      rfl
    refine ⟨?_, hfits.saw hsaw⟩
    have hnot : ¬ machine.init.SawLoss k c.owner := by
      rintro ⟨x, hx, -⟩
      cases hx
    exact Machine.exists_state_of_run (P := System.Invariant)
      (Q := fun u => u.SawLoss k c.owner) (fun _ _ _ h ht => h.step ht)
      (fun _ _ _ h ht hQ => System.sawLoss_step h ht hQ) System.invariant_initial hnot hrun
      ⟨c, hc, rfl, hsaw⟩
  · intro hblocked hgone
    have hexp : c.phase.expects := Phase.expects_of_blocked hblocked
    rcases hfits.coming hexp with hstopped | hpresent | hdrop
    · exact .inr (.inr hstopped)
    · exact absurd hgone hpresent
    · exact .inl (System.onItsWay_of_mem_drop (hfits.next (Phase.subscribed_of_expects hexp)) hdrop)

/-- A run in which the owner of a wait leaves while the wait is in `recv`. -/
def departure : List Label :=
  [.change ":1.7" ":1.7", .wait ":1.7", .init 0 .start, .init 0 .listen, .init 0 .finish,
    .call 0 .subscribe, .call 0 .answer, .call 0 .proceed, .call 0 .look, .call 0 .poll,
    .change ":1.7" "", .take]

/-- The wait reads the loss of the owner that was there, and returns. -/
theorem wait_neither_missed_nor_invented_ok :
    ∃ s c, machine.run machine.init (departure ++ [.handle, .call 0 .read]) = some s ∧
      s.calls[0]? = some c ∧ c.phase = .returned .ok ∧ s.HasLeft c.owner := by
  have hends : ∃ s c, machine.run machine.init (departure ++ [.handle, .call 0 .read]) = some s ∧
      s.calls[0]? = some c ∧ c.phase = .returned .ok ∧ c.known = true :=
    ⟨_, _, rfl, rfl, rfl, rfl⟩
  obtain ⟨s, c, hrun, hc, hphase, hknown⟩ := hends
  exact ⟨s, c, hrun, hc, hphase,
    ((wait_neither_missed_nor_invented hrun hc).1 hphase).2 hknown⟩

example : ∃ s c, machine.run machine.init departure = some s ∧ s.calls[0]? = some c ∧
    c.phase.blocked ∧ s.owner c.owner = "" ∧ s.unhandled.filterMap Signal.loss = [c.owner] :=
  ⟨_, _, rfl, rfl, rfl, rfl, rfl⟩

end DaemonFramework.Owner
