import DaemonFramework.Ingress.ConnectionLoop
import DaemonFramework.Output.Routes

/-!
# Releasing a consumer

`release_consumer` of the bridge and the branch of `dispatch` on the socket ask the output actor for
the ids of a consumer, have them cancelled one after the other, and tell the actor of each one that
was. A `Reading` says what the operations of a task are to that, so that one machine serves both:
the task of the release, and an actor that takes other commands at any time.

The machine remembers what the actor was like when it was asked, and for which ids another command
has changed the entry since. `Released` is the law that every run keeps.
-/

namespace DaemonFramework.Ingress.Release

open Output Resumption

/-- What an operation is to a release. -/
inductive Intent where
  /-- The ids of a consumer are asked for. -/
  | ask (route : ClientRoute)
  /-- The daemon is to cancel an id. -/
  | cancel (id : String)
  /-- The actor is told to drop an id. -/
  | drop (id : String)

/-- What has come of an operation. -/
inductive Move where
  /-- The actor has answered. -/
  | asked (route : ClientRoute) (ids : List String)
  /-- The daemon has accepted a cancellation, or it has not. -/
  | tried (id : String) (accepted : Bool)
  /-- The command to drop an id is in the queue. -/
  | dropped (id : String)
deriving DecidableEq

variable {Op : Type} {Ans : Op → Type}

/-- What the operations of a task, and the ends of its waits, are to a release. -/
structure Reading (Op : Type) (Ans : Op → Type) where
  /-- What an operation is. -/
  intent : Op → Option Intent
  /-- What the end of a wait is. -/
  move : Event Op Ans → Option Move
  /-- Only a question is answered. -/
  asked : ∀ {e route ids}, move e = some (.asked route ids) → intent e.op = some (.ask route)
  /-- Only a cancellation is accepted or not. -/
  tried : ∀ {e id ok}, move e = some (.tried id ok) → intent e.op = some (.cancel id)
  /-- Only a command is sent. -/
  dropped : ∀ {e id}, move e = some (.dropped id) → intent e.op = some (.drop id)

namespace Reading

/-- What a task has done. -/
def moves (reading : Reading Op Ans) (past : List (Event Op Ans)) : List Move :=
  past.filterMap reading.move

/-- When the task of a release may begin an operation: it asks once, has only ids cancelled that it
was told, and has only those dropped whose cancellation was accepted. -/
def Allowed (reading : Reading Op Ans) (route : ClientRoute) (past : List (Event Op Ans))
    (op : Op) : Prop :=
  match reading.intent op with
  | some (.ask r) => r = route ∧ ∀ other ids, .asked other ids ∉ reading.moves past
  | some (.cancel id) => ∃ ids, .asked route ids ∈ reading.moves past ∧ id ∈ ids
  | some (.drop id) => .tried id true ∈ reading.moves past
  | none => True

/-- The reply of a release that has cancelled so many ids. -/
def released (count : ℕ) : Value := .object [("released", .number (.posInt count.toUInt64))]

/-- The value is the reply of a release that has had all ids cancelled that it was told. -/
def Fulfilled (reading : Reading Op Ans) (route : ClientRoute) (past : List (Event Op Ans))
    (value : Value) : Prop :=
  ∃ ids, .asked route ids ∈ reading.moves past ∧ value = released ids.length ∧
    ∀ id ∈ ids, .tried id true ∈ reading.moves past

end Reading

/-! ## The machine -/

/-- A release and the actor. -/
structure State (Op : Type) (Ans : Op → Type) (R : Type) where
  /-- The state of the actor. -/
  actor : OutputState
  /-- The actor has ended. -/
  closed : Bool
  /-- What the task has still to do. -/
  task : Resumption Op Ans R
  /-- The waits of the task that have ended. -/
  past : List (Event Op Ans)
  /-- The ids that the actor is told to drop and has not dropped yet. -/
  queue : List String
  /-- The answer of the actor, and its state then. -/
  query : Option (List String × OutputState)
  /-- The ids whose entries other commands have changed since then. -/
  disturbed : Set String

/-- What happens next. -/
inductive Label (Op : Type) (Ans : Op → Type) where
  /-- The actor takes a command of another sender. -/
  | command (c : OutputCommand)
  /-- The actor ends. -/
  | close
  /-- A wait of the task ends. -/
  | wake (e : Event Op Ans)
  /-- The actor drops an id that it was told. -/
  | deliver

namespace State

variable {R : Type}

/-- The actor has taken a command of another sender. -/
def commanded (s : State Op Ans R) (c : OutputCommand) : State Op Ans R :=
  { s with
    actor := (emitCommand s.actor c).state
    closed := !(emitCommand s.actor c).result.isOk
    disturbed := s.disturbed ∪ {id | (emitCommand s.actor c).state.activeIds.lookup id ≠
      s.actor.activeIds.lookup id} }

/-- A wait of the task has ended. -/
def woken (s : State Op Ans R) (e : Event Op Ans) (task : Resumption Op Ans R) : State Op Ans R :=
  { s with task := task, past := s.past ++ [e] }

/-- The actor may answer so: with the ids that it has, in any order, or not at all if it has
ended. -/
def Answers (s : State Op Ans R) (route : ClientRoute) (ids : List String) : Prop :=
  ids = [] ∨ s.closed = false ∧ ids.Perm (s.actor.ownedIds route.consumerId route.generation)

instance (s : State Op Ans R) (route : ClientRoute) (ids : List String) :
    Decidable (s.Answers route ids) := by
  unfold Answers
  infer_instance

/-- What comes with the end of a wait. -/
def moved (s : State Op Ans R) : Option Move → Option (State Op Ans R)
  | some (.asked route ids) =>
    if s.Answers route ids then some { s with query := some (ids, s.actor), disturbed := ∅ }
    else none
  | some (.dropped id) => some { s with queue := s.queue ++ [id] }
  | _ => some s

end State

/-- A task and an actor. -/
def machine {R : Type} [DecidableEq Op] (reading : Reading Op Ans) (actor : OutputState)
    (task : Resumption Op Ans R) : Machine (State Op Ans R) (Label Op Ans) where
  init := ⟨actor, false, task, [], [], none, ∅⟩
  step s
    | .command c => if s.closed = false then some (s.commanded c) else none
    | .close => some { s with closed := true }
    | .wake e => (s.task.resume e).bind fun task => (s.moved (reading.move e)).map fun t =>
      t.woken e task
    | .deliver =>
      match s.closed, s.queue with
      | false, id :: queue => some { s with actor := s.actor.cancelled id, queue := queue }
      | _, _ => none

/-! ## The law -/

/-- The task has begun an operation that is this to the release. -/
def Begun {R : Type} (reading : Reading Op Ans) (s : State Op Ans R) (intent : Intent) : Prop :=
  (∃ e ∈ s.past, reading.intent e.op = some intent) ∨
    ∃ op, s.task.current = some op ∧ reading.intent op = some intent

/-- What a release keeps to. -/
structure Released {R : Type} [DecidableEq Op] (reading : Reading Op Ans) (actor : OutputState)
    (task : Resumption Op Ans R) (outcome : R → Option Value) (route : ClientRoute)
    (s : State Op Ans R) : Prop where
  /-- Only ids of the consumer are cancelled, as the actor has told them. -/
  cancels : ∀ id, Begun reading s (.cancel id) → ∃ ids asked, s.query = some (ids, asked) ∧
    id ∈ ids ∧ id ∈ asked.ownedIds route.consumerId route.generation
  /-- The waits of the task leave the actor as it is. -/
  waits : ∀ e t, (machine reading actor task).step s (.wake e) = some t → t.actor = s.actor
  /-- The release drops only ids that it was told and whose cancellation was accepted, and of these
  only entries of the consumer, unless another command has changed them. -/
  drops : ∀ t, (machine reading actor task).step s .deliver = some t →
    ∀ id, t.actor.activeIds.lookup id ≠ s.actor.activeIds.lookup id →
      id ∉ t.actor.activeIds ∧ .tried id true ∈ reading.moves s.past ∧
        (∃ ids asked, s.query = some (ids, asked) ∧ id ∈ ids) ∧
          (id ∉ s.disturbed → id ∈ s.actor.ownedIds route.consumerId route.generation)
  /-- An id whose cancellation was not accepted is as it was when the actor was asked, unless another
  command has changed its entry; so the actor will tell it again. -/
  retains : ∀ ids asked, s.query = some (ids, asked) → ∀ id ∈ ids,
    .tried id true ∉ reading.moves s.past → id ∉ s.disturbed →
      s.actor.activeIds.lookup id = asked.activeIds.lookup id ∧
        id ∈ s.actor.ownedIds route.consumerId route.generation
  /-- A success says how many ids the actor has told, and all of them were cancelled. -/
  replies : ∀ r, s.task = .done r → ∀ value, outcome r = some value →
    ∃ ids asked, s.query = some (ids, asked) ∧ value = Reading.released ids.length ∧
      ∀ id ∈ ids, .tried id true ∈ reading.moves s.past

/-! ## Every run keeps to the law -/

section Runs

variable {R : Type} {reading : Reading Op Ans} {route : ClientRoute} {outcome : R → Option Value}
  {past : List (Event Op Ans)}

/-- What one more wait adds. -/
theorem moves_concat (e : Event Op Ans) :
    reading.moves (past ++ [e]) = reading.moves past ++ (reading.move e).toList := by
  unfold Reading.moves
  rw [List.filterMap_append]
  cases h : reading.move e <;> simp [h]

/-- What has come stays. -/
theorem mem_moves_append {m : Move} (h : m ∈ reading.moves past) (more : List (Event Op Ans)) :
    m ∈ reading.moves (past ++ more) := by
  unfold Reading.moves at h ⊢
  rw [List.filterMap_append]
  exact List.mem_append_left _ h

/-- What a task with its past has to keep to. -/
structure Invariant (reading : Reading Op Ans) (route : ClientRoute) (outcome : R → Option Value)
    (s : State Op Ans R) : Prop where
  /-- The task keeps to its conduct, in all that it may still do. -/
  upholds : s.task.Upholds (reading.Allowed route)
    (fun past r => ∀ value, outcome r = some value → reading.Fulfilled route past value) s.past
  /-- It has done so. -/
  kept : Kept (reading.Allowed route) s.past
  /-- The actor has not answered before it was asked. -/
  unasked : s.query = none → ∀ other ids, .asked other ids ∉ reading.moves s.past
  /-- The actor has answered once. -/
  asked : ∀ ids q, s.query = some (ids, q) → .asked route ids ∈ reading.moves s.past ∧
    ∀ other ids', .asked other ids' ∈ reading.moves s.past → ids' = ids
  /-- The answer was what the consumer had. -/
  owned : ∀ ids q, s.query = some (ids, q) → ∀ id ∈ ids,
    id ∈ q.ownedIds route.consumerId route.generation
  /-- The actor is told to drop only what was cancelled. -/
  queued : ∀ id ∈ s.queue, .tried id true ∈ reading.moves s.past
  /-- An entry that no other command has changed is as it was, or was dropped. -/
  intact : ∀ ids q, s.query = some (ids, q) → ∀ id, id ∉ s.disturbed →
    s.actor.activeIds.lookup id = q.activeIds.lookup id ∨
      .tried id true ∈ reading.moves s.past ∧ s.actor.activeIds.lookup id = none

namespace Invariant

variable {s t : State Op Ans R}

/-- The ids that a task has cancelled are among those that it was told. -/
theorem told (h : Invariant reading route outcome s) {id : String}
    (hids : ∃ ids, .asked route ids ∈ reading.moves s.past ∧ id ∈ ids) :
    ∃ ids q, s.query = some (ids, q) ∧ id ∈ ids := by
  obtain ⟨ids, hasked, hid⟩ := hids
  cases hquery : s.query with
  | none => exact absurd hasked (h.unasked hquery route ids)
  | some query =>
    obtain ⟨ids', q⟩ := query
    obtain rfl : ids = ids' := (h.asked ids' q hquery).2 route ids hasked
    exact ⟨ids, q, rfl, hid⟩

/-- An operation of the past was allowed. -/
theorem allowed_of_mem (h : Invariant reading route outcome s) {e : Event Op Ans}
    (he : e ∈ s.past) : ∃ before after, s.past = before ++ after ∧
      reading.Allowed route before e.op := by
  obtain ⟨before, after, hsplit⟩ := List.append_of_mem he
  exact ⟨before, e :: after, hsplit, h.kept before e after hsplit⟩

/-- A cancellation that was begun is of an id that the task was told. -/
theorem told_of_begun (h : Invariant reading route outcome s) {id : String}
    (hbegun : Begun reading s (.cancel id)) : ∃ ids q, s.query = some (ids, q) ∧ id ∈ ids := by
  refine h.told ?_
  rcases hbegun with ⟨e, he, hintent⟩ | ⟨op, hop, hintent⟩
  · obtain ⟨before, after, hsplit, hallowed⟩ := h.allowed_of_mem he
    simp only [Reading.Allowed, hintent] at hallowed
    obtain ⟨ids, hasked, hid⟩ := hallowed
    exact ⟨ids, hsplit ▸ mem_moves_append hasked after, hid⟩
  · have hallowed := h.upholds.current hop
    simpa only [Reading.Allowed, hintent] using hallowed

/-- So is one that has ended. -/
theorem told_of_tried (h : Invariant reading route outcome s) {id : String} {ok : Bool}
    (htried : .tried id ok ∈ reading.moves s.past) :
    ∃ ids q, s.query = some (ids, q) ∧ id ∈ ids := by
  obtain ⟨e, he, hmove⟩ := List.mem_filterMap.1 htried
  exact h.told_of_begun (.inl ⟨e, he, reading.tried hmove⟩)

/-- The actor takes a command of another sender. -/
theorem commanded (h : Invariant reading route outcome s) (c : OutputCommand) :
    Invariant reading route outcome (s.commanded c) where
  upholds := h.upholds
  kept := h.kept
  unasked := h.unasked
  asked := h.asked
  owned := h.owned
  queued := h.queued
  intact ids q hquery id hid := by
    have hid' : id ∉ s.disturbed := fun hmem => hid (.inl hmem)
    have hsame : (emitCommand s.actor c).state.activeIds.lookup id =
        s.actor.activeIds.lookup id := by
      by_contra hne
      exact hid (.inr hne)
    show (emitCommand s.actor c).state.activeIds.lookup id = _ ∨ _ ∧
      (emitCommand s.actor c).state.activeIds.lookup id = none
    rw [hsame]
    exact h.intact ids q hquery id hid'

/-- The actor drops an id that it was told. -/
theorem delivered (h : Invariant reading route outcome s) {id : String} {queue : List String}
    (hqueue : s.queue = id :: queue) :
    Invariant reading route outcome { s with actor := s.actor.cancelled id, queue := queue } where
  upholds := h.upholds
  kept := h.kept
  unasked := h.unasked
  asked := h.asked
  owned := h.owned
  queued other hother := h.queued other (by rw [hqueue]; exact List.mem_cons_of_mem _ hother)
  intact ids q hquery other hother := by
    have hdropped : .tried id true ∈ reading.moves s.past :=
      h.queued id (by rw [hqueue]; exact List.mem_cons_self)
    dsimp only
    rw [OutputState.cancelled_activeIds]
    by_cases heq : other = id
    · subst heq
      exact .inr ⟨hdropped, AList.lookup_erase other _⟩
    · rw [AList.lookup_erase_ne heq]
      exact h.intact ids q hquery other hother

/-- A wait of the task ends. -/
theorem woken [DecidableEq Op] (h : Invariant reading route outcome s) {e : Event Op Ans}
    {task : Resumption Op Ans R} (hresume : s.task.resume e = some task)
    (hmoved : s.moved (reading.move e) = some t) :
    Invariant reading route outcome (t.woken e task) := by
  have hallowed : reading.Allowed route s.past e.op :=
    h.upholds.current (current_of_resume hresume)
  have hupholds := h.upholds.resume hresume
  have hkept : Kept (reading.Allowed route) (s.past ++ [e]) := h.kept.concat hallowed
  -- What the wait adds, if it is not the answer to a question.
  have hold : ∀ other ids, reading.move e ≠ some (.asked other ids) →
      .asked other ids ∈ reading.moves (s.past ++ [e]) →
        .asked other ids ∈ reading.moves s.past := by
    intro other ids hne hmem
    rw [moves_concat, List.mem_append, Option.mem_toList] at hmem
    exact hmem.resolve_right hne
  have hnew : ∀ m, m ∈ reading.moves s.past → m ∈ reading.moves (s.past ++ [e]) :=
    fun m hm => mem_moves_append hm [e]
  have hquiet : (∀ other ids, reading.move e ≠ some (.asked other ids)) →
      Invariant reading route outcome ({ s with queue := [] }.woken e task) := by
    intro hne
    constructor
    · exact hupholds
    · exact hkept
    · exact fun hquery other ids hmem => h.unasked hquery other ids (hold other ids (hne _ _) hmem)
    · intro ids q hquery
      obtain ⟨hasked, honce⟩ := h.asked ids q hquery
      exact ⟨hnew _ hasked,
        fun other ids' hmem => honce other ids' (hold other ids' (hne _ _) hmem)⟩
    · exact h.owned
    · exact nofun
    · intro ids q hquery id hid
      exact (h.intact ids q hquery id hid).imp_right fun hdropped => ⟨hnew _ hdropped.1, hdropped.2⟩
  cases hmove : reading.move e with
  | none =>
    rw [hmove] at hmoved
    obtain rfl : s = t := Option.some.inj hmoved
    have hinv := hquiet fun other ids heq => by rw [hmove] at heq; cases heq
    exact ⟨hinv.upholds, hinv.kept, hinv.unasked, hinv.asked, hinv.owned,
      fun id hid => hnew _ (h.queued id hid), hinv.intact⟩
  | some move =>
    rw [hmove] at hmoved
    cases move with
    | asked other ids =>
      simp only [State.moved, Option.ite_none_right_eq_some, Option.some.injEq] at hmoved
      obtain ⟨hanswers, rfl⟩ := hmoved
      simp only [Reading.Allowed, reading.asked hmove] at hallowed
      obtain ⟨rfl, hfirst⟩ := hallowed
      constructor
      · exact hupholds
      · exact hkept
      · exact nofun
      · intro ids' q hquery
        obtain ⟨rfl, rfl⟩ := Prod.mk.inj (Option.some.inj hquery)
        refine ⟨?_, fun other' ids'' hmem => ?_⟩
        · show Move.asked _ _ ∈ reading.moves (s.past ++ [e])
          rw [moves_concat, hmove]
          exact List.mem_append_right _ (List.mem_singleton.2 rfl)
        · have hmem : Move.asked other' ids'' ∈ reading.moves (s.past ++ [e]) := hmem
          rw [moves_concat, hmove, List.mem_append] at hmem
          have hlast := hmem.resolve_left (hfirst other' ids'')
          have heq : Move.asked other' ids'' = Move.asked other ids := List.mem_singleton.1 hlast
          exact (Move.asked.inj heq).2
      · intro ids' q hquery id hid
        obtain ⟨rfl, rfl⟩ := Prod.mk.inj (Option.some.inj hquery)
        rcases hanswers with rfl | ⟨-, hperm⟩
        · cases hid
        · exact hperm.mem_iff.1 hid
      · exact fun id hid => hnew _ (h.queued id hid)
      · intro ids' q hquery id _
        obtain ⟨rfl, rfl⟩ := Prod.mk.inj (Option.some.inj hquery)
        exact .inl rfl
    | tried id ok =>
      obtain rfl : s = t := Option.some.inj hmoved
      have hinv := hquiet fun other ids heq => by rw [hmove] at heq; cases heq
      exact ⟨hinv.upholds, hinv.kept, hinv.unasked, hinv.asked, hinv.owned,
        fun id hid => hnew _ (h.queued id hid), hinv.intact⟩
    | dropped id =>
      obtain rfl := Option.some.inj hmoved
      have hinv := hquiet fun other ids heq => by rw [hmove] at heq; cases heq
      simp only [Reading.Allowed, reading.dropped hmove] at hallowed
      refine ⟨hinv.upholds, hinv.kept, hinv.unasked, hinv.asked, hinv.owned, fun other hother => ?_,
        hinv.intact⟩
      rcases List.mem_append.1 hother with hother | hother
      · exact hnew _ (h.queued other hother)
      · obtain rfl := List.mem_singleton.1 hother
        exact hnew _ hallowed

/-- What a step keeps. -/
theorem step [DecidableEq Op] (h : Invariant reading route outcome s) {actor : OutputState}
    {task : Resumption Op Ans R} {label : Label Op Ans}
    (hstep : (machine reading actor task).step s label = some t) :
    Invariant reading route outcome t := by
  cases label with
  | command c =>
    obtain ⟨-, rfl⟩ := Machine.guarded_eq_some.1 hstep
    exact h.commanded c
  | close =>
    obtain rfl := Option.some.inj hstep
    exact ⟨h.upholds, h.kept, h.unasked, h.asked, h.owned, h.queued, h.intact⟩
  | wake e =>
    obtain ⟨next, hresume, hmap⟩ := Option.bind_eq_some_iff.1 hstep
    obtain ⟨u, hmoved, rfl⟩ := Option.map_eq_some_iff.1 hmap
    exact h.woken hresume hmoved
  | deliver =>
    simp only [machine] at hstep
    split at hstep
    · rename_i id queue hclosed hqueue
      obtain rfl := Option.some.inj hstep
      exact h.delivered hqueue
    · cases hstep

/-- What holds where the invariant does. -/
theorem released [DecidableEq Op] (h : Invariant reading route outcome s) (actor : OutputState)
    (task : Resumption Op Ans R) : Released reading actor task outcome route s where
  cancels id hbegun := by
    obtain ⟨ids, q, hquery, hid⟩ := h.told_of_begun hbegun
    exact ⟨ids, q, hquery, hid, h.owned ids q hquery id hid⟩
  waits e t hstep := by
    obtain ⟨next, -, hmap⟩ := Option.bind_eq_some_iff.1 hstep
    obtain ⟨u, hmoved, rfl⟩ := Option.map_eq_some_iff.1 hmap
    unfold State.moved at hmoved
    split at hmoved
    · simp only [Option.ite_none_right_eq_some, Option.some.injEq] at hmoved
      obtain ⟨-, rfl⟩ := hmoved
      rfl
    · obtain rfl := Option.some.inj hmoved
      rfl
    · obtain rfl := Option.some.inj hmoved
      rfl
  drops t hstep id hne := by
    simp only [machine] at hstep
    split at hstep
    · rename_i first queue hclosed hqueue
      obtain rfl := Option.some.inj hstep
      simp only [OutputState.cancelled_activeIds] at hne ⊢
      -- The entry that has changed is that of the id that was dropped.
      have heq : id = first := by
        by_contra hother
        exact hne (AList.lookup_erase_ne hother)
      subst heq
      have htried : .tried id true ∈ reading.moves s.past :=
        h.queued id (by rw [hqueue]; exact List.mem_cons_self)
      obtain ⟨ids, q, hquery, hid⟩ := h.told_of_tried htried
      refine ⟨by simp, htried, ⟨ids, q, hquery, hid⟩, fun hquiet => ?_⟩
      rw [AList.lookup_erase] at hne
      have hsame := (h.intact ids q hquery id hquiet).resolve_right fun hdropped =>
        hne hdropped.2.symm
      rw [mem_ownedIds_iff, hsame, ← mem_ownedIds_iff]
      exact h.owned ids q hquery id hid
    · cases hstep
  retains ids q hquery id hid htried hquiet := by
    have hsame := (h.intact ids q hquery id hquiet).resolve_right fun hdropped => htried hdropped.1
    refine ⟨hsame, ?_⟩
    rw [mem_ownedIds_iff, hsame, ← mem_ownedIds_iff]
    exact h.owned ids q hquery id hid
  replies r hdone value hvalue := by
    have hfinished := h.upholds
    rw [hdone] at hfinished
    obtain ⟨ids, hasked, hreply, hall⟩ := hfinished value hvalue
    cases hquery : s.query with
    | none => exact absurd hasked (h.unasked hquery route ids)
    | some query =>
      obtain ⟨ids', q⟩ := query
      obtain rfl : ids = ids' := (h.asked ids' q hquery).2 route ids hasked
      exact ⟨ids, q, rfl, hreply, hall⟩

end Invariant

/-- A task that keeps to the conduct of a release keeps to the law in every run. -/
theorem released_of_run [DecidableEq Op] {actor : OutputState} {task : Resumption Op Ans R}
    (htask : task.Upholds (reading.Allowed route)
      (fun past r => ∀ value, outcome r = some value → reading.Fulfilled route past value) [])
    {labels : List (Label Op Ans)} {s : State Op Ans R}
    (hrun : (machine reading actor task).run (machine reading actor task).init labels = some s) :
    Released reading actor task outcome route s := by
  have hinit : Invariant reading route outcome (machine reading actor task).init :=
    ⟨htask, .nil, fun _ _ _ => List.not_mem_nil, nofun, nofun, nofun, nofun⟩
  have hinv : Invariant reading route outcome s :=
    Machine.invariant_of_run (P := Invariant reading route outcome)
      (fun _ _ _ h hstep => h.step hstep) hinit hrun
  exact hinv.released actor task

end Runs

/-! ## What both tasks do -/

section Tasks

variable {reading : Reading Op Ans} {route : ClientRoute} {past : List (Event Op Ans)}
  {all ids : List String}

/-- The task was told the ids `all`, and has had all of them cancelled but `ids`. -/
structure Cancelling (reading : Reading Op Ans) (route : ClientRoute) (all ids : List String)
    (past : List (Event Op Ans)) : Prop where
  /-- The actor has told them. -/
  asked : .asked route all ∈ reading.moves past
  /-- Those that are left are some of them. -/
  left : ∀ id ∈ ids, id ∈ all
  /-- The others were cancelled. -/
  done : ∀ id ∈ all, id ∈ ids ∨ .tried id true ∈ reading.moves past

/-- Further waits change nothing about that. -/
theorem Cancelling.concat (h : Cancelling reading route all ids past) (e : Event Op Ans) :
    Cancelling reading route all ids (past ++ [e]) where
  asked := mem_moves_append h.asked [e]
  left := h.left
  done id hid := (h.done id hid).imp_right fun htried => mem_moves_append htried [e]

/-- What was achieved stays so. -/
theorem Reading.Fulfilled.append {value : Value} (h : reading.Fulfilled route past value)
    (more : List (Event Op Ans)) : reading.Fulfilled route (past ++ more) value := by
  obtain ⟨ids, hasked, hvalue, hall⟩ := h
  exact ⟨ids, mem_moves_append hasked more, hvalue,
    fun id hid => mem_moves_append (hall id hid) more⟩

/-- After the last one, all were cancelled. -/
theorem Cancelling.fulfilled (h : Cancelling reading route all [] past) :
    reading.Fulfilled route past (Reading.released all.length) :=
  ⟨all, h.asked, rfl, fun id hid => (h.done id hid).resolve_left List.not_mem_nil⟩

/-- One more was cancelled. -/
theorem Cancelling.next {id : String} (h : Cancelling reading route all (id :: ids) past)
    (htried : .tried id true ∈ reading.moves past) : Cancelling reading route all ids past where
  asked := h.asked
  left other hother := h.left other (List.mem_cons_of_mem _ hother)
  done other hother := by
    rcases h.done other hother with hmem | hdone
    · rcases List.mem_cons.1 hmem with rfl | hmem
      · exact .inr htried
      · exact .inl hmem
    · exact .inr hdone

/-- An operation that is nothing to a release may be begun at any time. -/
theorem allowed_of_none {op : Op} (hop : reading.intent op = none) :
    reading.Allowed route past op := by
  simp only [Reading.Allowed, hop]

/-- The next id may be cancelled. -/
theorem Cancelling.allowed {op : Op} {id : String} (hop : reading.intent op = some (.cancel id))
    (h : Cancelling reading route all (id :: ids) past) : reading.Allowed route past op := by
  simp only [Reading.Allowed, hop]
  exact ⟨all, h.asked, h.left id List.mem_cons_self⟩

/-- An id that was cancelled may be dropped. -/
theorem allowed_drop {op : Op} {id : String} (hop : reading.intent op = some (.drop id))
    (h : .tried id true ∈ reading.moves past) : reading.Allowed route past op := by
  simp only [Reading.Allowed, hop]
  exact h

/-- The first question may be asked. -/
theorem allowed_ask {op : Op} (hop : reading.intent op = some (.ask route))
    (h : reading.moves past = []) : reading.Allowed route past op := by
  simp only [Reading.Allowed, hop, h]
  exact ⟨trivial, fun _ _ => List.not_mem_nil⟩

/-- With the answer, all ids are left to be cancelled. -/
theorem Cancelling.start {e : Event Op Ans} (he : reading.move e = some (.asked route all)) :
    Cancelling reading route all all (past ++ [e]) where
  asked := by
    rw [moves_concat, he]
    exact List.mem_append_right _ (List.mem_singleton.2 rfl)
  left _ hid := hid
  done _ hid := .inl hid

/-- A cancellation that was accepted. -/
theorem mem_tried {e : Event Op Ans} {id : String} (he : reading.move e = some (.tried id true)) :
    .tried id true ∈ reading.moves (past ++ [e]) := by
  rw [moves_concat, he]
  exact List.mem_append_right _ (List.mem_singleton.2 rfl)

end Tasks

/-! ## The bridge -/

section Bridge

open Ingress.Bridge

/-- What the operations of the bridge are to a release. -/
def bridge : Reading Bridge.Op Bridge.Op.Answer where
  intent
    | .ownedIds route => some (.ask route)
    | .invoke (.cancel id) => some (.cancel id)
    | .send (.cancelled id) => some (.drop id)
    | _ => none
  move
    | ⟨.ownedIds route, .answered ids⟩ => some (.asked route ids)
    | ⟨.invoke (.cancel id), .answered (.ok response)⟩ =>
      some (.tried id (cancellationSucceeded response))
    | ⟨.invoke (.cancel id), _⟩ => some (.tried id false)
    | ⟨.send (.cancelled id), .answered (.ok ())⟩ => some (.dropped id)
    | _ => none
  asked h := by
    split at h
    · rw [(Move.asked.inj (Option.some.inj h)).1]
    all_goals simp at h
  tried h := by split at h <;> simp_all
  dropped h := by split at h <;> simp_all

/-- The value of the reply that the task of a request ends with. -/
def bridgeOutcome : OutputCommand → Option Value
  | .response _ (.ok value) _ _ => some value
  | _ => none

variable {route : ClientRoute} {past : List (Event Bridge.Op Bridge.Op.Answer)}
  {all ids : List String}

/-- An operation that is nothing to a release. -/
theorem bridge_plain {op : Bridge.Op} (hop : bridge.intent op = none)
    (h : Cancelling bridge route all ids past) :
    (perform op : Future op.Answer).Upholds (bridge.Allowed route)
      (fun past _ => Cancelling bridge route all ids past) past :=
  Upholds.perform (allowed_of_none hop) fun _ => h.concat _

/-- The daemon is asked to cancel the next id. -/
theorem cancelJson_spec {id : String} (h : Cancelling bridge route all (id :: ids) past) :
    (cancelJson id).Upholds (bridge.Allowed route) (fun past r =>
      Cancelling bridge route all (id :: ids) past ∧ ∀ response, r = .ok response →
        cancellationSucceeded response → .tried id true ∈ bridge.moves past) past := by
  apply (bridge_plain rfl h).andThen
  · intro past _ h
    apply Upholds.perform (h.allowed rfl)
    intro r
    refine ⟨h.concat _, ?_⟩
    rintro response rfl hsucceeded
    refine mem_tried ?_
    show some (Move.tried id (cancellationSucceeded response)) = _
    rw [hsucceeded]
  · intro past e h
    exact ⟨h, fun response hok => by cases hok⟩

/-- The loop of `release_consumer` has all ids cancelled, or fails. -/
theorem bridge_releaseIds (h : Cancelling bridge route all ids past) :
    (releaseIds all.length ids).Upholds (bridge.Allowed route)
      (fun past r => ∀ value, r = .ok value → bridge.Fulfilled route past value) past := by
  induction ids generalizing past with
  | nil =>
    intro value hvalue
    obtain rfl := Except.ok.inj hvalue
    exact h.fulfilled
  | cons id ids ih =>
    apply (bridge_plain rfl h).andThen _ fun _ _ _ value hvalue => by cases hvalue
    intro past _ h
    apply (cancelJson_spec h).andThen _ fun _ _ _ value hvalue => by cases hvalue
    rintro past response ⟨h, hcancelled⟩
    split_ifs with hsucceeded
    · have htried := hcancelled response rfl hsucceeded
      have hsend : (send (.cancelled id)).Upholds (bridge.Allowed route)
          (fun past _ => Cancelling bridge route all ids past) past :=
        Upholds.perform (allowed_drop rfl htried) fun _ => (h.next htried).concat _
      exact hsend.andThen (fun past _ h => ih h) fun _ _ _ value hvalue => by cases hvalue
    · intro value hvalue
      cases hvalue

/-- A deadline makes a release fail. -/
theorem bridge_timeout {milliseconds : ℕ} {future : Future (Except String Value)}
    (h : future.Upholds (bridge.Allowed route)
      (fun past r => ∀ value, r = .ok value → bridge.Fulfilled route past value) past) :
    (withTransportTimeout milliseconds future).Upholds (bridge.Allowed route)
      (fun past r => ∀ value, r = .ok value → bridge.Fulfilled route past value) past := by
  apply Upholds.bind
  apply Upholds.timeout h
  intro past op i _
  have hsend : (send (.transportError s!"daemon request timed out after {milliseconds}ms")).Upholds
      (bridge.Allowed route) (fun _ _ => True) (past ++ [⟨op, .expired i⟩]) :=
    Upholds.perform (allowed_of_none rfl) fun _ => trivial
  refine hsend.andThen (fun _ _ _ value hvalue => ?_) fun _ _ _ value hvalue => ?_
  · cases hvalue
  · cases hvalue

/-- The task of a release on the bridge keeps to its conduct. -/
theorem bridge_release (id : String) (route : ClientRoute) :
    (executeRequest ⟨.release id, some route⟩).Upholds (bridge.Allowed route)
      (fun past r => ∀ value, bridgeOutcome r = some value → bridge.Fulfilled route past value)
      [] := by
  apply Upholds.bind
  apply Upholds.bind
  apply Upholds.perform (allowed_ask rfl rfl)
  intro ids
  have hstart : Cancelling bridge route ids ids ([] ++ [⟨.ownedIds route, .answered ids⟩]) :=
    .start rfl
  apply (bridge_timeout (bridge_releaseIds hstart)).mono
  intro past r hr value hvalue
  cases r with
  | ok result =>
    obtain rfl : result = value := Option.some.inj hvalue
    exact hr result rfl
  | error error => cases hvalue

end Bridge

/-! ## The socket -/

section Socket

open Ingress.Socket

/-- What the operations of the work on a socket are to a release. -/
def socket : Reading WorkOp WorkOp.Answer where
  intent
    | .ownedIds route => some (.ask route)
    | .invoke (.cancel id) => some (.cancel id)
    | .send (.cancelled id) => some (.drop id)
    | _ => none
  move
    | ⟨.ownedIds route, .answered ids⟩ => some (.asked route ids)
    | ⟨.invoke (.cancel id), .answered (.ok response)⟩ =>
      some (.tried id (cancellationSucceeded response))
    | ⟨.invoke (.cancel id), _⟩ => some (.tried id false)
    | ⟨.send (.cancelled id), .answered (.ok ())⟩ => some (.dropped id)
    | _ => none
  asked h := by
    split at h
    · rw [(Move.asked.inj (Option.some.inj h)).1]
    all_goals simp at h
  tried h := by split at h <;> simp_all
  dropped h := by split at h <;> simp_all

/-- The value that the work ends with. -/
def socketOutcome : WorkResult → Option Value
  | .ok (.ok (value, _)) => some value
  | _ => none

variable {route : ClientRoute} {past : List (Event WorkOp WorkOp.Answer)} {all ids : List String}

/-- The loop of `dispatch` has all ids cancelled, or fails. -/
theorem socket_releaseIds (h : Cancelling socket route all ids past) :
    (releaseIds all.length ids).Upholds (socket.Allowed route)
      (fun past r => ∀ value, r = .ok value → socket.Fulfilled route past value.1) past := by
  induction ids generalizing past with
  | nil =>
    intro value hvalue
    obtain rfl := Except.ok.inj hvalue
    exact h.fulfilled
  | cons id ids ih =>
    -- One id is cancelled by a call of its own.
    have hinvoke : (invoke (.cancel id)).Upholds (socket.Allowed route) (fun past r =>
        Cancelling socket route all (id :: ids) past ∧ ∀ response, r = .ok response →
          cancellationSucceeded response → .tried id true ∈ socket.moves past) past := by
      apply Upholds.perform (h.allowed rfl)
      intro r
      refine ⟨h.concat _, ?_⟩
      rintro response rfl hsucceeded
      refine mem_tried ?_
      show some (Move.tried id (cancellationSucceeded response)) = _
      rw [hsucceeded]
    apply hinvoke.andThen _ fun _ _ _ value hvalue => by cases hvalue
    rintro past response ⟨h, hcancelled⟩
    split_ifs with hsucceeded
    -- The output learns of it, and the loop goes on; it ends with the first cancellation that
    -- fails.
    · have htried := hcancelled response rfl hsucceeded
      have hsend : (send (.cancelled id)).Upholds (socket.Allowed route)
          (fun past _ => Cancelling socket route all ids past) past := by
        apply Upholds.bind
        apply Upholds.perform (allowed_drop rfl htried)
        intro r
        cases r with
        | ok _ => exact (h.next htried).concat _
        | error _ => exact (h.next htried).concat _
      exact hsend.andThen (fun past _ h => ih h) fun _ _ _ value hvalue => by cases hvalue
    · intro value hvalue
      cases hvalue

/-- What the work does after `dispatch`. -/
def conclude (result : Except String (Value × Option String)) : Work WorkResult :=
  isClosed.bind fun closed =>
    if closed then
      disconnected.bind fun
        | .ok () => .done (.ok result)
        | .error panic => .done (.error panic)
    else .done (.ok result)

/-- The work on a release keeps to its conduct. -/
theorem socket_release (id : String) (route : ClientRoute) :
    (work ⟨.release id, some route⟩).Upholds (socket.Allowed route)
      (fun past r => ∀ value, socketOutcome r = some value → socket.Fulfilled route past value)
      [] := by
  -- What `dispatch` returns has been fulfilled.
  have hdispatch : (dispatch (.release id) (some route)).Upholds (socket.Allowed route)
      (fun past r => ∀ value, r = .ok value → socket.Fulfilled route past value.1) [] := by
    apply Upholds.bind
    apply Upholds.perform (allowed_of_none rfl)
    intro closed
    split_ifs
    · intro value hvalue
      cases hvalue
    · apply Upholds.bind
      apply Upholds.perform (allowed_ask rfl rfl)
      intro ids
      exact socket_releaseIds (.start rfl)
  -- What follows it replies with nothing else, closed connection or not.
  have hrest : ∀ (past : List (Event WorkOp WorkOp.Answer))
      (result : Except String (Value × Option String)),
      (∀ value, result = .ok value → socket.Fulfilled route past value.1) →
        (conclude result).Upholds (socket.Allowed route)
          (fun past r => ∀ value, socketOutcome r = some value →
            socket.Fulfilled route past value) past := by
    intro past result hresult
    have hout : ∀ more value, socketOutcome (.ok result) = some value →
        socket.Fulfilled route (past ++ more) value := by
      intro more value hvalue
      cases result with
      | ok result =>
        obtain rfl : result.1 = value := Option.some.inj hvalue
        exact (hresult result rfl).append more
      | error error => cases hvalue
    apply Upholds.bind
    apply Upholds.perform (allowed_of_none rfl)
    intro closed
    split_ifs
    · apply Upholds.bind
      apply Upholds.perform (allowed_of_none rfl)
      intro r
      cases r with
      | ok _ =>
        intro value hvalue
        rw [List.append_assoc]
        exact hout _ value hvalue
      | error panic =>
        intro value hvalue
        cases hvalue
    · exact fun value hvalue => hout _ value hvalue
  apply Upholds.bind
  apply Upholds.bind
  apply hdispatch.mono
  intro past r hr
  cases r with
  | ok result =>
    exact hrest past (.ok result) fun value hvalue => hr value (congrArg _ (Except.ok.inj hvalue))
  | error failure =>
    cases failure with
    | error error => exact hrest past (.error error) fun value hvalue => by cases hvalue
    | panic panic => exact hrest past (.error _) fun value hvalue => by cases hvalue

/-- When the task that waits for the work may begin an operation: it replies with a value only if
the work has ended with it. -/
def Relays (past : List (Event WaiterOp WaiterOp.Answer)) (op : WaiterOp) : Prop :=
  ∀ id value cancelled route, op = .send (.response id (.ok value) cancelled route) →
    ⟨.join, .answered (.ok (.ok (value, cancelled)))⟩ ∈ past

/-- The task that waits for the work relays its value, or replies with none. -/
theorem waiter_relays (message : ClientMessage) :
    (waiter message).Upholds Relays (fun _ _ => True) [] := by
  have hsend : ∀ past command, Relays past (.send command) →
      (sendReply command).Upholds Relays (fun _ _ => True) past :=
    fun past command h => Upholds.bind (Upholds.perform h fun _ => trivial)
  -- The replies without a value say that the outcome is not known.
  have hunknown : ∀ past, (unknown message).Upholds Relays
      (fun past command => (sendReply command).Upholds Relays (fun _ _ => True) past) past := by
    intro past
    unfold unknown
    split_ifs
    · exact hsend past _ fun id value cancelled route heq => by cases heq
    · apply Upholds.bind
      refine Upholds.perform (fun id value cancelled route heq => by cases heq) fun _ => ?_
      exact hsend _ _ fun id value cancelled route heq => by cases heq
  apply Upholds.bind
  apply Upholds.bind
  refine Upholds.timeout_perform (fun id value cancelled route heq => by cases heq) ?_ (hunknown _)
  -- What the work has given is relayed as it is.
  intro result
  match result with
  | .ok (.ok (value, cancelled)) =>
    refine hsend _ _ fun id value' cancelled' route heq => ?_
    obtain ⟨-, hvalue, rfl, -⟩ := OutputCommand.response.inj (WaiterOp.send.inj heq)
    obtain rfl := Except.ok.inj hvalue
    exact List.mem_singleton.2 rfl
  | .ok (.error error) => exact hunknown _
  | .error panic => exact hunknown _

end Socket

/-! ## Both paths -/

/-- On the bridge and on the socket, a release keeps to its law in every run: from any state of the
actor, whatever the answers of the daemon are, whatever other commands the actor takes and wherever
the task stops. On the socket, the task that waits for the work passes its value on. -/
theorem release_lawful (actor : OutputState) (id : String) (route : ClientRoute) :
    (∀ labels s, (machine bridge actor (Bridge.executeRequest ⟨.release id, some route⟩)).run
        (machine bridge actor (Bridge.executeRequest ⟨.release id, some route⟩)).init labels =
          some s →
        Released bridge actor (Bridge.executeRequest ⟨.release id, some route⟩) bridgeOutcome route
          s) ∧
      (∀ labels s, (machine socket actor (Socket.work ⟨.release id, some route⟩)).run
        (machine socket actor (Socket.work ⟨.release id, some route⟩)).init labels = some s →
        Released socket actor (Socket.work ⟨.release id, some route⟩) socketOutcome route s) ∧
      (Socket.waiter ⟨.release id, some route⟩).Upholds Relays (fun _ _ => True) [] :=
  ⟨fun _ _ hrun => released_of_run (bridge_release id route) hrun,
    fun _ _ hrun => released_of_run (socket_release id route) hrun, waiter_relays _⟩

/-- The route of a consumer's subscription. -/
def routeOf (consumer : String) (kind : RouteKind) : ClientRoute := ⟨consumer, "1", 1, kind⟩

/-- The bridge has acknowledged a subscription of a consumer. -/
def acknowledged (consumer : String) : OutputCommand :=
  .response "1" (.ok (.object [("data", .object [("subscription", .object [("id", .string "s")])])]))
    none (some (routeOf consumer .subscription))

/-- The actor when a subscription of `a` is active. -/
def subscribed : OutputState := (emitCommand (.new basicCorrelation 1) (acknowledged "a")).state

example : subscribed.activeIds.lookup "s" = some (some (routeOf "a" .subscription)) := by
  decide +kernel

/-- The release of `a` on the bridge. -/
def releaseOfA : Resumption Bridge.Op Bridge.Op.Answer OutputCommand :=
  Bridge.executeRequest ⟨.release "2", some (routeOf "a" .control)⟩

/-- The release of `a`, while the subscription of `a` ends by itself: the connection is lost. -/
def stopped : List (Label Bridge.Op Bridge.Op.Answer) :=
  [.wake ⟨.ownedIds (routeOf "a" .control), .answered ["s"]⟩,
    .command (.cancelled "s"),
    .wake ⟨.get, .answered (.error "closed")⟩]

/-- The release of `a`, while a subscription of `b` takes the id over. -/
def reused : List (Label Bridge.Op Bridge.Op.Answer) :=
  [.wake ⟨.ownedIds (routeOf "a" .control), .answered ["s"]⟩,
    .command .resetCorrelation,
    .command (acknowledged "b"),
    .wake ⟨.get, .answered (.ok ())⟩,
    .wake ⟨.proxy, .answered (.ok ())⟩,
    .wake ⟨.invoke (.cancel "s"), .answered (.ok (.object []))⟩,
    .wake ⟨.send (.cancelled "s"), .answered (.ok ())⟩]

/-- After a release that stopped midway, an id is not active any more if another command has retired
it. And a release knows an id only by its name: where it names another consumer's subscription by
the time it is dropped, that subscription is dropped. -/
theorem entries_changed :
    (∃ s, (machine bridge subscribed releaseOfA).run
        (machine bridge subscribed releaseOfA).init stopped = some s ∧
      s.task.current = none ∧ s.query.map Prod.fst = some ["s"] ∧
      Move.tried "s" true ∉ bridge.moves s.past ∧ "s" ∉ s.actor.activeIds) ∧
    ∃ s t, (machine bridge subscribed releaseOfA).run
        (machine bridge subscribed releaseOfA).init reused = some s ∧
      (machine bridge subscribed releaseOfA).step s .deliver = some t ∧
      s.query.map Prod.fst = some ["s"] ∧
      s.actor.activeIds.lookup "s" = some (some (routeOf "b" .subscription)) ∧
      "s" ∉ t.actor.activeIds :=
  ⟨⟨_, rfl, rfl, rfl, by decide +kernel, by decide +kernel⟩,
    _, _, rfl, rfl, rfl, by decide +kernel, by decide +kernel⟩

/-- The law, along that run. -/
theorem release_lawful_reused :
    ∃ s, (machine bridge subscribed releaseOfA).run
        (machine bridge subscribed releaseOfA).init reused = some s ∧
      Released bridge subscribed releaseOfA bridgeOutcome (routeOf "a" .control) s :=
  ⟨_, rfl, (release_lawful subscribed "2" (routeOf "a" .control)).1 reused _ rfl⟩

end DaemonFramework.Ingress.Release
