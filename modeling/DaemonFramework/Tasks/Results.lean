import Mathlib.Data.Finset.Card
import Mathlib.Data.Finset.Dedup
import DaemonFramework.Partition

/-!
# Recent results

`RecentResults` of `shelllist-daemon-core/src/operation.rs`: the results of finished operations,
each under its id, in the order in which they were recorded. A result is replaced by a later one of
its id, it expires after a retention, and the oldest ones make room for new ones beyond a limit.

`history` is what the calls have recorded and when they have pruned, and `Lives` says of a history
whether a result is still to be found. `recent_results_exact` says that a lookup finds just that:
the expiry searches for a partition point, which is right because the entries are in the order of
their times, and what expires or makes room is always a prefix.
-/

namespace DaemonFramework.Tasks

open DaemonFramework.Partition

/-- `Finished`. -/
structure Finished (τ : Type*) where
  /-- The operation. -/
  id : String
  /-- Its owner. -/
  owner : Option String
  /-- Its result. -/
  value : τ
  /-- When it was recorded. -/
  recorded : ℕ

/-- `RecentResults`. -/
structure RecentResults (τ : Type*) where
  /-- The results, the oldest one first. -/
  entries : List (Finished τ)
  /-- How many there can be. -/
  limit : ℕ
  /-- How long they are kept. -/
  retention : Option ℕ

namespace RecentResults

variable {τ : Type*}

/-- `new`. -/
def new (limit : ℕ) (retention : Option ℕ) : RecentResults τ := ⟨[], limit, retention⟩

/-- `prune`. -/
def prune (s : RecentResults τ) (now : ℕ) : RecentResults τ :=
  match s.retention with
  | none => s
  | some retention =>
    let expired := partitionPoint (fun entry => retention ≤ now - entry.recorded) s.entries
    { s with entries := s.entries.drop expired }

/-- `while len > limit`, `pop_front`. -/
def popFront (limit : ℕ) : List (Finished τ) → List (Finished τ)
  | [] => []
  | entry :: rest => if limit < rest.length + 1 then popFront limit rest else entry :: rest

/-- `record`. -/
def record (s : RecentResults τ) (now : ℕ) (id : String) (owner : Option String) (value : τ) :
    RecentResults τ :=
  let s := s.prune now
  let entries := s.entries.filter (fun entry => entry.id ≠ id) ++ [⟨id, owner, value, now⟩]
  { s with entries := popFront s.limit entries }

/-- `get_owned`. -/
def getOwned (s : RecentResults τ) (now : ℕ) (id : String) (owner : Option String) :
    Option τ × RecentResults τ :=
  let s := s.prune now
  ((s.entries.find? fun entry => entry.id = id ∧ entry.owner = owner).map Finished.value, s)

/-- `values`. -/
def values (s : RecentResults τ) (now : ℕ) : List τ × RecentResults τ :=
  let s := s.prune now
  (s.entries.map Finished.value, s)

end RecentResults

/-! ## Calls and their history -/

/-- A call, with the time that it reads from the clock. -/
inductive ResultsCall (τ : Type*) where
  | record (now : ℕ) (id : String) (owner : Option String) (value : τ)
  | getOwned (now : ℕ) (id : String) (owner : Option String)
  | values (now : ℕ)
  /-- A prune is given its time, which need not be that of the clock. -/
  | prune (time : ℕ)

/-- What happens to the results. -/
inductive ResultsEvent (τ : Type*) where
  | recorded (entry : Finished τ)
  | pruned (time : ℕ)

namespace ResultsCall

variable {τ : Type*}

/-- The time that a call reads from the clock. -/
def clock? : ResultsCall τ → Option ℕ
  | record now _ _ _ | getOwned now _ _ | values now => some now
  | prune _ => none

/-- The results after a call. -/
def apply (s : RecentResults τ) : ResultsCall τ → RecentResults τ
  | record now id owner value => s.record now id owner value
  | getOwned now id owner => (s.getOwned now id owner).2
  | values now => (s.values now).2
  | prune time => s.prune time

/-- What a call does to the results, in order. -/
def events : ResultsCall τ → List (ResultsEvent τ)
  | record now id owner value => [.pruned now, .recorded ⟨id, owner, value, now⟩]
  | getOwned now _ _ | values now | prune now => [.pruned now]

end ResultsCall

section

variable {τ : Type*}

/-- The results after some calls. -/
def afterCalls (limit : ℕ) (retention : Option ℕ) (calls : List (ResultsCall τ)) :
    RecentResults τ :=
  calls.foldl ResultsCall.apply (.new limit retention)

/-- What some calls do, in order. -/
def history (calls : List (ResultsCall τ)) : List (ResultsEvent τ) :=
  calls.flatMap ResultsCall.events

/-- The id that an event records. -/
def ResultsEvent.id? : ResultsEvent τ → Option String
  | recorded entry => some entry.id
  | pruned _ => none

/-- The ids that some events record. -/
def recordedIds (events : List (ResultsEvent τ)) : Finset String :=
  (events.filterMap ResultsEvent.id?).toFinset

/-- Some events leave a result alone that was recorded before them: its id is not recorded again, no
prune comes after its time has run out, and fewer than `limit` other ids are recorded. -/
structure Spares (limit : ℕ) (retention : Option ℕ) (entry : Finished τ)
    (events : List (ResultsEvent τ)) : Prop where
  /-- The record is the latest one of its id. -/
  latest : entry.id ∉ recordedIds events
  /-- No prune has used a time at least `retention` after it. -/
  unexpired : ∀ d ∈ retention, ∀ time, .pruned time ∈ events → time < entry.recorded + d
  /-- Not too many ids were recorded after it. -/
  room : (recordedIds events).card < limit

/-- A result is recorded and left alone after that. -/
def Lives (limit : ℕ) (retention : Option ℕ) (events : List (ResultsEvent τ)) (entry : Finished τ) :
    Prop :=
  ∃ before behind, events = before ++ .recorded entry :: behind ∧
    Spares limit retention entry behind

end

/-! ## One event after the other -/

section

variable {τ : Type*}

/-- The results after an event. -/
def ResultsEvent.apply (s : RecentResults τ) : ResultsEvent τ → RecentResults τ
  | recorded entry =>
    let entries := s.entries.filter (fun other => other.id ≠ entry.id) ++ [entry]
    { s with entries := RecentResults.popFront s.limit entries }
  | pruned time => s.prune time

/-- The ids of two lists of events. -/
theorem recordedIds_append (events more : List (ResultsEvent τ)) :
    recordedIds (events ++ more) = recordedIds events ∪ recordedIds more := by
  unfold recordedIds
  rw [List.filterMap_append, List.toFinset_append]

/-- A prune records no id. -/
theorem recordedIds_concat_pruned (events : List (ResultsEvent τ)) (time : ℕ) :
    recordedIds (events ++ [.pruned time]) = recordedIds events := by
  have hnone : recordedIds [(.pruned time : ResultsEvent τ)] = ∅ := rfl
  rw [recordedIds_append, hnone, Finset.union_empty]

/-- A record records its id. -/
theorem recordedIds_concat_recorded (events : List (ResultsEvent τ)) (entry : Finished τ) :
    recordedIds (events ++ [.recorded entry]) = insert entry.id (recordedIds events) := by
  have hone : recordedIds [(.recorded entry : ResultsEvent τ)] = {entry.id} := rfl
  rw [recordedIds_append, hone, Finset.union_comm, Finset.insert_eq]

/-- The end of a list that ends in one event and has another in it. -/
theorem concat_eq_append_cons {events before behind : List (ResultsEvent τ)}
    {last event : ResultsEvent τ} (h : events ++ [last] = before ++ event :: behind) :
    behind = [] ∧ event = last ∧ before = events ∨
      ∃ rest, behind = rest ++ [last] ∧ events = before ++ event :: rest := by
  rcases List.eq_nil_or_concat behind with rfl | ⟨rest, final, rfl⟩
  · obtain ⟨hevents, hlast⟩ := List.append_inj' h rfl
    exact .inl ⟨rfl, (List.singleton_inj.1 hlast).symm, hevents.symm⟩
  · rw [List.concat_eq_append, ← List.cons_append, ← List.append_assoc] at h
    obtain ⟨hevents, hlast⟩ := List.append_inj' h rfl
    obtain rfl := List.singleton_inj.1 hlast
    exact .inr ⟨rest, List.concat_eq_append, hevents⟩

/-! ## Prunes -/

variable {limit : ℕ} {retention : Option ℕ} {entry : Finished τ} {time : ℕ}

/-- The time of the result has not run out. -/
def Finished.Unexpired (retention : Option ℕ) (time : ℕ) (entry : Finished τ) : Prop :=
  ∀ d ∈ retention, time < entry.recorded + d

/-- A prune spares what has not expired. -/
theorem spares_concat_pruned {events : List (ResultsEvent τ)} :
    Spares limit retention entry (events ++ [.pruned time]) ↔
      Spares limit retention entry events ∧ entry.Unexpired retention time := by
  constructor
  · rintro ⟨hlatest, hunexpired, hroom⟩
    rw [recordedIds_concat_pruned] at hlatest hroom
    refine ⟨⟨hlatest, fun d hd t ht => ?_, hroom⟩, fun d hd => ?_⟩
    · exact hunexpired d hd t (List.mem_append_left _ ht)
    · exact hunexpired d hd time (List.mem_append_right _ List.mem_cons_self)
  · rintro ⟨⟨hlatest, hunexpired, hroom⟩, hnow⟩
    rw [← recordedIds_concat_pruned events time] at hlatest hroom
    refine ⟨hlatest, fun d hd t ht => ?_, hroom⟩
    rcases List.mem_append.1 ht with ht | ht
    · exact hunexpired d hd t ht
    · obtain rfl := ResultsEvent.pruned.inj (List.mem_singleton.1 ht)
      exact hnow d hd

/-- What lives after a prune is what has lived and has not expired. -/
theorem lives_concat_pruned {events : List (ResultsEvent τ)} :
    Lives limit retention (events ++ [.pruned time]) entry ↔
      Lives limit retention events entry ∧ entry.Unexpired retention time := by
  constructor
  · rintro ⟨before, behind, hevents, hspares⟩
    rcases concat_eq_append_cons hevents with ⟨-, hevent, -⟩ | ⟨rest, rfl, hrest⟩
    · cases hevent
    · obtain ⟨hspares, hunexpired⟩ := spares_concat_pruned.1 hspares
      exact ⟨⟨before, rest, hrest, hspares⟩, hunexpired⟩
  · rintro ⟨⟨before, behind, rfl, hspares⟩, hunexpired⟩
    exact ⟨before, behind ++ [.pruned time], by simp, spares_concat_pruned.2 ⟨hspares, hunexpired⟩⟩

/-- A prune keeps what has not expired, which is a part of the entries at their end. -/
theorem prune_entries {s : RecentResults τ} (hretention : ∀ d ∈ s.retention, 0 < d)
    (hsorted : s.entries.Pairwise fun a b => a.recorded ≤ b.recorded) (time : ℕ) :
    (s.prune time).entries <:+ s.entries ∧ ∀ entry, entry ∈ (s.prune time).entries ↔
      entry ∈ s.entries ∧ entry.Unexpired s.retention time := by
  unfold RecentResults.prune Finished.Unexpired
  cases hd : s.retention with
  | none => exact ⟨List.suffix_rfl, fun entry => by simp⟩
  | some d =>
    have hpos : 0 < d := hretention d hd
    have hpartitioned : Partitioned (fun entry : Finished τ => decide (d ≤ time - entry.recorded))
        s.entries := by
      refine hsorted.imp fun {a b} hle hb => ?_
      simp only [decide_eq_true_eq] at hb ⊢
      omega
    refine ⟨List.drop_suffix _ _, fun entry => ?_⟩
    show entry ∈ s.entries.drop _ ↔ _
    rw [drop_partitionPoint hpartitioned, List.mem_filter]
    simp only [Bool.not_eq_true', decide_eq_false_iff_not, Option.mem_def, Option.some.injEq,
      forall_eq']
    refine and_congr_right fun _ => ?_
    omega

/-- A prune leaves the limits alone. -/
@[simp] theorem prune_limit (s : RecentResults τ) (time : ℕ) : (s.prune time).limit = s.limit := by
  unfold RecentResults.prune
  split <;> rfl

@[simp] theorem prune_retention (s : RecentResults τ) (time : ℕ) :
    (s.prune time).retention = s.retention := by
  unfold RecentResults.prune
  split
  · rfl
  · rfl

/-! ## Records -/

/-- What makes room is the beginning. -/
theorem popFront_eq_drop (limit : ℕ) (l : List (Finished τ)) :
    RecentResults.popFront limit l = l.drop (l.length - limit) := by
  induction l with
  | nil => rw [RecentResults.popFront, List.drop_nil]
  | cons entry rest ih =>
    unfold RecentResults.popFront
    split_ifs with hfull
    · have hlength : (entry :: rest).length - limit = rest.length - limit + 1 := by
        rw [List.length_cons]
        omega
      rw [ih, hlength, List.drop_succ_cons]
    · have hlength : (entry :: rest).length - limit = 0 := by
        rw [List.length_cons]
        omega
      rw [hlength, List.drop_zero]

/-- Of entries with different ids, those stay that have fewer than `limit` behind them. -/
theorem mem_popFront_iff {l l' : List (Finished τ)}
    (hnodup : ((l ++ entry :: l').map Finished.id).Nodup) :
    entry ∈ RecentResults.popFront limit (l ++ entry :: l') ↔ l'.length < limit := by
  have hnotMem : entry ∉ l' := by
    intro hmem
    rw [List.map_append, List.map_cons] at hnodup
    have hcons := (List.nodup_append.1 hnodup).2.1
    exact (List.nodup_cons.1 hcons).1 (List.mem_map_of_mem hmem)
  have hlength : (l ++ entry :: l').length = l.length + l'.length + 1 := by
    rw [List.length_append, List.length_cons]
    omega
  rw [popFront_eq_drop, hlength, List.drop_append]
  constructor
  · intro hmem
    by_contra hfull
    obtain ⟨k, hk⟩ : ∃ k, l.length + l'.length + 1 - limit = l.length + (k + 1) :=
      ⟨l'.length - limit, by omega⟩
    rw [hk, List.drop_eq_nil_of_le (by omega), Nat.add_sub_cancel_left, List.nil_append,
      List.drop_succ_cons] at hmem
    exact hnotMem (List.mem_of_mem_drop hmem)
  · intro hroom
    have hzero : l.length + l'.length + 1 - limit - l.length = 0 := by omega
    rw [hzero, List.drop_zero]
    exact List.mem_append_right _ List.mem_cons_self

/-- A record after some events spares what they spare, has another id and does not fill up. -/
theorem spares_concat_recorded {new : Finished τ} {events : List (ResultsEvent τ)} :
    Spares limit retention entry (events ++ [.recorded new]) ↔
      Spares limit retention entry events ∧ entry.id ≠ new.id ∧
        (insert new.id (recordedIds events)).card < limit := by
  constructor
  · rintro ⟨hlatest, hunexpired, hroom⟩
    rw [recordedIds_concat_recorded] at hlatest hroom
    rw [Finset.mem_insert, not_or] at hlatest
    refine ⟨⟨hlatest.2, fun d hd t ht => ?_, ?_⟩, hlatest.1, hroom⟩
    · exact hunexpired d hd t (List.mem_append_left _ ht)
    · exact (Finset.card_le_card (Finset.subset_insert _ _)).trans_lt hroom
  · rintro ⟨⟨hlatest, hunexpired, -⟩, hne, hroom⟩
    rw [← recordedIds_concat_recorded events new] at hroom
    refine ⟨?_, fun d hd t ht => ?_, hroom⟩
    · rw [recordedIds_concat_recorded, Finset.mem_insert, not_or]
      exact ⟨hne, hlatest⟩
    · rcases List.mem_append.1 ht with ht | ht
      · exact hunexpired d hd t ht
      · cases List.mem_singleton.1 ht

/-- What lives after a record is the new entry, or what has lived and is spared. -/
theorem lives_concat_recorded {new : Finished τ} {events : List (ResultsEvent τ)} :
    Lives limit retention (events ++ [.recorded new]) entry ↔
      entry = new ∧ 0 < limit ∨ entry.id ≠ new.id ∧ ∃ before behind,
        events = before ++ .recorded entry :: behind ∧ Spares limit retention entry behind ∧
          (insert new.id (recordedIds behind)).card < limit := by
  constructor
  · rintro ⟨before, behind, hevents, hspares⟩
    rcases concat_eq_append_cons hevents with ⟨rfl, hevent, -⟩ | ⟨rest, rfl, hrest⟩
    · exact .inl ⟨ResultsEvent.recorded.inj hevent, by simpa [recordedIds] using hspares.room⟩
    · obtain ⟨hspares, hne, hroom⟩ := spares_concat_recorded.1 hspares
      exact .inr ⟨hne, before, rest, hrest, hspares, hroom⟩
  · rintro (⟨rfl, hpos⟩ | ⟨hne, before, behind, rfl, hspares, hroom⟩)
    · exact ⟨events, [], rfl, by simp [recordedIds], by simp, by simpa [recordedIds] using hpos⟩
    · exact ⟨before, behind ++ [.recorded new], by simp,
        spares_concat_recorded.2 ⟨hspares, hne, hroom⟩⟩

/-! ## All events -/

/-- The results are those that live, in the order in which they were recorded. -/
structure Agrees (limit : ℕ) (retention : Option ℕ) (events : List (ResultsEvent τ)) (clock : ℕ)
    (s : RecentResults τ) : Prop where
  /-- The limit is the one given. -/
  limit_eq : s.limit = limit
  /-- The retention is the one given. -/
  retention_eq : s.retention = retention
  /-- There are not too many results. -/
  length_le : s.entries.length ≤ limit
  /-- Each has an id of its own. -/
  nodup : (s.entries.map Finished.id).Nodup
  /-- They are in the order of their times. -/
  sorted : s.entries.Pairwise fun a b => a.recorded ≤ b.recorded
  /-- They were recorded up to now. -/
  past : ∀ entry ∈ s.entries, entry.recorded ≤ clock
  /-- They are those that live. -/
  lives : ∀ entry, entry ∈ s.entries ↔ Lives limit retention events entry
  /-- What was recorded after a result stands behind it. -/
  behind : ∀ l entry l', s.entries = l ++ entry :: l' → ∀ before rest,
    events = before ++ .recorded entry :: rest → entry.id ∉ recordedIds rest →
      recordedIds rest = (l'.map Finished.id).toFinset

variable {events : List (ResultsEvent τ)} {clock : ℕ} {s : RecentResults τ}

/-- At first there is nothing. -/
theorem Agrees.new (limit : ℕ) (retention : Option ℕ) :
    Agrees limit retention ([] : List (ResultsEvent τ)) 0 (.new limit retention) where
  limit_eq := rfl
  retention_eq := rfl
  length_le := Nat.zero_le _
  nodup := List.nodup_nil
  sorted := List.Pairwise.nil
  past := nofun
  lives entry := by
    refine ⟨nofun, ?_⟩
    rintro ⟨before, behind, hevents, -⟩
    simp at hevents
  behind l entry l' hentries := by
    have hentries : [] = l ++ entry :: l' := hentries
    simp at hentries

/-- A prune keeps what lives. -/
theorem Agrees.pruned (h : Agrees limit retention events clock s)
    (hretention : ∀ d ∈ retention, 0 < d) (time : ℕ) :
    Agrees limit retention (events ++ [.pruned time]) clock (s.prune time) := by
  obtain ⟨hsuffix, hmem⟩ := prune_entries (by rwa [h.retention_eq]) h.sorted time
  constructor
  · rw [prune_limit, h.limit_eq]
  · rw [prune_retention, h.retention_eq]
  · exact hsuffix.length_le.trans h.length_le
  · exact h.nodup.sublist (hsuffix.sublist.map _)
  · exact h.sorted.sublist hsuffix.sublist
  · exact fun entry hentry => h.past entry (hsuffix.mem hentry)
  · intro entry
    rw [hmem, h.retention_eq, h.lives, lives_concat_pruned]
  · intro l entry l' hentries before rest hevents hlatest
    obtain ⟨dropped, hdropped⟩ := hsuffix
    rcases concat_eq_append_cons hevents with ⟨-, hevent, -⟩ | ⟨rest, rfl, hrest⟩
    · cases hevent
    · rw [recordedIds_concat_pruned] at hlatest ⊢
      refine h.behind (dropped ++ l) entry l' ?_ before rest hrest hlatest
      rw [← hdropped, hentries, List.append_assoc]

/-- The entries before room is made. -/
def Finished.replaceIn (new : Finished τ) (entries : List (Finished τ)) : List (Finished τ) :=
  entries.filter (fun other => other.id ≠ new.id) ++ [new]

/-- The new entry is the only one with its id. -/
theorem mem_replaceIn {new : Finished τ} {entries : List (Finished τ)} :
    entry ∈ new.replaceIn entries ↔ entry = new ∨ entry ∈ entries ∧ entry.id ≠ new.id := by
  unfold Finished.replaceIn
  rw [List.mem_append, List.mem_filter, List.mem_singleton, or_comm, decide_eq_true_iff]

/-- What was recorded after a result stands behind it, also after a record. -/
theorem Agrees.behind_replaceIn (h : Agrees limit retention events clock s) {new : Finished τ}
    {l l' : List (Finished τ)} (hentries : new.replaceIn s.entries = l ++ entry :: l')
    {before rest : List (ResultsEvent τ)}
    (hevents : events ++ [.recorded new] = before ++ .recorded entry :: rest)
    (hlatest : entry.id ∉ recordedIds rest) :
    recordedIds rest = (l'.map Finished.id).toFinset := by
  rcases List.eq_nil_or_concat l' with rfl | ⟨l', last, rfl⟩
  -- The new entry itself: nothing comes after its record.
  · obtain ⟨-, hentry⟩ := List.append_inj' hentries rfl
    obtain rfl := List.singleton_inj.1 hentry
    rcases concat_eq_append_cons hevents with ⟨rfl, -, -⟩ | ⟨rest, rfl, -⟩
    · rfl
    · rw [recordedIds_concat_recorded] at hlatest
      exact absurd (Finset.mem_insert_self _ _) hlatest
  · rw [List.concat_eq_append, ← List.cons_append, ← List.append_assoc] at hentries
    obtain ⟨hfilter, hlast⟩ := List.append_inj' hentries rfl
    obtain rfl := List.singleton_inj.1 hlast
    obtain ⟨m, m', hsplit, -, hm'⟩ := List.filter_eq_append_iff.1 hfilter
    obtain ⟨m₁, m₂, hm', -, hp, hm₂⟩ := List.filter_eq_cons_iff.1 hm'
    -- An old entry: the filter has taken an entry of the new id out, and the new one is last.
    have hne : entry.id ≠ new.id := by simpa using hp
    rcases concat_eq_append_cons hevents with ⟨-, hevent, -⟩ | ⟨rest, rfl, hrest⟩
    · exact absurd (congrArg Finished.id (ResultsEvent.recorded.inj hevent)) hne
    · rw [recordedIds_concat_recorded] at hlatest ⊢
      have hids := h.behind (m ++ m₁) entry m₂ (by rw [hsplit, hm', List.append_assoc]) before rest
        hrest fun hmem => hlatest (Finset.mem_insert_of_mem hmem)
      rw [hids, List.concat_eq_append, ← hm₂]
      ext id
      simp only [Finset.mem_insert, List.mem_toFinset, List.mem_map, List.mem_append,
        List.mem_filter, List.mem_singleton, decide_eq_true_iff]
      constructor
      · rintro (rfl | ⟨other, hother, rfl⟩)
        · exact ⟨new, .inr rfl, rfl⟩
        · by_cases hsame : other.id = new.id
          · exact ⟨new, .inr rfl, hsame.symm⟩
          · exact ⟨other, .inl ⟨hother, hsame⟩, rfl⟩
      · rintro ⟨other, ⟨hother, -⟩ | rfl, rfl⟩
        · exact .inr ⟨other, hother, rfl⟩
        · exact .inl rfl

/-- The ids of the entries are different before room is made. -/
theorem nodup_replaceIn {new : Finished τ} {entries : List (Finished τ)}
    (h : (entries.map Finished.id).Nodup) : ((new.replaceIn entries).map Finished.id).Nodup := by
  unfold Finished.replaceIn
  rw [List.map_append, List.map_singleton, ← List.concat_eq_append, List.nodup_concat]
  refine ⟨?_, h.sublist (List.filter_sublist.map _)⟩
  intro hmem
  obtain ⟨other, hother, hid⟩ := List.mem_map.1 hmem
  have hne := (List.mem_filter.1 hother).2
  simp [hid] at hne

/-- Behind a result that is not replaced stand as many as there are ids recorded after it. -/
theorem Agrees.card_replaceIn (h : Agrees limit retention events clock s) {new : Finished τ}
    {l l' : List (Finished τ)} (hentries : new.replaceIn s.entries = l ++ entry :: l')
    (hne : entry.id ≠ new.id) {before rest : List (ResultsEvent τ)}
    (hevents : events = before ++ .recorded entry :: rest) (hlatest : entry.id ∉ recordedIds rest) :
    (insert new.id (recordedIds rest)).card = l'.length := by
  have hnodup : ((new.replaceIn s.entries).map Finished.id).Nodup := nodup_replaceIn h.nodup
  rw [hentries, List.map_append, List.map_cons] at hnodup
  have hnodup' : (l'.map Finished.id).Nodup :=
    (List.nodup_cons.1 (List.nodup_append.1 hnodup).2.1).2
  have hlatest' : entry.id ∉ recordedIds (rest ++ [.recorded new]) := by
    rw [recordedIds_concat_recorded, Finset.mem_insert, not_or]
    exact ⟨hne, hlatest⟩
  have hevents' : events ++ [.recorded new] =
      before ++ .recorded entry :: (rest ++ [.recorded new]) := by
    rw [hevents, List.append_assoc, List.cons_append]
  have hids := h.behind_replaceIn hentries hevents' hlatest'
  rw [← recordedIds_concat_recorded rest new, hids, List.toFinset_card_of_nodup hnodup',
    List.length_map]

/-- A record keeps what lives, and adds the new entry. -/
theorem Agrees.recorded (h : Agrees limit retention events clock s) (new : Finished τ)
    (hnew : clock ≤ new.recorded) :
    Agrees limit retention (events ++ [.recorded new]) new.recorded
      (ResultsEvent.apply s (.recorded new)) := by
  have hentries : (ResultsEvent.apply s (.recorded new)).entries =
      RecentResults.popFront limit (new.replaceIn s.entries) := by
    rw [← h.limit_eq]
    rfl
  -- What the limit drops is at the front.
  have hsuffix : (ResultsEvent.apply s (.recorded new)).entries <:+ new.replaceIn s.entries := by
    rw [hentries, popFront_eq_drop]
    exact List.drop_suffix _ _
  have hnodup : ((new.replaceIn s.entries).map Finished.id).Nodup := nodup_replaceIn h.nodup
  have hsorted : (new.replaceIn s.entries).Pairwise fun a b => a.recorded ≤ b.recorded := by
    refine List.pairwise_append.2 ⟨h.sorted.filter _, List.pairwise_singleton _ _, ?_⟩
    intro a ha b hb
    obtain rfl := List.mem_singleton.1 hb
    exact (h.past a (List.mem_of_mem_filter ha)).trans hnew
  constructor
  · exact h.limit_eq
  · exact h.retention_eq
  · rw [hentries, popFront_eq_drop, List.length_drop]
    omega
  · exact hnodup.sublist (hsuffix.sublist.map _)
  · exact hsorted.sublist hsuffix.sublist
  · intro entry hentry
    rcases mem_replaceIn.1 (hsuffix.mem hentry) with rfl | ⟨hold, -⟩
    · exact Nat.le_refl _
    · exact (h.past entry hold).trans hnew
  · intro entry
    rw [hentries, lives_concat_recorded]
    constructor
    · intro hmem
      have hkept := mem_replaceIn.1 (hsuffix.mem (hentries ▸ hmem))
      obtain ⟨l, l', hsplit⟩ := List.append_of_mem (hsuffix.mem (hentries ▸ hmem))
      rw [hsplit] at hmem hnodup
      have hroom := (mem_popFront_iff hnodup).1 hmem
      rcases hkept with rfl | ⟨hold, hne⟩
      · exact .inl ⟨rfl, by omega⟩
      · obtain ⟨before, rest, rfl, hspares⟩ := (h.lives entry).1 hold
        refine .inr ⟨hne, before, rest, rfl, hspares, ?_⟩
        rw [h.card_replaceIn hsplit hne rfl hspares.latest]
        exact hroom
    · rintro (⟨rfl, hpos⟩ | ⟨hne, before, rest, hevents, hspares, hroom⟩)
      · exact (mem_popFront_iff hnodup).2 hpos
      · have hold : entry ∈ s.entries := (h.lives entry).2 ⟨before, rest, hevents, hspares⟩
        obtain ⟨l, l', hsplit⟩ := List.append_of_mem (mem_replaceIn.2 (.inr ⟨hold, hne⟩))
        rw [h.card_replaceIn hsplit hne hevents hspares.latest] at hroom
        rw [hsplit] at hnodup ⊢
        exact (mem_popFront_iff hnodup).2 hroom
  · intro l entry l' hsplit before rest hevents hlatest
    obtain ⟨dropped, hdropped⟩ := hsuffix
    refine h.behind_replaceIn (l := dropped ++ l) ?_ hevents hlatest
    rw [← hdropped, hsplit, List.append_assoc]

/-- The clock has shown no later time. -/
def ClockUpTo (now : ℕ) (calls : List (ResultsCall τ)) : Prop :=
  ∀ call ∈ calls, ∀ time ∈ call.clock?, time ≤ now

/-- The clock may go on. -/
theorem Agrees.later (h : Agrees limit retention events clock s) {now : ℕ} (hnow : clock ≤ now) :
    Agrees limit retention events now s :=
  { h with past := fun entry hentry => (h.past entry hentry).trans hnow }

/-- A call agrees with its events. -/
theorem Agrees.call (h : Agrees limit retention events clock s)
    (hretention : ∀ d ∈ retention, 0 < d)
    (call : ResultsCall τ) (hclock : ∀ now ∈ call.clock?, clock ≤ now) :
    Agrees limit retention (events ++ call.events) (call.clock?.getD clock) (call.apply s) := by
  have hpruned := fun time => h.pruned hretention time
  cases call with
  | record now id owner value =>
    have hrecorded := (hpruned now).recorded ⟨id, owner, value, now⟩ (hclock now rfl)
    rw [List.append_assoc] at hrecorded
    exact hrecorded
  | getOwned now id owner =>
    exact (hpruned now).later (hclock now rfl)
  | values now =>
    exact (hpruned now).later (hclock now rfl)
  | prune time => exact hpruned time

/-- Calls agree with their history. -/
theorem agrees_afterCalls (hretention : ∀ d ∈ retention, 0 < d) {calls : List (ResultsCall τ)}
    (hclock : (calls.filterMap ResultsCall.clock?).Pairwise (· ≤ ·)) :
    ∃ clock, Agrees limit retention (history calls) clock (afterCalls limit retention calls) ∧
      ∀ now, ClockUpTo now calls → clock ≤ now := by
  induction calls using List.reverseRecOn with
  | nil => exact ⟨0, .new limit retention, fun now _ => Nat.zero_le now⟩
  | append_singleton calls call ih =>
    rw [List.filterMap_append, List.pairwise_append] at hclock
    obtain ⟨hbefore, -, hlast⟩ := hclock
    obtain ⟨clock, hagrees, hbound⟩ := ih hbefore
    have hcalls : history (calls ++ [call]) = history calls ++ call.events := by
      simp [history]
    have hafter : afterCalls limit retention (calls ++ [call]) =
        call.apply (afterCalls limit retention calls) := by
      unfold afterCalls
      rw [List.foldl_append]
      rfl
    have hreading : ∀ now ∈ call.clock?, clock ≤ now := by
      intro now hnow
      refine hbound now fun earlier hearlier time htime => ?_
      refine hlast time (List.mem_filterMap.2 ⟨earlier, hearlier, htime⟩) now ?_
      exact List.mem_filterMap.2 ⟨call, List.mem_singleton_self _, hnow⟩
    rw [hcalls, hafter]
    refine ⟨_, hagrees.call hretention call hreading, fun now hnow => ?_⟩
    have hold : clock ≤ now := hbound now fun earlier hearlier =>
      hnow earlier (List.mem_append_left _ hearlier)
    have hnew := hnow call (List.mem_append_right _ (List.mem_singleton_self _))
    cases hread : call.clock? with
    | none => exact hold
    | some time => exact hnew time hread

/-- A lookup finds the result that lives. -/
theorem Agrees.getOwned_eq_some (h : Agrees limit retention events clock s)
    (hretention : ∀ d ∈ retention, 0 < d) (now : ℕ) (id : String) (owner : Option String) (v : τ) :
    (s.getOwned now id owner).1 = some v ↔
      ∃ time, Lives limit retention (events ++ [.pruned now]) ⟨id, owner, v, time⟩ := by
  have hpruned := h.pruned hretention now
  unfold RecentResults.getOwned
  rw [Option.map_eq_some_iff]
  constructor
  · rintro ⟨entry, hfind, rfl⟩
    have hmem := List.mem_of_find?_eq_some hfind
    have hentry := List.find?_some hfind
    simp only [decide_eq_true_eq] at hentry
    obtain ⟨rfl, rfl⟩ := hentry
    exact ⟨entry.recorded, (hpruned.lives entry).1 hmem⟩
  · rintro ⟨time, hlives⟩
    have hmem := (hpruned.lives _).2 hlives
    refine ⟨⟨id, owner, v, time⟩, ?_, rfl⟩
    cases hfind : (s.prune now).entries.find? fun entry => entry.id = id ∧ entry.owner = owner with
    | none =>
      have hnone := List.find?_eq_none.1 hfind _ hmem
      simp at hnone
    | some entry =>
      -- No other entry has this id.
      have hentry := List.find?_some hfind
      simp only [decide_eq_true_eq] at hentry
      have hsame := List.inj_on_of_nodup_map hpruned.nodup (List.mem_of_find?_eq_some hfind) hmem
        hentry.1
      rw [hsame]

/-- `RecentResults` is the view of the last result under each id. After any calls whose clock does
not go back, the entries have different ids, are in the order of their times and are not more than
the limit. A lookup finds `v` exactly when the latest record of the id stored `v` for the owner, no
prune since then, that of the lookup included, has used a time at least the retention after it, and
fewer than `limit` other ids were recorded after it. -/
theorem recent_results_exact (limit : ℕ) (retention : Option ℕ)
    (hretention : ∀ d ∈ retention, 0 < d)
    (calls : List (ResultsCall τ))
    (hclock : (calls.filterMap ResultsCall.clock?).Pairwise (· ≤ ·)) :
    let s := afterCalls limit retention calls
    (s.entries.map Finished.id).Nodup ∧
      (s.entries.Pairwise fun a b => a.recorded ≤ b.recorded) ∧
      s.entries.length ≤ limit ∧
      ∀ now id owner v, (s.getOwned now id owner).1 = some v ↔
        ∃ time before behind, history (calls ++ [.getOwned now id owner]) =
            before ++ .recorded ⟨id, owner, v, time⟩ :: behind ∧
          id ∉ recordedIds behind ∧
          (∀ d ∈ retention, ∀ u, .pruned u ∈ behind → u < time + d) ∧
          (recordedIds behind).card < limit := by
  intro s
  obtain ⟨clock, hagrees, -⟩ := agrees_afterCalls hretention hclock
  refine ⟨hagrees.nodup, hagrees.sorted, hagrees.length_le, fun now id owner v => ?_⟩
  have hhistory : history (calls ++ [.getOwned now id owner]) = history calls ++ [.pruned now] := by
    simp [history, ResultsCall.events]
  rw [hagrees.getOwned_eq_some hretention, hhistory]
  constructor
  · rintro ⟨time, before, behind, hevents, hlatest, hunexpired, hroom⟩
    exact ⟨time, before, behind, hevents, hlatest, hunexpired, hroom⟩
  · rintro ⟨time, before, behind, hevents, hlatest, hunexpired, hroom⟩
    exact ⟨time, before, behind, hevents, hlatest, hunexpired, hroom⟩

/-- Three records and a prune, of which the limit and the retention leave the last one. -/
theorem recent_results_exact_expired :
    (((afterCalls 2 (some 5) [.record 1 "a" none 10, .record 3 "b" none 20, .prune 7,
      .record 4 "b" (some "o") 30]).getOwned 8 "b" (some "o")).1 = some 30) :=
  ((recent_results_exact 2 (some 5) (by simp) [.record 1 "a" none 10, .record 3 "b" none 20,
    .prune 7, .record 4 "b" (some "o") 30] (by decide)).2.2.2 8 "b" (some "o") 30).2
    ⟨4, [.pruned 1, .recorded ⟨"a", none, 10, 1⟩, .pruned 3, .recorded ⟨"b", none, 20, 3⟩,
      .pruned 7, .pruned 4], [.pruned 8], rfl, by decide, by simp, by decide⟩

end

end DaemonFramework.Tasks
