import Mathlib.Data.List.Induction
import Mathlib.Data.List.Nodup
import Mathlib.Data.List.Perm.Subperm
import Mathlib.Logic.Relation

/-!
# Depth-first traversals that remember where they have been

The vertices of a graph lie at places, several of them perhaps at one. A traversal returns where it
is about to enter a vertex at the place of a vertex that it is still in. `scan` is a depth-first
traversal that enters each vertex once and gives up at the first return. It follows the edges of a
vertex in their order, so it enters a vertex on the way that is the first of all ways to it: at each
vertex of it, no earlier edge leads to its end (`Leads`). `scan_eq_none_iff` says that it meets a
return exactly where an edge from the end of such a way goes back to a place on it. Other ways can
return all the same, which is what a traversal that enters a vertex each time would find.
-/

namespace DaemonFramework.Traversal

variable {V R : Type*}

/-- What can be reached along the edges. -/
def Reach (next : V → List V) : V → V → Prop := Relation.ReflTransGen fun v w => w ∈ next v

/-- A way from `v` to `u`, and the places on it. -/
inductive Way (next : V → List V) (place : V → R) : V → V → List R → Prop where
  /-- The way is at its end. -/
  | here (v : V) : Way next place v v [place v]
  /-- The way goes on along an edge. -/
  | on {v u e : V} {places : List R} (hedge : e ∈ next v) (h : Way next place e u places) :
    Way next place v u (place v :: places)

/-- The first way from `v` to `u`, and the places on it. -/
inductive Leads (next : V → List V) (place : V → R) : V → V → List R → Prop where
  /-- The way is at its end. -/
  | here (v : V) : Leads next place v v [place v]
  /-- The way goes on along the first edge that leads to its end. -/
  | on {v u e : V} {pre post : List V} {places : List R} (hnext : next v = pre ++ e :: post)
    (hne : u ≠ v) (hfirst : ∀ other ∈ pre, ¬ Reach next other u)
    (h : Leads next place e u places) : Leads next place v u (place v :: places)

/-- Enter a vertex, unless it was entered before, and then those that its edges lead to; `none` on a
return, or where `fuel` is too small. -/
def scan [DecidableEq V] [DecidableEq R] (next : V → List V) (place : V → R) :
    ℕ → List V → List V → V → Option (List V)
  | fuel, stack, seen, v =>
    if place v ∈ stack.map place then none
    else if v ∈ seen then some seen
    else
      match fuel with
      | 0 => none
      | fuel + 1 => (next v).foldlM (scan next place fuel (v :: stack)) (v :: seen)

variable {next : V → List V} {place : V → R}

/-- The end of a way can be reached. -/
theorem Leads.reach {v u : V} {places : List R} (h : Leads next place v u places) :
    Reach next v u := by
  induction h with
  | here => exact .refl
  | on hnext _ _ _ ih =>
    refine .head ?_ ih
    rw [hnext]
    exact List.mem_append_right _ List.mem_cons_self

/-- A first way is a way. -/
theorem Leads.way {v u : V} {places : List R} (h : Leads next place v u places) :
    Way next place v u places := by
  induction h with
  | here v => exact .here v
  | on hnext _ _ _ ih =>
    refine .on ?_ ih
    rw [hnext]
    exact List.mem_append_right _ List.mem_cons_self

/-- Where a traversal stands: it is in the vertices of the stack, and what an edge leads to from
another vertex that it has seen, it has seen and left. -/
structure Settled (next : V → List V) (stack seen : List V) : Prop where
  /-- The vertices of the stack were seen. -/
  entered : ∀ x ∈ stack, x ∈ seen
  /-- The edges of the vertices that were left lead to such. -/
  closed : ∀ x ∈ seen, x ∈ stack ∨ ∀ w ∈ next x, w ∈ seen ∧ w ∉ stack

/-- From a vertex that was left, only such can be reached. -/
theorem Settled.reach {stack seen : List V} (h : Settled next stack seen) {x u : V}
    (hreach : Reach next x u) (hx : x ∈ seen) (hstack : x ∉ stack) : u ∈ seen ∧ u ∉ stack := by
  induction hreach with
  | refl => exact ⟨hx, hstack⟩
  | tail _ hedge ih => exact (h.closed _ ih.1).resolve_left ih.2 _ hedge

/-- What a traversal from `v` that has met no return has done. -/
structure Scanned (next : V → List V) (place : V → R) (stack seen : List V) (v : V)
    (seen' : List V) : Prop where
  /-- The vertex lies at no place of the stack. -/
  fresh : place v ∉ stack.map place
  /-- The vertex was seen. -/
  mem : v ∈ seen'
  /-- What was seen stays so. -/
  grows : ∀ x ∈ seen, x ∈ seen'
  /-- What was seen newly can be reached. -/
  new : ∀ u ∈ seen', u ∈ seen ∨ Reach next v u
  /-- Everything else was left. -/
  settled : Settled next stack seen'
  /-- No edge from the end of a first way to a new vertex goes back. -/
  clear : ∀ u places, Leads next place v u places → u ∉ seen →
    ∀ w ∈ next u, place w ∉ stack.map place ∧ place w ∉ places

/-- What a traversal has done when it is in `v` and has followed the edges `pre` from it. -/
structure Scanning (next : V → List V) (place : V → R) (stack seen : List V) (v : V)
    (pre seen' : List V) : Prop where
  /-- The vertex was seen. -/
  mem : v ∈ seen'
  /-- What was seen stays so. -/
  grows : ∀ x ∈ seen, x ∈ seen'
  /-- What was seen newly can be reached by the edges. -/
  new : ∀ u ∈ seen', u ∈ seen ∨ u = v ∨ ∃ e ∈ pre, Reach next e u
  /-- Everything but the stack was left. -/
  settled : Settled next (v :: stack) seen'
  /-- The edges led to vertices that are no returns. -/
  followed : ∀ e ∈ pre, e ∈ seen' ∧ place e ∉ (v :: stack).map place
  /-- No edge from the end of a first way to a new vertex goes back. -/
  clear : ∀ pre' e post, pre = pre' ++ e :: post → ∀ u places, Leads next place e u places →
    u ≠ v → u ∉ seen → (∀ other ∈ pre', ¬ Reach next other u) →
    ∀ w ∈ next u, place w ∉ (v :: stack).map place ∧ place w ∉ places

/-- The last edge of some is one of those before, or the last. -/
theorem append_singleton_eq_append_cons {l pre post : List V} {a e : V}
    (h : l ++ [a] = pre ++ e :: post) :
    pre = l ∧ e = a ∨ ∃ post', l = pre ++ e :: post' := by
  rcases List.eq_nil_or_concat post with rfl | ⟨post', b, rfl⟩
  · obtain ⟨hl, ha⟩ := List.append_inj' h rfl
    exact .inl ⟨hl.symm, (List.singleton_inj.1 ha).symm⟩
  · rw [List.concat_eq_append, ← List.cons_append, ← List.append_assoc] at h
    exact .inr ⟨post', (List.append_inj' h rfl).1⟩

namespace Scanning

variable {stack seen pre seen' : List V} {v : V}

/-- The traversal enters a vertex. -/
theorem enter (h : Settled next stack seen) (hv : v ∉ seen) :
    Scanning next place stack seen v [] (v :: seen) where
  mem := List.mem_cons_self
  grows _ hx := List.mem_cons_of_mem _ hx
  new u hu := (List.mem_cons.1 hu).elim (fun hu => .inr (.inl hu)) .inl
  settled := by
    constructor
    · intro x hx
      exact (List.mem_cons.1 hx).elim (fun hx => hx ▸ List.mem_cons_self)
        fun hx => List.mem_cons_of_mem _ (h.entered x hx)
    · intro x hx
      rcases List.mem_cons.1 hx with rfl | hx
      · exact .inl List.mem_cons_self
      · refine (h.closed x hx).imp (List.mem_cons_of_mem _) fun hclosed w hw => ?_
        obtain ⟨hseen, hstack⟩ := hclosed w hw
        have hne : w ≠ v := fun heq => hv (heq ▸ hseen)
        exact ⟨List.mem_cons_of_mem _ hseen, by simp [hne, hstack]⟩
  followed := nofun
  clear pre' e post hpre := by simp at hpre

/-- The traversal follows one more edge. -/
theorem follow {e : V} {seen'' : List V} (h : Scanning next place stack seen v pre seen')
    (he : Scanned next place (v :: stack) seen' e seen'') :
    Scanning next place stack seen v (pre ++ [e]) seen'' where
  mem := he.grows v h.mem
  grows x hx := he.grows x (h.grows x hx)
  new u hu := by
    rcases he.new u hu with hu | hu
    · refine (h.new u hu).imp_right (Or.imp_right ?_)
      rintro ⟨other, hother, hreach⟩
      exact ⟨other, List.mem_append_left _ hother, hreach⟩
    · exact .inr (.inr ⟨e, List.mem_append_right _ (List.mem_singleton.2 rfl), hu⟩)
  settled := he.settled
  followed other hother := by
    rcases List.mem_append.1 hother with hother | hother
    · obtain ⟨hmem, hplace⟩ := h.followed other hother
      exact ⟨he.grows other hmem, hplace⟩
    · obtain rfl := List.mem_singleton.1 hother
      exact ⟨he.mem, he.fresh⟩
  clear pre' other post hpre u places hleads hne hseen hfirst := by
    rcases append_singleton_eq_append_cons hpre with ⟨rfl, rfl⟩ | ⟨post', hpre'⟩
    -- The first way goes along this edge, so its end was not seen before.
    · refine he.clear u places hleads fun hu => ?_
      rcases h.new u hu with hu | hu | ⟨e', he', hreach⟩
      · exact hseen hu
      · exact hne hu
      · exact hfirst e' he' hreach
    · exact h.clear pre' other post' hpre' u places hleads hne hseen hfirst

/-- The traversal has followed all edges, and leaves the vertex. -/
theorem leave (h : Scanning next place stack seen v (next v) seen')
    (hfresh : place v ∉ stack.map place) : Scanned next place stack seen v seen' where
  fresh := hfresh
  mem := h.mem
  grows := h.grows
  new u hu := by
    rcases h.new u hu with hu | rfl | ⟨e, he, hreach⟩
    · exact .inl hu
    · exact .inr .refl
    · exact .inr (.head he hreach)
  settled := by
    have hleft : ∀ w ∈ next v, w ∈ seen' ∧ w ∉ stack := by
      intro w hw
      obtain ⟨hmem, hplace⟩ := h.followed w hw
      exact ⟨hmem, fun hstack =>
        hplace (List.mem_map.2 ⟨w, List.mem_cons_of_mem _ hstack, rfl⟩)⟩
    constructor
    · exact fun x hx => h.settled.entered x (List.mem_cons_of_mem _ hx)
    · intro x hx
      rcases h.settled.closed x hx with hstack | hclosed
      · rcases List.mem_cons.1 hstack with rfl | hstack
        · exact .inr hleft
        · exact .inl hstack
      · refine .inr fun w hw => ?_
        obtain ⟨hmem, hstack⟩ := hclosed w hw
        exact ⟨hmem, fun hw => hstack (List.mem_cons_of_mem _ hw)⟩
  clear u places hleads hseen w hw := by
    cases hleads with
    -- A way that ends here: the edges that were followed are no returns.
    | here =>
      obtain ⟨-, hplace⟩ := h.followed w hw
      simp only [List.map_cons, List.mem_cons, not_or] at hplace
      exact ⟨hplace.2, by simpa using hplace.1⟩
    | @on _ _ e pre post places hnext hne hfirst hleads =>
      obtain ⟨hstack, hplaces⟩ := h.clear pre e post hnext u places hleads hne hseen hfirst w hw
      simp only [List.map_cons, List.mem_cons, not_or] at hstack ⊢
      exact ⟨hstack.2, hstack.1, hplaces⟩

end Scanning

/-- A traversal that has seen its vertex does nothing. -/
theorem scanned_of_mem {stack seen : List V} {v : V} (h : Settled next stack seen)
    (hfresh : place v ∉ stack.map place) (hv : v ∈ seen) :
    Scanned next place stack seen v seen where
  fresh := hfresh
  mem := hv
  grows _ hx := hx
  new _ hu := .inl hu
  settled := h
  clear u places hleads hu := by
    have hstack : v ∉ stack := fun hmem => hfresh (List.mem_map.2 ⟨v, hmem, rfl⟩)
    exact absurd (h.reach hleads.reach hv hstack).1 hu

/-- Of a list of things to do one after the other that fails, there is the first that does. -/
theorem foldlM_eq_none {σ : Type*} {f : σ → V → Option σ} {s : σ} {l : List V}
    (h : l.foldlM f s = none) :
    ∃ pre e post s', l = pre ++ e :: post ∧ pre.foldlM f s = some s' ∧ f s' e = none := by
  induction l generalizing s with
  | nil => cases h
  | cons a l ih =>
    rw [List.foldlM_cons] at h
    cases ha : f s a with
    | none => exact ⟨[], a, l, s, rfl, rfl, ha⟩
    | some s₁ =>
      rw [ha] at h
      obtain ⟨pre, e, post, s', rfl, hpre, he⟩ := ih h
      refine ⟨a :: pre, e, post, s', rfl, ?_, he⟩
      rw [List.foldlM_cons, ha]
      exact hpre

variable [DecidableEq V] [DecidableEq R]

/-- A step of `scan`. -/
theorem scan_succ (fuel : ℕ) (stack seen : List V) (v : V) :
    scan next place (fuel + 1) stack seen v =
      if place v ∈ stack.map place then none
      else if v ∈ seen then some seen
      else (next v).foldlM (scan next place fuel (v :: stack)) (v :: seen) := by
  rw [scan]

/-- Following edges one after the other, if each is followed as it should. -/
theorem scanning_of_foldlM {fuel : ℕ} {stack seen : List V} {v : V}
    (ih : ∀ {seen seen' : List V} {e : V}, Settled next (v :: stack) seen →
      scan next place fuel (v :: stack) seen e = some seen' →
      Scanned next place (v :: stack) seen e seen')
    (h : Settled next stack seen) (hv : v ∉ seen) {pre seen' : List V}
    (hscan : pre.foldlM (scan next place fuel (v :: stack)) (v :: seen) = some seen') :
    Scanning next place stack seen v pre seen' := by
  induction pre using List.reverseRecOn generalizing seen' with
  | nil =>
    obtain rfl : v :: seen = seen' := Option.some.inj hscan
    exact .enter h hv
  | append_singleton pre e ihpre =>
    rw [List.foldlM_append] at hscan
    obtain ⟨between, hpre, hlast⟩ := Option.bind_eq_some_iff.1 hscan
    have he : scan next place fuel (v :: stack) between e = some seen' := by simpa using hlast
    have hscanning := ihpre hpre
    exact hscanning.follow (ih hscanning.settled he)

/-- What a traversal that has met no return has done. -/
theorem scanned_of_scan {fuel : ℕ} {stack seen seen' : List V} {v : V}
    (h : Settled next stack seen) (hscan : scan next place fuel stack seen v = some seen') :
    Scanned next place stack seen v seen' := by
  induction fuel generalizing stack seen seen' v with
  | zero =>
    rw [scan] at hscan
    split_ifs at hscan with hfresh hv
    · obtain rfl := Option.some.inj hscan
      exact scanned_of_mem h hfresh hv
  | succ fuel ih =>
    rw [scan_succ] at hscan
    split_ifs at hscan with hfresh hv
    · obtain rfl := Option.some.inj hscan
      exact scanned_of_mem h hfresh hv
    · exact (scanning_of_foldlM (fun h hscan => ih h hscan) h hv hscan).leave hfresh

/-- Where a traversal with enough fuel meets a return, an edge from the end of a first way to a new
vertex goes back. -/
theorem exists_leads_of_scan {all : List R} {fuel : ℕ} {stack seen : List V} {v : V}
    (hall : ∀ u, Reach next v u → place u ∈ all) (h : Settled next stack seen)
    (hnodup : (stack.map place).Nodup) (hplaces : ∀ r ∈ stack.map place, r ∈ all)
    (hfuel : all.length ≤ fuel + stack.length) (hfresh : place v ∉ stack.map place)
    (hscan : scan next place fuel stack seen v = none) :
    ∃ u places w, Leads next place v u places ∧ u ∉ seen ∧ w ∈ next u ∧
      (place w ∈ stack.map place ∨ place w ∈ places) := by
  have hnodup' : (place v :: stack.map place).Nodup := List.nodup_cons.2 ⟨hfresh, hnodup⟩
  have hplaces' : ∀ r ∈ place v :: stack.map place, r ∈ all :=
    List.forall_mem_cons.2 ⟨hall v .refl, hplaces⟩
  induction fuel generalizing stack seen v with
  | zero =>
    have hle : (place v :: stack.map place).length ≤ all.length :=
      (List.subperm_of_subset hnodup' hplaces').length_le
    rw [List.length_cons, List.length_map] at hle
    omega
  | succ fuel ih =>
    rw [scan_succ, if_neg hfresh] at hscan
    split_ifs at hscan with hseen
    obtain ⟨pre, e, post, seen', hnext, hpre, he⟩ := foldlM_eq_none hscan
    have hscanning : Scanning next place stack seen v pre seen' :=
      scanning_of_foldlM (fun h hscan => scanned_of_scan h hscan) h hseen hpre
    have hedge : e ∈ next v := by
      rw [hnext]
      exact List.mem_append_right _ List.mem_cons_self
    by_cases hback : place e ∈ (v :: stack).map place
    · refine ⟨v, [place v], e, .here v, hseen, hedge, ?_⟩
      rw [List.map_cons, List.mem_cons] at hback
      exact hback.symm.imp_right fun heq => List.mem_singleton.2 heq
    · have hfuel' : all.length ≤ fuel + (v :: stack).length := by
        rw [List.length_cons]
        omega
      have hall' : ∀ u, Reach next e u → place u ∈ all := fun u hu => hall u (.head hedge hu)
      obtain ⟨u, places, w, hleads, hu, hw, hreturn⟩ := ih hall' hscanning.settled hnodup' hplaces'
        hfuel' hback he (List.nodup_cons.2 ⟨hback, hnodup'⟩)
        (List.forall_mem_cons.2 ⟨hall' e .refl, hplaces'⟩)
      -- What the earlier edges lead to was seen and left, so none of them leads to this end.
      have hfirst : ∀ other ∈ pre, ¬ Reach next other u := by
        intro other hother hreach
        obtain ⟨hmem, hplace⟩ := hscanning.followed other hother
        have hstack : other ∉ v :: stack := fun hmem => hplace (List.mem_map.2 ⟨other, hmem, rfl⟩)
        exact hu (hscanning.settled.reach hreach hmem hstack).1
      have hne : u ≠ v := fun heq => hu (heq ▸ hscanning.mem)
      refine ⟨u, place v :: places, w, .on hnext hne hfirst hleads,
        fun hmem => hu (hscanning.grows u hmem), hw, ?_⟩
      rw [List.map_cons, List.mem_cons] at hreturn
      rw [List.mem_cons]
      tauto

/-- A traversal that meets no return has seen what can be reached. -/
theorem mem_of_scan {fuel : ℕ} {root u : V} {seen : List V}
    (hscan : scan next place fuel [] [] root = some seen) (hu : Reach next root u) : u ∈ seen := by
  have hstart : Settled next [] [] := ⟨nofun, nofun⟩
  have hscanned := scanned_of_scan hstart hscan
  exact (hscanned.settled.reach hu hscanned.mem List.not_mem_nil).1

/-- A traversal meets a return exactly where an edge from the end of a first way goes back to a
place on it. -/
theorem scan_eq_none_iff {all : List R} {root : V} (hall : ∀ u, Reach next root u → place u ∈ all) :
    scan next place all.length [] [] root = none ↔
      ∃ u places w, Leads next place root u places ∧ w ∈ next u ∧ place w ∈ places := by
  have hstart : Settled next [] [] := ⟨nofun, nofun⟩
  constructor
  · intro hscan
    obtain ⟨u, places, w, hleads, -, hw, hreturn⟩ := exists_leads_of_scan hall hstart List.nodup_nil
      nofun (Nat.le_refl _) List.not_mem_nil hscan
    exact ⟨u, places, w, hleads, hw, hreturn.resolve_left List.not_mem_nil⟩
  · rintro ⟨u, places, w, hleads, hw, hreturn⟩
    cases hscan : scan next place all.length [] [] root with
    | none => rfl
    | some seen =>
      have hclear := (scanned_of_scan hstart hscan).clear u places hleads List.not_mem_nil w hw
      exact absurd hreturn hclear.2

end DaemonFramework.Traversal
