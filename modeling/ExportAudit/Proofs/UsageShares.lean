import Mathlib
import ExportAudit.UsageMatch

/-!
# Which declaration gets which run-time usage

A usage goes to one declaration at most, and which one is decided by what declarations are called, not by the usages
they already have. So the usages of a project are shared out at once (`UsageTargets.shared`): attaching them in turn
appends to every declaration, in order, those that go to it (`attach_eq_shared`).
-/

namespace ExportAudit

/-! ## Sharing out -/

section Share

variable {α : Type} {goes : Nat → DynamicUsage → Bool} {add : α → List DynamicUsage → α}

/-- Declarations, each with the usages added that go to its position. -/
def share (goes : Nat → DynamicUsage → Bool) (add : α → List DynamicUsage → α) (us : List DynamicUsage)
    (items : List α) : List α :=
  items.mapIdx fun i a => add a (us.filter (goes i))

theorem getElem?_share (us : List DynamicUsage) (items : List α) (i : Nat) :
    (share goes add us items)[i]? = items[i]?.map (add · (us.filter (goes i))) := by
  rw [share, List.getElem?_mapIdx]

theorem map_share {β : Type} {f : α → β} (hf : ∀ a us, f (add a us) = f a) (us : List DynamicUsage) (items : List α) :
    (share goes add us items).map f = items.map f := by
  apply List.ext_getElem?
  intro i
  rw [List.getElem?_map, List.getElem?_map, getElem?_share, Option.map_map]
  congr 1
  funext a
  exact hf a _

/-- Usages that go nowhere change nothing. -/
theorem share_of_none (hadd : ∀ a, add a [] = a) {us : List DynamicUsage} (h : ∀ i, ∀ u ∈ us, goes i u = false)
    (items : List α) : share goes add us items = items := by
  apply List.ext_getElem?
  intro i
  have hnone : us.filter (goes i) = [] := List.filter_eq_nil_iff.mpr fun u hu => by simp [h i u hu]
  rw [getElem?_share, hnone]
  cases items[i]? with
  | none => rfl
  | some a => rw [Option.map_some, hadd]

/-- A usage that goes to one position is added there. -/
theorem share_singleton (hadd : ∀ a, add a [] = a) {u : DynamicUsage} {k : Nat} (h : ∀ i, goes i u = (k == i))
    (items : List α) : share goes add [u] items = items.modify k (add · [u]) := by
  apply List.ext_getElem?
  intro i
  rw [getElem?_share, List.getElem?_modify]
  by_cases hi : k = i
  · simp [h, hi]
  · simp [h, hi, hadd]

/-- Usages may be shared out in two portions. -/
theorem share_append (hadd : ∀ a us vs, add (add a us) vs = add a (us ++ vs)) (us vs : List DynamicUsage)
    (items : List α) : share goes add vs (share goes add us items) = share goes add (us ++ vs) items := by
  apply List.ext_getElem?
  intro i
  rw [getElem?_share, getElem?_share, getElem?_share, Option.map_map, List.filter_append]
  congr 1
  funext a
  exact hadd a _ _

/-- Every declaration of one list stands in another, with all its usages and perhaps others. -/
def Gains (add : α → List DynamicUsage → α) (items items' : List α) : Prop :=
  ∀ a ∈ items, ∃ item more more', a = add item more ∧ add item more' ∈ items' ∧ more ⊆ more'

theorem exists_mem_share {items : List α} {a : α} (us : List DynamicUsage) (h : a ∈ items) :
    ∃ more, add a more ∈ share goes add us items := by
  obtain ⟨i, hi⟩ := List.mem_iff_getElem?.mp h
  refine ⟨us.filter (goes i), List.mem_iff_getElem?.mpr ⟨i, ?_⟩⟩
  rw [getElem?_share, hi, Option.map_some]

/-- Of more usages every item gets those that it got before, and perhaps others. -/
theorem gains_share {us us' : List DynamicUsage} (hsub : us ⊆ us') (items : List α) :
    Gains add (share goes add us items) (share goes add us' items) := by
  intro a h
  obtain ⟨i, hi⟩ := List.mem_iff_getElem?.mp h
  rw [getElem?_share] at hi
  obtain ⟨item, hitem, rfl⟩ := Option.map_eq_some_iff.mp hi
  refine ⟨item, us.filter (goes i), us'.filter (goes i), rfl, List.mem_iff_getElem?.mpr ⟨i, ?_⟩,
    List.filter_subset _ hsub⟩
  rw [getElem?_share, hitem, Option.map_some]

/-- Items behind all those that usages go to get none. -/
theorem share_append_idle (hadd : ∀ a, add a [] = a) {items : List α} (us : List DynamicUsage)
    (hidle : ∀ i u, goes (i + items.length) u = false) (idle : List α) :
    share goes add us (items ++ idle) = share goes add us items ++ idle := by
  have hrest := share_of_none hadd (fun i u (_ : u ∈ us) => hidle i u) idle
  unfold share at hrest ⊢
  rw [List.mapIdx_append, hrest]

end Share

/-- A route with more usages. -/
def Route.addUsages (r : Route) (us : List DynamicUsage) : Route :=
  { r with usedBy := r.usedBy ++ us }

/-- A declaration with more usages. -/
def Callable.addUsages (c : Callable) (us : List DynamicUsage) : Callable :=
  { c with usedBy := c.usedBy ++ us }

theorem Route.path_addUsages (r : Route) (us : List DynamicUsage) : (r.addUsages us).path = r.path := rfl

theorem Callable.name_addUsages (c : Callable) (us : List DynamicUsage) : (c.addUsages us).name = c.name := rfl

theorem Route.addUsages_nil (r : Route) : r.addUsages [] = r := by
  unfold Route.addUsages
  rw [List.append_nil]

theorem Callable.addUsages_nil (c : Callable) : c.addUsages [] = c := by
  unfold Callable.addUsages
  rw [List.append_nil]

theorem Route.addUsages_addUsages (r : Route) (us vs : List DynamicUsage) :
    (r.addUsages us).addUsages vs = r.addUsages (us ++ vs) := by
  unfold Route.addUsages
  rw [List.append_assoc]

theorem Callable.addUsages_addUsages (c : Callable) (us vs : List DynamicUsage) :
    (c.addUsages us).addUsages vs = c.addUsages (us ++ vs) := by
  unfold Callable.addUsages
  rw [List.append_assoc]

namespace UsageTargets

/-! ## What decides -/

/-- Whether a usage goes to the route at a position. -/
def goesToRoute (routes : List Route) (i : Nat) (u : DynamicUsage) : Bool :=
  u.kind == .networkCall &&
    match matchRoute? routes u.target with
    | .ok (some k) => k == i
    | _ => false

/-- Whether a usage goes to the hook at a position. -/
def goesToHook (hooks : List Hook) (i : Nat) (u : DynamicUsage) : Bool :=
  u.kind == .hookCall && matchName? hooks u.target == some i

/-- Whether a usage goes to the server action at a position. -/
def goesToAction (actions : List ServerAction) (i : Nat) (u : DynamicUsage) : Bool :=
  (u.kind == .formAction || u.kind == .actionCall) && matchName? actions u.target == some i

/-- Declarations with the usages that go to them. -/
def shared (t : UsageTargets) (us : List DynamicUsage) : UsageTargets :=
  { routes := share (goesToRoute t.routes) Route.addUsages us t.routes
    hooks := share (goesToHook t.hooks) Callable.addUsages us t.hooks
    actions := share (goesToAction t.actions) Callable.addUsages us t.actions }

variable {t t' : UsageTargets} {u : DynamicUsage}

theorem matchRoute?_congr {routes routes' : List Route} (h : routes'.map (·.path) = routes.map (·.path))
    (target : String) : matchRoute? routes' target = matchRoute? routes target := by
  have hfind (l : List Route) (path : String) : l.findIdx? (·.meets path) =
      (l.map (·.path)).findIdx? fun p => Route.meets { path := p, file := "" } path := by
    rw [List.findIdx?_map]
    rfl
  unfold matchRoute?
  simp only [hfind, h]

theorem matchName?_congr {declared declared' : List Callable} (h : declared'.map (·.name) = declared.map (·.name))
    (name : String) : matchName? declared' name = matchName? declared name := by
  have hfind (l : List Callable) : matchName? l name = (l.map (·.name)).findIdx? (· == name) := by
    rw [List.findIdx?_map]
    rfl
  rw [hfind, hfind, h]

theorem goesToRoute_shared (us : List DynamicUsage) : goesToRoute (t.shared us).routes = goesToRoute t.routes := by
  have hpaths : (t.shared us).routes.map (·.path) = t.routes.map (·.path) :=
    map_share Route.path_addUsages us t.routes
  funext i u
  unfold goesToRoute
  rw [matchRoute?_congr hpaths]

theorem goesToHook_shared (us : List DynamicUsage) : goesToHook (t.shared us).hooks = goesToHook t.hooks := by
  have hnames : (t.shared us).hooks.map (·.name) = t.hooks.map (·.name) :=
    map_share Callable.name_addUsages us t.hooks
  funext i u
  unfold goesToHook
  rw [matchName?_congr hnames]

theorem goesToAction_shared (us : List DynamicUsage) : goesToAction (t.shared us).actions = goesToAction t.actions := by
  have hnames : (t.shared us).actions.map (·.name) = t.actions.map (·.name) :=
    map_share Callable.name_addUsages us t.actions
  funext i u
  unfold goesToAction
  rw [matchName?_congr hnames]

theorem shared_shared (us vs : List DynamicUsage) : (t.shared us).shared vs = t.shared (us ++ vs) := by
  rw [shared, goesToRoute_shared, goesToHook_shared, goesToAction_shared]
  simp only [shared, share_append Route.addUsages_addUsages, share_append Callable.addUsages_addUsages]

/-! ## Attaching -/

/-- A network call goes to the first route that it meets. -/
theorem share_route {routes : List Route} {m : Option Nat} (hkind : u.kind = .networkCall)
    (hmatch : matchRoute? routes u.target = .ok m) : share (goesToRoute routes) Route.addUsages [u] routes =
      match m with
      | some k => routes.modify k (Route.addUsage u)
      | none => routes := by
  cases m with
  | none => exact share_of_none Route.addUsages_nil (by simp [goesToRoute, hmatch]) _
  | some k => exact share_singleton Route.addUsages_nil (by simp [goesToRoute, hkind, hmatch]) _

/-- A usage by name goes to the first declaration of that name. -/
theorem share_named {declared : List Callable} {goes : Nat → DynamicUsage → Bool}
    (hgoes : ∀ i, goes i u = (matchName? declared u.target == some i)) :
    share goes Callable.addUsages [u] declared =
      match matchName? declared u.target with
      | some k => declared.modify k (Callable.addUsage u)
      | none => declared := by
  cases hmatch : matchName? declared u.target with
  | none => exact share_of_none Callable.addUsages_nil (by simp [hgoes, hmatch]) _
  | some k => exact share_singleton Callable.addUsages_nil (by simp [hgoes, hmatch]) _

/-- One usage goes where it belongs. -/
theorem attachOne_eq_shared {found : Bool} (h : t.attachOne u = .ok (t', found)) : t' = t.shared [u] := by
  have hroutes (hkind : u.kind ≠ .networkCall) : share (goesToRoute t.routes) Route.addUsages [u] t.routes = t.routes :=
    share_of_none Route.addUsages_nil (by simp [goesToRoute, hkind]) _
  have hhooks (hkind : u.kind ≠ .hookCall) : share (goesToHook t.hooks) Callable.addUsages [u] t.hooks = t.hooks :=
    share_of_none Callable.addUsages_nil (by simp [goesToHook, hkind]) _
  have hactions (hform : u.kind ≠ .formAction) (hcall : u.kind ≠ .actionCall) :
      share (goesToAction t.actions) Callable.addUsages [u] t.actions = t.actions :=
    share_of_none Callable.addUsages_nil (by simp [goesToAction, hform, hcall]) _
  unfold attachOne at h
  unfold shared
  cases hkind : u.kind with
  | networkCall =>
    rw [hhooks (by simp [hkind]), hactions (by simp [hkind]) (by simp [hkind])]
    cases hmatch : matchRoute? t.routes u.target with
    | error fault => simp [hkind, hmatch, bind, Except.bind] at h
    | ok m =>
      rw [share_route hkind hmatch]
      cases m <;> simp [hkind, hmatch, bind, Except.bind, pure, Except.pure] at h <;> exact h.1.symm
  | hookCall =>
    rw [hroutes (by simp [hkind]), hactions (by simp [hkind]) (by simp [hkind]),
      share_named (by simp [goesToHook, hkind])]
    cases hmatch : matchName? t.hooks u.target <;> simp [hkind, hmatch] at h <;> exact h.1.symm
  | formAction | actionCall =>
    rw [hroutes (by simp [hkind]), hhooks (by simp [hkind]), share_named (by simp [goesToAction, hkind])]
    cases hmatch : matchName? t.actions u.target <;> simp [hkind, hmatch] at h <;> exact h.1.symm

/-- **Attaching usages in turn shares them out.** -/
theorem attach_eq_shared {us : List DynamicUsage} {n : Nat} (h : t.attach us = .ok (t', n)) : t' = t.shared us := by
  induction us generalizing t n with
  | nil =>
    rw [attach, Except.ok.injEq, Prod.mk.injEq] at h
    rw [← h.1, shared, share_of_none Route.addUsages_nil (by simp), share_of_none Callable.addUsages_nil (by simp),
      share_of_none Callable.addUsages_nil (by simp)]
  | cons u us ih =>
    unfold attach at h
    cases hone : t.attachOne u with
    | error fault => simp [hone, bind, Except.bind] at h
    | ok one =>
      cases hrest : one.1.attach us with
      | error fault => simp [hone, hrest, bind, Except.bind] at h
      | ok rest =>
        simp only [hone, hrest, bind, Except.bind, pure, Except.pure, Except.ok.injEq, Prod.mk.injEq] at h
        obtain ⟨rfl, -⟩ := h
        rw [ih hrest, attachOne_eq_shared hone, shared_shared]
        rfl

end UsageTargets

end ExportAudit
