import Mathlib
import ExportAudit.Proofs.Failures
import ExportAudit.Proofs.UsageShares

/-!
# Every run-time usage is attributed once

A usage refers to the first declaration that answers it, among those of its kind only (`UsageTargets.Refers`): a network
call to a route, a hook call to a hook, a form action or an action call to a server action.

- One step attaches a usage to the declaration that it refers to, or changes nothing (`attachOne_cases`), so the number
  of usages that declarations carry grows by one exactly when the usage was found (`usageCount_addAt`).
- A run appends to every declaration the usages that refer to it, in their order, and its count is the number of usages
  that refer to some declaration (`attach_attributes`).
-/

namespace ExportAudit.UsageTargets

/-! ## What a usage refers to -/

/-- The item at a position passes a test, and none before it does. -/
def IsFirst {α : Type} (p : α → Bool) (items : List α) (i : Nat) : Prop :=
  ∃ h : i < items.length, p items[i] = true ∧ ∀ j (hj : j < i), ¬ p items[j] = true

theorem isFirst_iff {α : Type} {p : α → Bool} {items : List α} {i : Nat} :
    IsFirst p items i ↔ items.findIdx? p = some i :=
  List.findIdx?_eq_some_iff_getElem.symm

/-- The position of a declaration among those of its sort. -/
inductive Place where
  | route (i : Nat)
  | hook (i : Nat)
  | action (i : Nat)
  deriving DecidableEq, Repr

/-- A usage refers to the first declaration that answers it, and only one of the sort that its kind asks for can. -/
inductive Refers (t : UsageTargets) (u : DynamicUsage) : Place → Prop
  | route {path : String} {i : Nat} (kind : u.kind = .networkCall) (target : Url.targetPath u.target = .ok path)
      (first : IsFirst (·.meets path) t.routes i) : Refers t u (.route i)
  | hook {i : Nat} (kind : u.kind = .hookCall) (first : IsFirst (·.name == u.target) t.hooks i) : Refers t u (.hook i)
  | action {i : Nat} (kind : u.kind = .formAction ∨ u.kind = .actionCall)
      (first : IsFirst (·.name == u.target) t.actions i) : Refers t u (.action i)

/-- Whether a usage goes to a place. -/
def goesTo (t : UsageTargets) (u : DynamicUsage) : Place → Bool
  | .route i => goesToRoute t.routes i u
  | .hook i => goesToHook t.hooks i u
  | .action i => goesToAction t.actions i u

section Reference

variable {t t' : UsageTargets} {u : DynamicUsage} {place place' : Place} {found : Bool}

theorem matchRoute?_eq_ok_iff {routes : List Route} {target : String} {m : Option Nat} :
    matchRoute? routes target = .ok m ↔
      ∃ path, Url.targetPath target = .ok path ∧ routes.findIdx? (·.meets path) = m := by
  unfold matchRoute?
  cases Url.targetPath target with
  | error fault => simp [bind, Except.bind]
  | ok path => simp [bind, Except.bind, pure, Except.pure]

theorem refers_route_iff {i : Nat} :
    t.Refers u (.route i) ↔ u.kind = .networkCall ∧ matchRoute? t.routes u.target = .ok (some i) := by
  rw [matchRoute?_eq_ok_iff]
  constructor
  · rintro (⟨kind, target, first⟩ | _ | _)
    exact ⟨kind, _, target, isFirst_iff.mp first⟩
  · rintro ⟨kind, path, target, first⟩
    exact .route kind target (isFirst_iff.mpr first)

theorem refers_hook_iff {i : Nat} :
    t.Refers u (.hook i) ↔ u.kind = .hookCall ∧ matchName? t.hooks u.target = some i := by
  constructor
  · rintro (_ | ⟨kind, first⟩ | _)
    exact ⟨kind, isFirst_iff.mp first⟩
  · rintro ⟨kind, first⟩
    exact .hook kind (isFirst_iff.mpr first)

theorem refers_action_iff {i : Nat} : t.Refers u (.action i) ↔
    (u.kind = .formAction ∨ u.kind = .actionCall) ∧ matchName? t.actions u.target = some i := by
  constructor
  · rintro (_ | _ | ⟨kind, first⟩)
    exact ⟨kind, isFirst_iff.mp first⟩
  · rintro ⟨kind, first⟩
    exact .action kind (isFirst_iff.mpr first)

theorem goesTo_iff_refers : t.goesTo u place = true ↔ t.Refers u place := by
  cases place with
  | route i =>
    rw [goesTo, refers_route_iff, goesToRoute, Bool.and_eq_true, beq_iff_eq]
    cases hmatch : matchRoute? t.routes u.target with
    | error fault => simp
    | ok m => cases m <;> simp
  | hook i => simp [goesTo, refers_hook_iff, goesToHook]
  | action i => simp [goesTo, refers_action_iff, goesToAction]

instance : Decidable (t.Refers u place) :=
  decidable_of_iff _ goesTo_iff_refers

/-- No usage is shared by two declarations. -/
theorem Refers.unique (h : t.Refers u place) (h' : t.Refers u place') : place = place' := by
  cases h with
  | route kind target first =>
    cases h' with
    | route kind' target' first' =>
      have hpath := Except.ok.inj (target.symm.trans target')
      subst hpath
      rw [isFirst_iff] at first first'
      rw [Option.some.inj (first.symm.trans first')]
    | hook kind' first' => simp [kind] at kind'
    | action kind' first' => simp [kind] at kind'
  | hook kind first =>
    cases h' with
    | route kind' target' first' => simp [kind] at kind'
    | hook kind' first' =>
      rw [isFirst_iff] at first first'
      rw [Option.some.inj (first.symm.trans first')]
    | action kind' first' => simp [kind] at kind'
  | action kind first =>
    cases h' with
    | route kind' target' first' => simp [kind'] at kind
    | hook kind' first' => simp [kind'] at kind
    | action kind' first' =>
      rw [isFirst_iff] at first first'
      rw [Option.some.inj (first.symm.trans first')]

/-! ## One usage -/

/-- The declarations with a usage attached at a place. -/
def addAt (t : UsageTargets) (u : DynamicUsage) : Place → UsageTargets
  | .route i => { t with routes := t.routes.modify i (Route.addUsage u) }
  | .hook i => { t with hooks := t.hooks.modify i (Callable.addUsage u) }
  | .action i => { t with actions := t.actions.modify i (Callable.addUsage u) }

/-- All that a step can do: attach the usage where it refers to, or leave everything as it is. -/
theorem attachOne_cases (h : t.attachOne u = .ok (t', found)) :
    (∃ place, t.Refers u place ∧ t' = t.addAt u place ∧ found = true) ∨
      ((∀ place, ¬ t.Refers u place) ∧ t' = t ∧ found = false) := by
  unfold attachOne at h
  cases hkind : u.kind with
  | networkCall =>
    cases hmatch : matchRoute? t.routes u.target with
    | error fault => simp [hkind, hmatch, bind, Except.bind] at h
    | ok m =>
      cases m with
      | none =>
        simp only [hkind, hmatch, bind, Except.bind, pure, Except.pure, Except.ok.injEq, Prod.mk.injEq] at h
        refine Or.inr ⟨fun place => ?_, h.1.symm, h.2.symm⟩
        cases place <;> simp [refers_route_iff, refers_hook_iff, refers_action_iff, hkind, hmatch]
      | some i =>
        simp only [hkind, hmatch, bind, Except.bind, pure, Except.pure, Except.ok.injEq, Prod.mk.injEq] at h
        exact Or.inl ⟨.route i, refers_route_iff.mpr ⟨hkind, hmatch⟩, h.1.symm, h.2.symm⟩
  | hookCall =>
    cases hmatch : matchName? t.hooks u.target with
    | none =>
      simp only [hkind, hmatch, Except.ok.injEq, Prod.mk.injEq] at h
      refine Or.inr ⟨fun place => ?_, h.1.symm, h.2.symm⟩
      cases place <;> simp [refers_route_iff, refers_hook_iff, refers_action_iff, hkind, hmatch]
    | some i =>
      simp only [hkind, hmatch, Except.ok.injEq, Prod.mk.injEq] at h
      exact Or.inl ⟨.hook i, refers_hook_iff.mpr ⟨hkind, hmatch⟩, h.1.symm, h.2.symm⟩
  | formAction | actionCall =>
    cases hmatch : matchName? t.actions u.target with
    | none =>
      simp only [hkind, hmatch, Except.ok.injEq, Prod.mk.injEq] at h
      refine Or.inr ⟨fun place => ?_, h.1.symm, h.2.symm⟩
      cases place <;> simp [refers_route_iff, refers_hook_iff, refers_action_iff, hkind, hmatch]
    | some i =>
      simp only [hkind, hmatch, Except.ok.injEq, Prod.mk.injEq] at h
      exact Or.inl ⟨.action i, refers_action_iff.mpr ⟨by simp [hkind], hmatch⟩, h.1.symm, h.2.symm⟩

/-! ## The number of usages -/

/-- The number of usages that declarations carry. -/
def usageCount (t : UsageTargets) : Nat :=
  let named := fun (declared : List Callable) => (declared.map (·.usedBy.length)).sum
  (t.routes.map (·.usedBy.length)).sum + named t.hooks + named t.actions

theorem sum_map_modify {α : Type} (size : α → Nat) {grow : α → α} (hgrow : ∀ a, size (grow a) = size a + 1) {i : Nat}
    {items : List α} (hi : i < items.length) :
    ((items.modify i grow).map size).sum = (items.map size).sum + 1 := by
  induction items generalizing i with
  | nil => exact absurd hi (Nat.not_lt_zero _)
  | cons a items ih =>
    cases i with
    | zero =>
      rw [List.modify_zero_cons, List.map_cons, List.map_cons, List.sum_cons, List.sum_cons, hgrow]
      omega
    | succ i =>
      rw [List.modify_succ_cons, List.map_cons, List.map_cons, List.sum_cons, List.sum_cons,
        ih (Nat.lt_of_succ_lt_succ hi)]
      omega

/-- A usage that is attached where it refers to counts once. -/
theorem usageCount_addAt (h : t.Refers u place) : (t.addAt u place).usageCount = t.usageCount + 1 := by
  have hroute (r : Route) : (r.addUsage u).usedBy.length = r.usedBy.length + 1 := by simp [Route.addUsage]
  have hcallable (c : Callable) : (c.addUsage u).usedBy.length = c.usedBy.length + 1 := by simp [Callable.addUsage]
  cases h with
  | route kind target first =>
    simp only [usageCount, addAt, sum_map_modify (fun r : Route => r.usedBy.length) hroute first.1]
    omega
  | hook kind first =>
    simp only [usageCount, addAt, sum_map_modify (fun c : Callable => c.usedBy.length) hcallable first.1]
    omega
  | action kind first =>
    simp only [usageCount, addAt, sum_map_modify (fun c : Callable => c.usedBy.length) hcallable first.1]
    omega

/-- A step adds one to the number of usages if it found a declaration, and nothing otherwise. -/
theorem usageCount_attachOne (h : t.attachOne u = .ok (t', found)) :
    t'.usageCount = t.usageCount + if found then 1 else 0 := by
  obtain ⟨place, hrefers, rfl, rfl⟩ | ⟨-, rfl, rfl⟩ := attachOne_cases h
  · exact usageCount_addAt hrefers
  · rfl

/-- A run adds as many usages as it counts, and it counts no usage twice. -/
theorem usageCount_attach {us : List DynamicUsage} {n : Nat} (h : t.attach us = .ok (t', n)) :
    t'.usageCount = t.usageCount + n ∧ n ≤ us.length := by
  induction us generalizing t n with
  | nil =>
    rw [attach, Except.ok.injEq, Prod.mk.injEq] at h
    obtain ⟨rfl, rfl⟩ := h
    exact ⟨rfl, Nat.le_refl 0⟩
  | cons u us ih =>
    obtain ⟨one, hone, h⟩ := ok_of_bind h
    obtain ⟨rest, hrest, h⟩ := ok_of_bind h
    cases h
    obtain ⟨hgrowth, hbound⟩ := ih hrest
    have hstep := usageCount_attachOne hone
    rw [List.length_cons]
    cases hfound : one.2 <;> simp only [hfound, Bool.false_eq_true, ↓reduceIte] at hstep ⊢ <;> omega

end Reference

/-! ## All usages -/

/-- The usages among some that refer to a declaration, in their order. -/
def referring (t : UsageTargets) (us : List DynamicUsage) (place : Place) : List DynamicUsage :=
  us.filter fun u => t.Refers u place

/-- What attaching usages to declarations comes to: every declaration keeps its usages and its other fields and gets, in
their order, the usages that refer to it. No usage refers to two declarations, and the count is the growth of all the
lists of usages together. -/
structure Attributes (t : UsageTargets) (us : List DynamicUsage) (t' : UsageTargets) (n : Nat) : Prop where
  routes : t'.routes = t.routes.mapIdx fun i r => { r with usedBy := r.usedBy ++ t.referring us (.route i) }
  hooks : t'.hooks = t.hooks.mapIdx fun i c => { c with usedBy := c.usedBy ++ t.referring us (.hook i) }
  actions : t'.actions = t.actions.mapIdx fun i c => { c with usedBy := c.usedBy ++ t.referring us (.action i) }
  once : ∀ u ∈ us, ∀ place place', t.Refers u place → t.Refers u place' → place = place'
  growth : t'.usageCount = t.usageCount + n
  bound : n ≤ us.length

theorem referring_eq (t : UsageTargets) (us : List DynamicUsage) (place : Place) :
    t.referring us place = us.filter (t.goesTo · place) := by
  unfold referring
  congr 1
  funext u
  rw [Bool.eq_iff_iff, decide_eq_true_iff, goesTo_iff_refers]

/-- **Every usage is attributed to the first declaration that answers it, and to no other.** -/
theorem attach_attributes {t t' : UsageTargets} {us : List DynamicUsage} {n : Nat} (h : t.attach us = .ok (t', n)) :
    t.Attributes us t' n := by
  obtain ⟨hgrowth, hbound⟩ := usageCount_attach h
  have hshared : t' = t.shared us := attach_eq_shared h
  have hroutes : t'.routes = share (goesToRoute t.routes) Route.addUsages us t.routes := by rw [hshared]; rfl
  have hhooks : t'.hooks = share (goesToHook t.hooks) Callable.addUsages us t.hooks := by rw [hshared]; rfl
  have hactions : t'.actions = share (goesToAction t.actions) Callable.addUsages us t.actions := by rw [hshared]; rfl
  refine ⟨?_, ?_, ?_, fun u _ place place' => Refers.unique, hgrowth, hbound⟩
  · simp only [hroutes, referring_eq]
    rfl
  · simp only [hhooks, referring_eq]
    rfl
  · simp only [hactions, referring_eq]
    rfl

/-- Two routes of one path, two hooks that are equal in all fields, and an action of the hooks' name. -/
def twins : UsageTargets where
  routes := [{ path := "/api/[id]", file := "a.ts" }, { path := "/api/[id]", file := "b.ts" }]
  hooks := [{ name := "save", file := "c.ts", line := 1 }, { name := "save", file := "c.ts", line := 1 }]
  actions := [{ name := "save", file := "d.ts", line := 1 }]

/-- Usages of all kinds; the fourth refers to nothing. -/
def twinUsages : List DynamicUsage :=
  [⟨.hookCall, "save", "p.ts", 1, none⟩, ⟨.networkCall, "/api/7", "p.ts", 2, some "GET"⟩,
    ⟨.formAction, "save", "p.ts", 3, none⟩, ⟨.hookCall, "store", "p.ts", 4, none⟩,
    ⟨.actionCall, "save", "p.ts", 5, none⟩]

/-- Of the twins only the first gets usages. -/
theorem attach_attributes_twins : ∃ t', twins.attach twinUsages = .ok (t', 4) ∧ twins.Attributes twinUsages t' 4 ∧
    t'.routes.map (·.usedBy.map (·.line)) = [[2], []] ∧ t'.hooks.map (·.usedBy.map (·.line)) = [[1], []] ∧
    t'.actions.map (·.usedBy.map (·.line)) = [[3, 5]] := by
  have h : twins.attach twinUsages = .ok (twins.shared twinUsages, 4) := by decide +kernel
  exact ⟨_, h, attach_attributes h, by decide +kernel, by decide +kernel, by decide +kernel⟩

end ExportAudit.UsageTargets
