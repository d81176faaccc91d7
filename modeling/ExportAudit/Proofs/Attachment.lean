import Mathlib
import ExportAudit.Analysis

/-!
# Sites attached to exports

Whatever marks an export as used attaches sites to exports at certain positions and changes nothing else. `attachAll`
is that effect for a list of positions and sites, and every step of an analysis that touches exports is one:

- the sites of an export after it (`getElem?_attachAll`, `mem_usedBy_addUsages`), its other fields (`map_attachAll`);
- a step `Attaches` when it equals `attachAll` of a list that it reads off the exports whatever usages they carry;
  such steps compose and fold (`Attaches.comp`, `attaches_foldl`);
- binding an import (`attaches_bindImport`) and every rule (`attaches_rule`, `attaches_rules`) are such steps.
-/

namespace ExportAudit

/-! ## The sites of one export -/

section Sites

variable {sites ss : List Site} {s t : Site} {e : Export}

theorem Site.mem_attach : t ∈ Site.attach sites s ↔ t ∈ sites ∨ t = s := by
  unfold Site.attach
  split
  · rename_i h
    have hs : s ∈ sites := by simpa using h
    exact ⟨Or.inl, fun h => h.elim id fun e => e ▸ hs⟩
  · simp

theorem Site.mem_foldl_attach : t ∈ ss.foldl Site.attach sites ↔ t ∈ sites ∨ t ∈ ss := by
  induction ss generalizing sites with
  | nil => simp
  | cons s ss ih => rw [List.foldl_cons, ih, Site.mem_attach, List.mem_cons, or_assoc]

/-- An export with several more usages, attached in turn. -/
def Export.addUsages (e : Export) (ss : List Site) : Export :=
  ss.foldl Export.addUsage e

theorem Export.addUsages_eq : e.addUsages ss = { e with usedBy := ss.foldl Site.attach e.usedBy } := by
  unfold Export.addUsages
  induction ss generalizing e with
  | nil => rfl
  | cons s ss ih => rw [List.foldl_cons, ih]; rfl

theorem Export.mem_usedBy_addUsages : t ∈ (e.addUsages ss).usedBy ↔ t ∈ e.usedBy ∨ t ∈ ss := by
  rw [Export.addUsages_eq]
  exact Site.mem_foldl_attach

end Sites

/-! ## Attaching at positions -/

section Positions

variable {es : List Export} {ps qs : List (Nat × Site)} {i : Nat}

/-- Sites attached in turn to the exports at their positions. -/
def attachAll (es : List Export) (ps : List (Nat × Site)) : List Export :=
  ps.foldl (fun es p => es.modify p.1 (·.addUsage p.2)) es

/-- The sites that a position gets. -/
def sitesAt (ps : List (Nat × Site)) (i : Nat) : List Site :=
  (ps.filter (·.1 == i)).map (·.2)

theorem mem_sitesAt {s : Site} : s ∈ sitesAt ps i ↔ (i, s) ∈ ps := by
  simp only [sitesAt, List.mem_map, List.mem_filter, beq_iff_eq]
  constructor
  · rintro ⟨⟨_, _⟩, ⟨hp, rfl⟩, rfl⟩
    exact hp
  · intro h
    exact ⟨(i, s), ⟨h, rfl⟩, rfl⟩

theorem attachAll_nil : attachAll es [] = es := rfl

theorem attachAll_append : attachAll es (ps ++ qs) = attachAll (attachAll es ps) qs :=
  List.foldl_append

/-- The export at a position keeps its place and gets the sites of that position. -/
theorem getElem?_attachAll : (attachAll es ps)[i]? = es[i]?.map (·.addUsages (sitesAt ps i)) := by
  unfold attachAll
  induction ps generalizing es with
  | nil => simp [sitesAt, Export.addUsages]
  | cons p ps ih =>
    rw [List.foldl_cons, ih, List.getElem?_modify]
    by_cases h : p.1 = i
    · simp [h, sitesAt, Export.addUsages, Function.comp_def]
    · simp [h, sitesAt]

theorem length_attachAll : (attachAll es ps).length = es.length := by
  unfold attachAll
  induction ps generalizing es with
  | nil => rfl
  | cons p ps ih => rw [List.foldl_cons, ih, List.length_modify]

/-- What does not look at usages is the same before and after. -/
theorem map_attachAll {α : Type} {f : Export → α} (hf : ∀ e sites, f { e with usedBy := sites } = f e) :
    (attachAll es ps).map f = es.map f := by
  apply List.ext_getElem?
  intro i
  rw [List.getElem?_map, List.getElem?_map, getElem?_attachAll, Option.map_map]
  congr 1
  funext e
  rw [Function.comp_apply, Export.addUsages_eq]
  exact hf e _

theorem getElem?_map_attachAll {α : Type} {f : Export → α} (hf : ∀ e sites, f { e with usedBy := sites } = f e) :
    (attachAll es ps)[i]?.map f = es[i]?.map f := by
  rw [← List.getElem?_map, ← List.getElem?_map, map_attachAll hf]

theorem findIdx?_attachAll {p : Export → Bool} (hp : ∀ e sites, p { e with usedBy := sites } = p e) :
    (attachAll es ps).findIdx? p = es.findIdx? p := by
  have h (l : List Export) : l.findIdx? p = (l.map p).findIdx? id := by rw [List.findIdx?_map]; rfl
  rw [h, h, map_attachAll hp]

/-- The positions of the exports of a class. -/
def positions (p : Export → Bool) (es : List Export) : List Nat :=
  (List.range es.length).filter fun i => (es[i]?.map p).getD false

theorem mem_positions {p : Export → Bool} : i ∈ positions p es ↔ ∃ e, es[i]? = some e ∧ p e = true := by
  simp only [positions, List.mem_filter, List.mem_range]
  constructor
  · rintro ⟨hi, hp⟩
    rw [List.getElem?_eq_getElem hi] at hp ⊢
    exact ⟨_, rfl, hp⟩
  · rintro ⟨e, he, hp⟩
    exact ⟨(List.getElem?_eq_some_iff.mp he).1, by rw [he]; exact hp⟩

theorem mem_map_positions {p : Export → Bool} {s site : Site} :
    (i, s) ∈ (positions p es).map (·, site) ↔ s = site ∧ ∃ e, es[i]? = some e ∧ p e = true := by
  simp only [List.mem_map, Prod.mk.injEq, mem_positions]
  constructor
  · rintro ⟨_, he, rfl, rfl⟩
    exact ⟨rfl, he⟩
  · rintro ⟨rfl, he⟩
    exact ⟨i, he, rfl, rfl⟩

theorem positions_attachAll {p : Export → Bool} (hp : ∀ e sites, p { e with usedBy := sites } = p e) :
    positions p (attachAll es ps) = positions p es := by
  simp only [positions, length_attachAll, getElem?_map_attachAll hp]

/-- Each position of a class gets a site exactly once. -/
theorem sitesAt_positions {p : Export → Bool} {s : Site} {e : Export} (he : es[i]? = some e) :
    sitesAt ((positions p es).map (·, s)) i = if p e then [s] else [] := by
  have hnd : (positions p es).Nodup := List.Nodup.filter _ List.nodup_range
  have hmem : i ∈ positions p es ↔ p e = true := by
    rw [mem_positions]
    exact ⟨fun ⟨e', he', hp⟩ => by rw [he] at he'; exact Option.some.inj he' ▸ hp, fun hp => ⟨e, he, hp⟩⟩
  have hs : sitesAt ((positions p es).map (·, s)) i = List.replicate ((positions p es).count i) s := by
    simp [sitesAt, List.filter_map, Function.comp_def, List.filter_beq]
  rw [hs]
  by_cases hp : p e = true
  · rw [List.count_eq_one_of_mem hnd (hmem.2 hp), if_pos hp]; rfl
  · rw [List.count_eq_zero_of_not_mem (mt hmem.1 hp), if_neg hp]; rfl

/-- Attaching a site to a class of exports in one pass is attaching it at their positions. -/
theorem map_addUsage_eq_attachAll {p : Export → Bool} {s : Site} :
    (es.map fun e => if p e then e.addUsage s else e) = attachAll es ((positions p es).map (·, s)) := by
  apply List.ext_getElem?
  intro i
  rw [List.getElem?_map, getElem?_attachAll]
  cases he : es[i]? with
  | none => rfl
  | some e =>
    rw [Option.map_some, Option.map_some, sitesAt_positions he]
    by_cases hp : p e = true
    · rw [if_pos hp, if_pos hp]; rfl
    · rw [if_neg hp, if_neg hp]; rfl

end Positions

/-! ## Steps that only attach -/

section Steps

variable {α : Type}

/-- A step on exports that attaches the sites `marks` reads off them, whatever usages they already carry. -/
structure Attaches (f : List Export → List Export) (marks : List Export → List (Nat × Site)) : Prop where
  eq : ∀ es, f es = attachAll es (marks es)
  blind : ∀ es ps, marks (attachAll es ps) = marks es

theorem attaches_id : Attaches (fun es => es) fun _ => [] :=
  ⟨fun _ => rfl, fun _ _ => rfl⟩

theorem Attaches.comp {f g : List Export → List Export} {m n : List Export → List (Nat × Site)}
    (hf : Attaches f m) (hg : Attaches g n) : Attaches (fun es => g (f es)) fun es => m es ++ n es where
  eq es := by rw [hg.eq, hf.eq, hg.blind, ← attachAll_append]
  blind es ps := by rw [hf.blind, hg.blind]

/-- Steps taken in turn attach what each of them attaches. -/
theorem attaches_foldl {f : α → List Export → List Export} {marks : α → List Export → List (Nat × Site)}
    (hf : ∀ a, Attaches (f a) (marks a)) (as : List α) :
    Attaches (fun es => as.foldl (fun es a => f a es) es) fun es => as.flatMap (marks · es) := by
  induction as with
  | nil => exact attaches_id
  | cons a as ih => exact (hf a).comp ih

/-- The same for steps that also count. -/
theorem exports_foldl {f : Marked → α → Marked} {m : α → List Export → List (Nat × Site)}
    (hf : ∀ x a, (f x a).exports = attachAll x.exports (m a x.exports))
    (hb : ∀ a es ps, m a (attachAll es ps) = m a es) (as : List α) (x : Marked) :
    (as.foldl f x).exports = attachAll x.exports (as.flatMap (m · x.exports)) := by
  induction as generalizing x with
  | nil => rfl
  | cons a as ih =>
    rw [List.foldl_cons, ih, hf, List.flatMap_cons, attachAll_append]
    simp only [hb]

end Steps

/-! ## Binding imports -/

section Imports

variable (target : String) (site : Site)

/-- The position that a name binds in a file. -/
def boundPosition? (name : String) (es : List Export) : Option Nat :=
  es.findIdx? fun e => e.file == target && e.answersTo name

/-- What an import attaches to the exports of its target. -/
def importMarks (i : Import) (es : List Export) : List (Nat × Site) :=
  (if i.namespace?.isSome then (positions (·.file == target) es).map (·, site) else []) ++
    (i.names.map i.lookupName).flatMap fun name => (boundPosition? target name es).toList.map (·, site)

theorem attaches_bindName (name : String) :
    Attaches (bindName target site · name) fun es => (boundPosition? target name es).toList.map (·, site) where
  eq es := by
    unfold bindName boundPosition?
    split <;> rename_i h <;> rw [h] <;> rfl
  blind es ps := by
    unfold boundPosition?
    rw [findIdx?_attachAll fun _ _ => rfl]

theorem attaches_bindAll :
    Attaches (bindAll target site) fun es => (positions (·.file == target) es).map (·, site) where
  eq _ := map_addUsage_eq_attachAll
  blind es ps := by rw [positions_attachAll fun _ _ => rfl]

theorem attaches_bindImport (i : Import) : Attaches (bindImport target site i) (importMarks target site i) := by
  have hall : Attaches (fun es => if i.namespace?.isSome then bindAll target site es else es)
      fun es => if i.namespace?.isSome then (positions (·.file == target) es).map (·, site) else [] := by
    by_cases h : i.namespace?.isSome = true
    · simpa [h] using attaches_bindAll target site
    · simpa [h] using attaches_id
  exact hall.comp (attaches_foldl (attaches_bindName target site) (i.names.map i.lookupName))

end Imports

/-! ## Rules -/

section Rules

variable {es : List Export} {ps : List (Nat × Site)}

theorem findExport?_attachAll (file name : String) :
    findExport? (attachAll es ps) file name = findExport? es file name := by
  simp only [findExport?]
  rw [findIdx?_attachAll fun _ _ => rfl, findIdx?_attachAll fun _ _ => rfl]

theorem handlers_attachAll (r : Route) : Rule.handlers (attachAll es ps) r = Rule.handlers es r := by
  unfold Rule.handlers
  simp only [findExport?_attachAll, getElem?_map_attachAll (f := (!·.isDefault)) fun _ _ => rfl]

theorem reached_attachAll (hs : List Nat) (u : DynamicUsage) :
    Rule.reached (attachAll es ps) hs u = Rule.reached es hs u := by
  unfold Rule.reached
  simp only [getElem?_map_attachAll (f := (·.name)) fun _ _ => rfl]

/-- What a route attaches: the framework to its handlers, and its usages to the handlers they reach. -/
def routeMarks (r : Route) (es : List Export) : List (Nat × Site) :=
  (Rule.handlers es r).map (·, Site.framework) ++
    r.usedBy.flatMap fun u => (Rule.reached es (Rule.handlers es r) u).map (·, u.site)

/-- What a server action attaches to the export it means. -/
def actionMarks (a : ServerAction) (es : List Export) : List (Nat × Site) :=
  (findExport? es a.file a.name).toList.flatMap fun i => (i, Site.framework) :: a.usedBy.map fun u => (i, u.site)

/-- What a hook attaches to the export it means. -/
def hookMarks (h : Hook) (es : List Export) : List (Nat × Site) :=
  (findExport? es h.file h.name).toList.flatMap fun i => h.usedBy.map fun u => (i, u.site)

/-- What a rule attaches. -/
def Rule.marks (c : LivenessContext) (r : Rule) (es : List Export) : List (Nat × Site) :=
  match r with
  | .routeHandlers => c.routes.flatMap (routeMarks · es)
  | .serverActions => c.actions.flatMap (actionMarks · es)
  | .hookUsage => c.hooks.flatMap (hookMarks · es)
  | .pageComponents stems roots => (positions (isPage c stems roots) es).map (·, Site.framework)
  | .specialExports names roots => (positions (isSpecial c names roots) es).map (·, Site.framework)
  | .actionsDirectory names => (positions (inActionsDirectory c names) es).map (·, Site.framework)
  | .middleware stems => (positions (isEntry c stems) es).map (·, Site.framework)

theorem routeMarks_attachAll (r : Route) : routeMarks r (attachAll es ps) = routeMarks r es := by
  unfold routeMarks
  simp only [handlers_attachAll, reached_attachAll]

theorem actionMarks_attachAll (a : ServerAction) : actionMarks a (attachAll es ps) = actionMarks a es := by
  unfold actionMarks
  rw [findExport?_attachAll]

theorem hookMarks_attachAll (h : Hook) : hookMarks h (attachAll es ps) = hookMarks h es := by
  unfold hookMarks
  rw [findExport?_attachAll]

theorem exports_markAt (m : Marked) (i : Nat) : (m.markAt i).exports = attachAll m.exports [(i, Site.framework)] := rfl

theorem exports_addSites (m : Marked) (i : Nat) (us : List DynamicUsage) :
    (m.addSites i us).exports = attachAll m.exports (us.map fun u => (i, u.site)) := by
  have h (es : List Export) : es.modify i (fun e => us.foldl (fun e u => e.addUsage u.site) e) =
      attachAll es (us.map fun u => (i, u.site)) := by
    induction us generalizing es with
    | nil => exact List.modify_id i es
    | cons u us ih =>
      rw [List.map_cons, ← List.singleton_append (l := List.map _ _), attachAll_append, ← ih]
      exact (List.modify_modify_eq (·.addUsage u.site) (us.foldl (fun e u => e.addUsage u.site)) i es).symm
  exact h m.exports

/-- Marking positions one after the other. -/
theorem exports_foldl_markAt (is : List Nat) (m : Marked) :
    (is.foldl Marked.markAt m).exports = attachAll m.exports (is.map (·, Site.framework)) := by
  rw [exports_foldl (m := fun i _ => [(i, Site.framework)]) exports_markAt fun _ _ _ => rfl, ← List.map_eq_flatMap]

/-- Handing a usage to positions one after the other. -/
theorem exports_foldl_addSites (is : List Nat) (u : DynamicUsage) (m : Marked) :
    (is.foldl (fun m i => m.addSites i [u]) m).exports = attachAll m.exports (is.map (·, u.site)) := by
  rw [exports_foldl (m := fun i _ => [(i, u.site)]) (fun m i => exports_addSites m i [u]) fun _ _ _ => rfl,
    ← List.map_eq_flatMap]

theorem exports_applyRoute (m : Marked) (r : Route) :
    (Rule.applyRoute m r).exports = attachAll m.exports (routeMarks r m.exports) := by
  unfold Rule.applyRoute routeMarks
  rw [exports_foldl (m := fun u es => (Rule.reached es (Rule.handlers m.exports r) u).map (·, u.site))
    (fun m u => exports_foldl_addSites _ u m) (fun u es ps => by rw [reached_attachAll]),
    exports_foldl_markAt, attachAll_append]
  simp only [reached_attachAll]

theorem exports_applyAction (m : Marked) (a : ServerAction) :
    (Rule.applyAction m a).exports = attachAll m.exports (actionMarks a m.exports) := by
  unfold Rule.applyAction actionMarks
  split
  · rename_i i h
    rw [h, exports_addSites, exports_markAt, ← attachAll_append]
    simp
  · rename_i h
    rw [h]; rfl

theorem exports_applyHook (m : Marked) (h : Hook) :
    (Rule.applyHook m h).exports = attachAll m.exports (hookMarks h m.exports) := by
  unfold Rule.applyHook hookMarks
  split
  · rename_i hu
    have hnil : h.usedBy = [] := by simpa using hu
    rw [hnil, List.flatMap_eq_nil_iff.2 fun _ _ => List.map_nil, attachAll_nil]
  · split
    · rename_i i hi
      rw [hi]
      simpa using exports_addSites m i h.usedBy
    · rename_i hi
      rw [hi]; rfl

theorem exports_markAll (m : Marked) (p : Export → Bool) :
    (m.markAll p).exports = attachAll m.exports ((positions p m.exports).map (·, Site.framework)) :=
  map_addUsage_eq_attachAll

/-- Every rule only attaches. -/
theorem attaches_rule (c : LivenessContext) (r : Rule) : Attaches (fun es => (r.apply c es).exports) (r.marks c) where
  eq es := by
    cases r with
    | routeHandlers => exact exports_foldl exports_applyRoute (fun r _ _ => routeMarks_attachAll r) _ _
    | serverActions => exact exports_foldl exports_applyAction (fun a _ _ => actionMarks_attachAll a) _ _
    | hookUsage => exact exports_foldl exports_applyHook (fun h _ _ => hookMarks_attachAll h) _ _
    | pageComponents | specialExports | actionsDirectory | middleware => exact exports_markAll _ _
  blind es ps := by
    cases r with
    | routeHandlers => simp only [Rule.marks, routeMarks_attachAll]
    | serverActions => simp only [Rule.marks, actionMarks_attachAll]
    | hookUsage => simp only [Rule.marks, hookMarks_attachAll]
    | pageComponents | specialExports | actionsDirectory | middleware =>
      simp only [Rule.marks]
      rw [positions_attachAll fun _ _ => rfl]

/-- Rules in turn attach what each of them attaches. -/
theorem attaches_rules (c : LivenessContext) (rules : List Rule) :
    Attaches (fun es => (applyRules c rules es).1) fun es => rules.flatMap (Rule.marks c · es) := by
  induction rules with
  | nil => exact attaches_id
  | cons r rs ih => exact (attaches_rule c r).comp ih

end Rules

end ExportAudit
