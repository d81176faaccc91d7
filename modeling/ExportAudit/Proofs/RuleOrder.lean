import Mathlib
import ExportAudit.Proofs.Settling

/-!
# Rules in any order, and again

Rules only attach sites, and what they attach does not depend on the usages that exports already carry. Hence

- a rule that finds its sites attached (`Carry`) changes nothing and counts nothing (`apply_of_carry`), and a second pass
  of all rules is such a case (`applyRules_again`);
- a pass keeps every site in its place and appends others (`getElem?_applyRules`);
- rules in another order attach the same sites (`mem_usedBy_applyRules`), and an analysis with them gives the same
  exports (`exports_analyze_perm`).

`rules_settle` puts these together.
-/

namespace ExportAudit

/-! ## Sites that are there already -/

section Carry

variable {es : List Export} {ps qs : List (Nat × Site)} {i : Nat} {s : Site}

/-- The exports at positions carry the sites that are to be attached there. -/
def Carry (es : List Export) (ps : List (Nat × Site)) : Prop :=
  ∀ p ∈ ps, ∀ e, es[p.1]? = some e → p.2 ∈ e.usedBy

theorem Carry.mono (h : Carry es ps) (hsub : qs ⊆ ps) : Carry es qs :=
  fun p hp => h p (hsub hp)

theorem Carry.single (h : Carry es ps) (hp : (i, s) ∈ ps) : Carry es [(i, s)] :=
  h.mono (by simpa using hp)

/-- What has been attached is there. -/
theorem carry_attachAll (es : List Export) (ps : List (Nat × Site)) : Carry (attachAll es ps) ps := by
  rintro ⟨i, s⟩ hp x hx
  rw [getElem?_attachAll] at hx
  obtain ⟨e, -, rfl⟩ := Option.map_eq_some_iff.mp hx
  exact Export.mem_usedBy_addUsages.2 (Or.inr (mem_sitesAt.2 hp))

theorem Site.foldl_attach_of_subset {sites ss : List Site} (h : ∀ s ∈ ss, s ∈ sites) :
    ss.foldl Site.attach sites = sites := by
  induction ss with
  | nil => rfl
  | cons s ss ih =>
    have hs : Site.attach sites s = sites := if_pos (by simpa using h s List.mem_cons_self)
    rw [List.foldl_cons, hs, ih fun t ht => h t (List.mem_cons_of_mem _ ht)]

/-- Attaching what is there changes nothing. -/
theorem attachAll_of_carry (h : Carry es ps) : attachAll es ps = es := by
  apply List.ext_getElem?
  intro i
  rw [getElem?_attachAll]
  cases he : es[i]? with
  | none => rfl
  | some e =>
    rw [Option.map_some, Export.addUsages_eq, Site.foldl_attach_of_subset]
    exact fun s hs => h (i, s) (mem_sitesAt.1 hs) e he

end Carry

/-! ## A rule that finds its sites attached -/

section Again

variable {m : Marked} {i : Nat}

/-- A fold whose every step changes nothing changes nothing. -/
theorem foldl_eq_self {α β : Type} {f : β → α → β} {b : β} {as : List α} (h : ∀ a ∈ as, f b a = b) :
    as.foldl f b = b := by
  induction as with
  | nil => rfl
  | cons a as ih =>
    rw [List.foldl_cons, h a List.mem_cons_self]
    exact ih fun x hx => h x (List.mem_cons_of_mem _ hx)

/-- What leaves the exports and the count alone. -/
theorem Marked.eq_self {x : Marked} (hexports : x.exports = m.exports) (hcount : x.count = m.count) : x = m := by
  cases x
  cases m
  simp_all

theorem markAt_of_carry (h : Carry m.exports [(i, Site.framework)]) : m.markAt i = m := by
  apply Marked.eq_self
  · rw [exports_markAt, attachAll_of_carry h]
  · unfold Marked.markAt
    cases he : m.exports[i]? with
    | none => simp
    | some e =>
      have hmarked : Site.framework ∈ e.usedBy := h _ List.mem_cons_self e he
      simp [Export.isUnmarked, hmarked]

theorem addSites_of_carry {us : List DynamicUsage} (h : Carry m.exports (us.map fun u => (i, u.site))) :
    m.addSites i us = m :=
  Marked.eq_self (by rw [exports_addSites, attachAll_of_carry h]) rfl

theorem applyRoute_of_carry {r : Route} (h : Carry m.exports (routeMarks r m.exports)) : Rule.applyRoute m r = m := by
  have hmark : (Rule.handlers m.exports r).foldl Marked.markAt m = m := by
    refine foldl_eq_self fun i hi => markAt_of_carry (h.single ?_)
    exact List.mem_append_left _ (List.mem_map.mpr ⟨i, hi, rfl⟩)
  unfold Rule.applyRoute
  simp only
  rw [hmark]
  refine foldl_eq_self fun u hu => foldl_eq_self fun i hi => addSites_of_carry (h.single ?_)
  exact List.mem_append_right _ (List.mem_flatMap.mpr ⟨u, hu, List.mem_map.mpr ⟨i, hi, rfl⟩⟩)

theorem applyAction_of_carry {a : ServerAction} (h : Carry m.exports (actionMarks a m.exports)) :
    Rule.applyAction m a = m := by
  unfold Rule.applyAction
  unfold actionMarks at h
  cases hi : findExport? m.exports a.file a.name with
  | none => rfl
  | some i =>
    rw [hi, Option.toList_some, List.flatMap_singleton] at h
    simp only
    rw [markAt_of_carry (h.single List.mem_cons_self), addSites_of_carry (h.mono (List.subset_cons_self _ _))]

theorem applyHook_of_carry {k : Hook} (h : Carry m.exports (hookMarks k m.exports)) : Rule.applyHook m k = m := by
  unfold Rule.applyHook
  unfold hookMarks at h
  split
  · rfl
  · rename_i hcalls
    cases hi : findExport? m.exports k.file k.name with
    | none => rfl
    | some i =>
      rw [hi, Option.toList_some, List.flatMap_singleton] at h
      simp only
      rw [addSites_of_carry h]
      -- A hook with calls carries their sites, so it does not count as fresh.
      have hused : (m.exports[i]?.map (!·.isUsed)).getD false = false := by
        cases he : m.exports[i]? with
        | none => rfl
        | some e =>
          obtain ⟨u, us, hus⟩ := List.exists_cons_of_ne_nil (by simpa using hcalls : k.usedBy ≠ [])
          have hsite : u.site ∈ e.usedBy := h (i, u.site) (by simp [hus]) e he
          simpa [Export.isUsed] using List.ne_nil_of_mem hsite
      simp [hused]

theorem markAll_of_carry {p : Export → Bool}
    (h : Carry m.exports ((positions p m.exports).map (·, Site.framework))) : m.markAll p = m := by
  apply Marked.eq_self
  · rw [exports_markAll, attachAll_of_carry h]
  · have hnone : m.exports.countP (fun e => p e && e.isUnmarked) = 0 := by
      rw [List.countP_eq_zero]
      intro e he
      obtain ⟨i, hi⟩ := List.getElem?_of_mem he
      by_cases hp : p e = true
      · have hmarked : Site.framework ∈ e.usedBy := h _ (mem_map_positions.2 ⟨rfl, e, hi, hp⟩) e hi
        simp [Export.isUnmarked, hmarked]
      · simp [hp]
    simp [Marked.markAll, hnone]

/-- A rule that finds its sites attached changes nothing and counts nothing. -/
theorem apply_of_carry {c : LivenessContext} {r : Rule} {es : List Export} (h : Carry es (r.marks c es)) :
    r.apply c es = { exports := es } := by
  have hpart {α : Type} {marks : α → List Export → List (Nat × Site)} {as : List α} {a : α} (ha : a ∈ as)
      (h : Carry es (as.flatMap (marks · es))) : Carry es (marks a es) :=
    h.mono fun p hp => List.mem_flatMap.mpr ⟨a, ha, hp⟩
  cases r with
  | routeHandlers => exact foldl_eq_self fun r hr => applyRoute_of_carry (hpart hr h)
  | serverActions => exact foldl_eq_self fun a ha => applyAction_of_carry (hpart ha h)
  | hookUsage => exact foldl_eq_self fun k hk => applyHook_of_carry (hpart hk h)
  | pageComponents | specialExports | actionsDirectory | middleware => exact markAll_of_carry h

theorem applyRules_of_carry {c : LivenessContext} {rules : List Rule} {es : List Export}
    (h : ∀ r ∈ rules, Carry es (r.marks c es)) :
    applyRules c rules es = (es, rules.map fun r => (r.name, 0)) := by
  induction rules with
  | nil => rfl
  | cons r rules ih =>
    unfold applyRules
    rw [apply_of_carry (h r List.mem_cons_self)]
    simp only
    rw [ih fun x hx => h x (List.mem_cons_of_mem _ hx)]
    rfl

end Again

/-! ## Passes -/

section Passes

variable (c : LivenessContext) (rules : List Rule) (es : List Export)

/-- **A second pass** finds everything attached. -/
theorem applyRules_again : applyRules c rules (applyRules c rules es).1 =
    ((applyRules c rules es).1, rules.map fun r => (r.name, 0)) := by
  apply applyRules_of_carry
  intro r hr
  rw [(attaches_rules c rules).eq, (attaches_rule c r).blind]
  exact (carry_attachAll _ _).mono fun p hp => List.mem_flatMap.mpr ⟨r, hr, hp⟩

theorem length_applyRules : (applyRules c rules es).1.length = es.length := by
  rw [(attaches_rules c rules).eq, length_attachAll]

theorem Site.exists_foldl_attach (sites ss : List Site) : ∃ more, ss.foldl Site.attach sites = sites ++ more := by
  induction ss generalizing sites with
  | nil => exact ⟨[], (List.append_nil _).symm⟩
  | cons s ss ih =>
    obtain ⟨more, hmore⟩ := ih (Site.attach sites s)
    rw [List.foldl_cons, hmore]
    unfold Site.attach
    split
    · exact ⟨more, rfl⟩
    · exact ⟨s :: more, by simp⟩

/-- A pass takes no site away: it appends to the usages of an export and changes nothing else. -/
theorem getElem?_applyRules {i : Nat} {e : Export} (he : es[i]? = some e) :
    ∃ more, (applyRules c rules es).1[i]? = some { e with usedBy := e.usedBy ++ more } := by
  rw [(attaches_rules c rules).eq, getElem?_attachAll, he, Option.map_some, Export.addUsages_eq]
  obtain ⟨more, hmore⟩ := Site.exists_foldl_attach e.usedBy
    (sitesAt (rules.flatMap (Rule.marks c · es)) i)
  exact ⟨more, by rw [hmore]⟩

/-- The sites of an export after a pass. -/
theorem mem_usedBy_applyRules {i : Nat} {e x : Export} (he : es[i]? = some e)
    (hx : (applyRules c rules es).1[i]? = some x) {s : Site} :
    s ∈ x.usedBy ↔ s ∈ e.usedBy ∨ ∃ r ∈ rules, (i, s) ∈ r.marks c es := by
  rw [(attaches_rules c rules).eq, getElem?_attachAll, he, Option.map_some, Option.some.injEq] at hx
  rw [← hx, Export.mem_usedBy_addUsages, mem_sitesAt, List.mem_flatMap]

end Passes

/-! ## Analyses -/

section Analyses

variable {d : Disk} {root : String} {rules rules' : List Rule} {facts : ProjectFacts} {resolver : Resolver}

/-- Settled exports depend on what is attached, not on the order. -/
theorem map_settle_attachAll {es : List Export} {ps qs : List (Nat × Site)} (h : ∀ p, p ∈ ps ↔ p ∈ qs) :
    (attachAll es ps).map Export.settle = (attachAll es qs).map Export.settle := by
  apply List.ext_getElem?
  intro i
  rw [List.getElem?_map, List.getElem?_map, getElem?_attachAll, getElem?_attachAll, Option.map_map, Option.map_map]
  congr 1
  funext e
  exact Export.settle_addUsages fun s => or_congr_right (by rw [mem_sitesAt, mem_sitesAt, h])

theorem settledExports_perm (hperm : rules'.Perm rules) (c : LivenessContext) :
    settledExports d rules' facts resolver c = settledExports d rules facts resolver c := by
  refine map_settle_attachAll fun p => ?_
  simp only [attachedMarks, List.mem_append, List.mem_flatMap, hperm.mem_iff]

/-- An analysis with the rules in another order gives the same exports. -/
theorem exports_analyze_perm (hperm : rules'.Perm rules) {result : AnalysisResult}
    (h : (analyze d root rules facts resolver).1 = .ok result) :
    ∃ result', (analyze d root rules' facts resolver).1 = .ok result' ∧ result'.used = result.used ∧
      result'.unused = result.unused := by
  obtain ⟨n, hattach⟩ := attach_result h
  obtain ⟨result', h'⟩ := (exists_analyze_eq_ok_iff d root rules' facts resolver).2 ⟨_, hattach⟩
  have hcontext : result'.context d = result.context d := by
    obtain ⟨n', hattach'⟩ := attach_result h'
    rw [hattach, Except.ok.injEq, Prod.mk.injEq, UsageTargets.mk.injEq] at hattach'
    obtain ⟨⟨hroutes, hhooks, hactions⟩, -⟩ := hattach'
    unfold AnalysisResult.context
    rw [root_result h, root_result h', hroutes, hhooks, hactions]
  obtain ⟨hused, hunused⟩ := result_settled h
  obtain ⟨hused', hunused'⟩ := result_settled h'
  rw [hcontext, settledExports_perm hperm] at hused' hunused'
  exact ⟨result', h', hused'.trans hused.symm, hunused'.trans hunused.symm⟩

/-- **Rules settle, in any order.** For all rules, in particular those that settings leave switched on, and for all
exports and declarations with any usages: a second pass changes nothing and counts nothing; a pass takes no site away;
the rules in another order leave every export with the same sites, and an analysis with them gives the same used and
unused exports. -/
theorem rules_settle (rules rules' : List Rule) (hperm : rules'.Perm rules) :
    (∀ (c : LivenessContext) (es : List Export),
      applyRules c rules (applyRules c rules es).1 = ((applyRules c rules es).1, rules.map fun r => (r.name, 0)) ∧
      (applyRules c rules es).1.length = es.length ∧
      (∀ (i : Nat) (e : Export), es[i]? = some e →
        ∃ more, (applyRules c rules es).1[i]? = some { e with usedBy := e.usedBy ++ more }) ∧
      ∀ (i : Nat) (x y : Export), (applyRules c rules es).1[i]? = some x → (applyRules c rules' es).1[i]? = some y →
        y = { x with usedBy := y.usedBy } ∧ ∀ s, s ∈ x.usedBy ↔ s ∈ y.usedBy) ∧
    ∀ (d : Disk) (root : String) (facts : ProjectFacts) (resolver : Resolver) (result : AnalysisResult),
      (analyze d root rules facts resolver).1 = .ok result →
        ∃ result', (analyze d root rules' facts resolver).1 = .ok result' ∧ result'.used = result.used ∧
          result'.unused = result.unused := by
  refine ⟨fun c es => ⟨applyRules_again c rules es, length_applyRules c rules es,
    fun i e => getElem?_applyRules c rules es, fun i x y hx hy => ?_⟩, fun d root facts resolver result =>
    exports_analyze_perm hperm⟩
  have hlt : i < es.length := by
    rw [← length_applyRules c rules es]
    exact (List.getElem?_eq_some_iff.mp hx).1
  have he := List.getElem?_eq_getElem hlt
  obtain ⟨more, hmore⟩ := getElem?_applyRules c rules es he
  obtain ⟨more', hmore'⟩ := getElem?_applyRules c rules' es he
  rw [hx, Option.some.injEq] at hmore
  rw [hy, Option.some.injEq] at hmore'
  refine ⟨?_, fun s => ?_⟩
  · rw [hmore, hmore']
  · rw [mem_usedBy_applyRules c rules es he hx, mem_usedBy_applyRules c rules' es he hy]
    simp only [hperm.mem_iff]

end Analyses

/-- What rules see of a hook in a directory of actions that is called once. -/
def hookContext : LivenessContext :=
  { cwd := "/proj", root := "/proj",
    hooks := [{ name := "useSave", file := "/proj/actions/save.ts", line := 1,
                usedBy := [{ kind := .hookCall, target := "useSave", file := "/proj/form.ts", line := 4 }] }] }

/-- The export of that hook. -/
def hookExport : Export :=
  { name := "useSave", file := "/proj/actions/save.ts", line := 1 }

/-- The rules that do not look at trees of routes. -/
def treelessRules : List Rule :=
  rulesOf (some { disabledRules := ["page-components", "special-exports"] })

/-- The order of rules shows in the order of the sites and in the counts, but not in which sites there are, and no order
leaves anything for a second pass. -/
theorem rules_settle_hook : ∃ x y : Export,
    applyRules hookContext treelessRules [hookExport] = ([x], [("route-handlers", 0), ("server-actions", 0),
      ("hook-usage", 1), ("actions-directory", 1), ("middleware", 0)]) ∧
    applyRules hookContext treelessRules.reverse [hookExport] = ([y], [("middleware", 0), ("actions-directory", 1),
      ("hook-usage", 0), ("server-actions", 0), ("route-handlers", 0)]) ∧
    x.usedBy ≠ y.usedBy ∧ (∀ s, s ∈ x.usedBy ↔ s ∈ y.usedBy) ∧
    applyRules hookContext treelessRules [x] = ([x], treelessRules.map fun r => (r.name, 0)) := by
  have hforward : applyRules hookContext treelessRules [hookExport] =
      ([{ hookExport with usedBy := [⟨"/proj/form.ts", 4⟩, Site.framework] }], [("route-handlers", 0),
        ("server-actions", 0), ("hook-usage", 1), ("actions-directory", 1), ("middleware", 0)]) := by decide +kernel
  have hbackward : applyRules hookContext treelessRules.reverse [hookExport] =
      ([{ hookExport with usedBy := [Site.framework, ⟨"/proj/form.ts", 4⟩] }], [("middleware", 0),
        ("actions-directory", 1), ("hook-usage", 0), ("server-actions", 0), ("route-handlers", 0)]) := by decide +kernel
  obtain ⟨hpass, -⟩ := rules_settle treelessRules treelessRules.reverse (List.reverse_perm _)
  obtain ⟨hagain, -, -, hsites⟩ := hpass hookContext [hookExport]
  rw [hforward] at hagain hsites
  rw [hbackward] at hsites
  exact ⟨_, _, hforward, hbackward, by decide, (hsites 0 _ _ rfl rfl).2, hagain⟩

end ExportAudit
