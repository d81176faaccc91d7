import Mathlib
import ExportAudit.Proofs.Monotonicity

/-!
# More roots of routes

A file belongs to the longest root that it lies under (`LongestRoot`), and only two rules ask for it: whether an export
is used is decided by the other rules, by the rule of pages and by the rule of special names (`exists_cause_iff`).

Further roots give special names more files. For pages they may do harm: below a root called `pages` every default export
is a page, and a further root inside takes its files out of that tree (`Shadowed`). `used_under_more_roots_iff` says which
exports are lost.
-/

namespace ExportAudit

/-- A file that lies under a root lies under one of more roots. -/
theorem LongestRoot.exists_of_more {parts base roots more : List String} {root : String}
    (h : LongestRoot (base ++ roots) parts root) (hmore : roots ⊆ more) :
    ∃ root', LongestRoot (base ++ more) parts root' := by
  have hmem : root ∈ base ++ more := by
    rw [List.mem_append]
    exact (List.mem_append.mp h.mem).imp_right fun hroot => hmore hroot
  obtain ⟨found, hfound⟩ := exists_routeTreeRoot? hmem h.under
  exact ⟨found, longestRoot_of_routeTreeRoot? hfound⟩

/-! ## What decides about an export -/

section Settings

variable {d : Disk} {root : String} {rules : List Rule} {s : LivenessSettings} {facts : ProjectFacts}
  {resolver : Resolver} {result : AnalysisResult} {c : LivenessContext} {imports : List Import} {kept : List Export}
  {e : Export}

/-- The rules that do not ask for the root of a file, as far as settings leave them on. -/
def rootlessRules (s : LivenessSettings) : List Rule :=
  [Rule.routeHandlers, .serverActions, .hookUsage,
    .actionsDirectory (s.actionsDirectories.foldl addNew actionsDirectoryNames), .middleware rootEntryStems].filter
      fun r => !s.disabledRules.contains r.name

/-- The rule of pages is on and covers an export. -/
structure MarkedAsPage (s : LivenessSettings) (c : LivenessContext) (e : Export) : Prop where
  enabled : "page-components" ∉ s.disabledRules
  isDefault : e.isDefault = true
  page : ∃ root, LongestRoot (routeTreeRoots ++ s.routeRoots) (c.parts e.file) root ∧
    (Text.endsWith root "pages" = true ∨ Path.stem e.file ∈ pageFileStems ++ s.pageFileStems)

/-- The rule of special names is on and covers an export. -/
structure MarkedAsSpecial (s : LivenessSettings) (c : LivenessContext) (e : Export) : Prop where
  enabled : "special-exports" ∉ s.disabledRules
  inTree : ∃ root, LongestRoot (routeTreeRoots ++ s.routeRoots) (c.parts e.file) root
  named : e.isDefault = false
  special : e.name ∈ specialExportNames ++ s.specialExportNames

/-- The rules of some settings are those that do not ask for roots, and the two that do. -/
theorem mem_rulesOf_iff {r : Rule} : r ∈ rulesOf (some s) ↔ r ∈ rootlessRules s ∨
    r = .pageComponents (s.pageFileStems.foldl addNew pageFileStems) (s.routeRoots.foldl addNew routeTreeRoots) ∧
      "page-components" ∉ s.disabledRules ∨
    r = .specialExports (s.specialExportNames.foldl addNew specialExportNames)
        (s.routeRoots.foldl addNew routeTreeRoots) ∧ "special-exports" ∉ s.disabledRules := by
  rw [mem_rulesOf, rootlessRules, List.mem_filter]
  unfold allRules
  simp only [List.mem_cons, List.not_mem_nil, or_false, Bool.not_eq_true', List.contains_eq_mem, decide_eq_false_iff_not]
  constructor
  · rintro ⟨rfl | rfl | rfl | rfl | rfl | hr, henabled⟩
    · exact .inl ⟨.inl rfl, henabled⟩
    · exact .inl ⟨.inr (.inl rfl), henabled⟩
    · exact .inl ⟨.inr (.inr (.inl rfl)), henabled⟩
    · exact .inr (.inl ⟨rfl, henabled⟩)
    · exact .inr (.inr ⟨rfl, henabled⟩)
    · exact .inl ⟨.inr (.inr (.inr hr)), henabled⟩
  · rintro (⟨hr, henabled⟩ | ⟨rfl, henabled⟩ | ⟨rfl, henabled⟩)
    · exact ⟨by tauto, henabled⟩
    · exact ⟨by simp, henabled⟩
    · exact ⟨by simp, henabled⟩

theorem longestRoot_foldl_addNew {base extra parts : List String} {root : String} :
    LongestRoot (extra.foldl addNew base) parts root ↔ LongestRoot (base ++ extra) parts root := by
  have hmem (r : String) : r ∈ extra.foldl addNew base ↔ r ∈ base ++ extra := by
    rw [mem_foldl_addNew, List.mem_append]
  constructor
  · exact fun h => ⟨(hmem _).1 h.mem, h.under, fun other hother => h.longest other ((hmem _).2 hother)⟩
  · exact fun h => ⟨(hmem _).2 h.mem, h.under, fun other hother => h.longest other ((hmem _).1 hother)⟩

theorem covers_pageComponents_iff :
    (Rule.pageComponents (s.pageFileStems.foldl addNew pageFileStems)
      (s.routeRoots.foldl addNew routeTreeRoots)).Covers c kept e ↔
    e.isDefault = true ∧ ∃ root, LongestRoot (routeTreeRoots ++ s.routeRoots) (c.parts e.file) root ∧
      (Text.endsWith root "pages" = true ∨ Path.stem e.file ∈ pageFileStems ++ s.pageFileStems) := by
  simp only [Rule.Covers, longestRoot_foldl_addNew, mem_foldl_addNew, List.mem_append]

theorem covers_specialExports_iff :
    (Rule.specialExports (s.specialExportNames.foldl addNew specialExportNames)
      (s.routeRoots.foldl addNew routeTreeRoots)).Covers c kept e ↔
    (∃ root, LongestRoot (routeTreeRoots ++ s.routeRoots) (c.parts e.file) root) ∧ e.isDefault = false ∧
      e.name ∈ specialExportNames ++ s.specialExportNames := by
  simp only [Rule.Covers, longestRoot_foldl_addNew, mem_foldl_addNew, List.mem_append]

/-- An export has a cause if the rules that do not ask for roots give it one, or one of the two others marks it. -/
theorem exists_cause_iff : (∃ site, Cause d resolver (rulesOf (some s)) c imports kept e site) ↔
    (∃ site, Cause d resolver (rootlessRules s) c imports kept e site) ∨ MarkedAsPage s c e ∨ MarkedAsSpecial s c e := by
  constructor
  · rintro ⟨site, h⟩
    cases h with
    | carried h => exact .inl ⟨_, .carried h⟩
    | wholeModule hi hfile hname => exact .inl ⟨_, .wholeModule hi hfile hname⟩
    | boundName hi hfile hbound hmeans => exact .inl ⟨_, .boundName hi hfile hbound hmeans⟩
    | convention hr hcovers =>
      rcases mem_rulesOf_iff.1 hr with hr | ⟨rfl, henabled⟩ | ⟨rfl, henabled⟩
      · exact .inl ⟨_, .convention hr hcovers⟩
      · obtain ⟨hdefault, hpage⟩ := covers_pageComponents_iff.1 hcovers
        exact .inr (.inl ⟨henabled, hdefault, hpage⟩)
      · obtain ⟨htree, hnamed, hspecial⟩ := covers_specialExports_iff.1 hcovers
        exact .inr (.inr ⟨henabled, htree, hnamed, hspecial⟩)
    | handed hr hhands =>
      rcases mem_rulesOf_iff.1 hr with hr | ⟨rfl, -⟩ | ⟨rfl, -⟩
      · exact .inl ⟨_, .handed hr hhands⟩
      · exact hhands.elim
      · exact hhands.elim
  · rintro (⟨site, h⟩ | h | h)
    · exact ⟨site, h.within fun r hr => ⟨r, mem_rulesOf_iff.2 (.inl hr), .refl r⟩⟩
    · have hrule := mem_rulesOf_iff.2 (.inr (.inl ⟨rfl, h.enabled⟩))
      exact ⟨_, .convention hrule (covers_pageComponents_iff.2 ⟨h.isDefault, h.page⟩)⟩
    · have hrule := mem_rulesOf_iff.2 (.inr (.inr ⟨rfl, h.enabled⟩))
      exact ⟨_, .convention hrule (covers_specialExports_iff.2 ⟨h.inTree, h.named, h.special⟩)⟩

/-- A retained export is used exactly when some site has a cause. -/
theorem mem_keys_used_iff (h : (analyze d root rules facts resolver).1 = .ok result)
    (he : e ∈ indexExports d facts.exports) : e.key ∈ result.used.map Export.key ↔
      ∃ site, Cause d resolver rules (result.context d) facts.imports (indexExports d facts.exports) e site := by
  constructor
  · intro hkey
    obtain ⟨x, hx, hkey⟩ := List.mem_map.mp hkey
    obtain ⟨e', he', hxe, ⟨site, hsite⟩, hsites⟩ := exists_of_mem_used h hx
    have hsame : e'.key = e.key := by
      rw [← hkey, hxe]
      rfl
    obtain rfl := List.inj_on_of_nodup_map (nodup_keys_indexExports d facts.exports) he' he hsame
    exact ⟨site, (hsites site).1 hsite⟩
  · rintro ⟨site, hcause⟩
    obtain ⟨x, hx, hxe, -⟩ := exists_mem_used h he hcause
    refine List.mem_map.mpr ⟨x, hx, ?_⟩
    rw [hxe]
    rfl

/-- The declarations that rules see depend on the facts only. -/
theorem context_eq {rules' : List Rule} {result' : AnalysisResult}
    (h : (analyze d root rules facts resolver).1 = .ok result)
    (h' : (analyze d root rules' facts resolver).1 = .ok result') : result'.context d = result.context d := by
  rw [context_result h, context_result h']

end Settings

/-! ## More roots -/

/-- Further roots take a file out of a tree of pages: it is no page by its stem, the longest root that it lay under is
called `pages`, and the longest that it lies under now is not. -/
structure Shadowed (c : LivenessContext) (s : LivenessSettings) (more : List String) (file : String) : Prop where
  stem : Path.stem file ∉ pageFileStems ++ s.pageFileStems
  inPages : ∃ root, LongestRoot (routeTreeRoots ++ s.routeRoots) (c.parts file) root ∧ Text.endsWith root "pages" = true
  takenOut : ∃ root, LongestRoot (routeTreeRoots ++ more) (c.parts file) root ∧ Text.endsWith root "pages" = false

section MoreRoots

variable {s : LivenessSettings} {more : List String} {c : LivenessContext} {e : Export}

theorem MarkedAsSpecial.moreRoots (h : MarkedAsSpecial s c e) (hmore : s.routeRoots ⊆ more) :
    MarkedAsSpecial { s with routeRoots := more } c e := by
  obtain ⟨root, hroot⟩ := h.inTree
  exact ⟨h.enabled, hroot.exists_of_more hmore, h.named, h.special⟩

/-- A page remains one under more roots unless its file is taken out of its tree. -/
theorem MarkedAsPage.moreRoots_iff (h : MarkedAsPage s c e) (hmore : s.routeRoots ⊆ more) :
    MarkedAsPage { s with routeRoots := more } c e ↔ ¬ Shadowed c s more e.file := by
  obtain ⟨root, hroot, hpage⟩ := h.page
  obtain ⟨root', hroot'⟩ := hroot.exists_of_more hmore
  constructor
  · rintro ⟨-, -, found, hfound, hpage'⟩ ⟨hstem, -, other, hother, hout⟩
    rw [hfound.unique hother, hout] at hpage'
    exact hpage'.elim Bool.false_ne_true hstem
  · intro hshadow
    refine ⟨h.enabled, h.isDefault, root', hroot', ?_⟩
    by_contra hlost
    rw [not_or, Bool.not_eq_true] at hlost
    exact hshadow ⟨hlost.2, ⟨root, hroot, hpage.resolve_right hlost.2⟩, root', hroot', hlost.1⟩

/-- Settings with the rule of pages off. -/
def LivenessSettings.withoutPages (s : LivenessSettings) : LivenessSettings :=
  { s with disabledRules := "page-components" :: s.disabledRules }

theorem rootlessRules_withoutPages (s : LivenessSettings) : rootlessRules s.withoutPages = rootlessRules s := by
  refine List.filter_congr fun r hr => ?_
  have hname : r.name ≠ "page-components" := by
    simp only [List.mem_cons, List.not_mem_nil, or_false] at hr
    rcases hr with rfl | rfl | rfl | rfl | rfl <;> simp [Rule.name]
  simp [LivenessSettings.withoutPages, hname]

theorem markedAsSpecial_withoutPages : MarkedAsSpecial s.withoutPages c e ↔ MarkedAsSpecial s c e := by
  have hname : "special-exports" ∈ "page-components" :: s.disabledRules ↔ "special-exports" ∈ s.disabledRules := by
    simp
  constructor
  · exact fun h => ⟨mt hname.2 h.enabled, h.inTree, h.named, h.special⟩
  · exact fun h => ⟨mt hname.1 h.enabled, h.inTree, h.named, h.special⟩

end MoreRoots

/-- **What more roots do to a used export.** It is used under more roots, too, exactly if it is used without the rule of
pages, or it is no default export whose file the roots take out of a tree of pages. -/
theorem used_under_more_roots_iff {d : Disk} {root : String} {s : LivenessSettings} {more : List String}
    {facts : ProjectFacts} {resolver : Resolver} {result result' off : AnalysisResult} (hmore : s.routeRoots ⊆ more)
    (h : (analyze d root (rulesOf (some s)) facts resolver).1 = .ok result)
    (h' : (analyze d root (rulesOf (some { s with routeRoots := more })) facts resolver).1 = .ok result')
    (hoff : (analyze d root (rulesOf (some s.withoutPages)) facts resolver).1 = .ok off) :
    ∀ x ∈ result.used, x.key ∈ result'.used.map Export.key ↔ x.key ∈ off.used.map Export.key ∨
      ¬ (x.isDefault = true ∧ Shadowed (result.context d) s more x.file) := by
  intro x hx
  obtain ⟨e, he, hxe, -, -⟩ := exists_of_mem_used h hx
  have hsame : x.key = e.key ∧ x.file = e.file ∧ x.isDefault = e.isDefault := by
    rw [hxe]
    exact ⟨rfl, rfl, rfl⟩
  have hused := (mem_keys_used_iff h he).1 (hsame.1 ▸ List.mem_map_of_mem hx)
  rw [exists_cause_iff] at hused
  rw [hsame.1, hsame.2.1, hsame.2.2, mem_keys_used_iff h' he, mem_keys_used_iff hoff he, context_eq h h',
    context_eq h hoff, exists_cause_iff, exists_cause_iff, rootlessRules_withoutPages, markedAsSpecial_withoutPages]
  constructor
  · rintro (hother | hpage' | hspecial')
    · exact .inl (.inl hother)
    · rcases hused with hother | hpage | hspecial
      · exact .inl (.inl hother)
      · exact .inr fun hshadow => (hpage.moreRoots_iff hmore).1 hpage' hshadow.2
      · exact .inl (.inr (.inr hspecial))
    · exact .inr fun hshadow => Bool.false_ne_true (hspecial'.named.symm.trans hshadow.1)
  · rintro ((hother | hpage | hspecial) | hnot)
    · exact .inl hother
    · exact absurd List.mem_cons_self hpage.enabled
    · exact .inr (.inr (hspecial.moreRoots hmore))
    · rcases hused with hother | hpage | hspecial
      · exact .inl hother
      · exact .inr (.inl ((hpage.moreRoots_iff hmore).2 fun hshadow => hnot ⟨hpage.isDefault, hshadow⟩))
      · exact .inr (.inr (hspecial.moreRoots hmore))

/-- A tree of pages with a directory inside. -/
def pagesDisk : Disk :=
  ⟨.directory [("proj", .directory [("pages", .directory [("home.tsx", .file .empty 0),
    ("admin", .directory [("users.tsx", .file .empty 0)])])])], "/proj"⟩

/-- A default export of a file in the tree of pages. -/
def pageExport (file : String) : Export :=
  { name := "default", file := file, line := 1, isDefault := true }

/-- The facts of that tree: two pages, and nothing that uses them. -/
def pagesFacts : ProjectFacts :=
  { exports := [pageExport "/proj/pages/home.tsx", pageExport "/proj/pages/admin/users.tsx"] }

/-- What rules see of that tree besides the exports. -/
def pagesContext : LivenessContext := { cwd := "/proj", root := "/proj" }

theorem indexExports_pages : indexExports pagesDisk pagesFacts.exports = pagesFacts.exports := by decide +kernel

theorem context_pages {rules : List Rule} {resolver : Resolver} {result : AnalysisResult}
    (h : (analyze pagesDisk "/proj" rules pagesFacts resolver).1 = .ok result) :
    result.context pagesDisk = pagesContext := by
  obtain ⟨n, hattach⟩ := attach_result h
  unfold AnalysisResult.context
  rw [root_result h]
  simp only [usageTargets, canonicalUsages, pagesFacts, List.map_nil, UsageTargets.attach, Except.ok.injEq,
    Prod.mk.injEq, UsageTargets.mk.injEq] at hattach
  obtain ⟨⟨hroutes, hhooks, hactions⟩, -⟩ := hattach
  rw [← hroutes, ← hhooks, ← hactions]
  rfl

theorem parts_pages : pagesContext.parts "/proj/pages/home.tsx" = ["pages", "home.tsx"] ∧
    pagesContext.parts "/proj/pages/admin/users.tsx" = ["pages", "admin", "users.tsx"] := by
  decide +kernel

/-- Both are pages under the built-in roots. -/
theorem markedAsPage_pages {file : String} (hfile : pageExport file ∈ pagesFacts.exports) :
    MarkedAsPage {} pagesContext (pageExport file) := by
  have hroot : LongestRoot (routeTreeRoots ++ []) (pagesContext.parts file) "pages" := by
    simp only [pagesFacts, pageExport, List.mem_cons, Export.mk.injEq, List.not_mem_nil, or_false] at hfile
    rcases hfile with ⟨-, rfl, -⟩ | ⟨-, rfl, -⟩
    · rw [parts_pages.1]
      exact ⟨by decide, by decide +kernel, by decide +kernel⟩
    · rw [parts_pages.2]
      exact ⟨by decide, by decide +kernel, by decide +kernel⟩
  exact ⟨List.not_mem_nil, rfl, "pages", hroot, .inl (by decide)⟩

/-- A root in the tree of pages takes the second page out. -/
theorem shadowed_users : Shadowed pagesContext {} ["pages/admin"] "/proj/pages/admin/users.tsx" where
  stem := by decide +kernel
  inPages := by
    rw [parts_pages.2]
    exact ⟨"pages", ⟨by decide, by decide +kernel, by decide +kernel⟩, by decide⟩
  takenOut := by
    rw [parts_pages.2]
    exact ⟨"pages/admin", ⟨by decide, by decide +kernel, by decide +kernel⟩, by decide⟩

/-- Nothing but the rule of pages uses the second page. -/
theorem no_cause_users {resolver : Resolver} : ¬ ∃ site, Cause pagesDisk resolver (rootlessRules {}) pagesContext
    pagesFacts.imports (indexExports pagesDisk pagesFacts.exports) (pageExport "/proj/pages/admin/users.tsx") site := by
  have hrules : rootlessRules {} = [.routeHandlers, .serverActions, .hookUsage, .actionsDirectory ["actions"],
      .middleware rootEntryStems] := by decide
  rintro ⟨site, h⟩
  rw [hrules] at h
  cases h with
  | carried h => cases h
  | wholeModule hi => cases hi
  | boundName hi => cases hi
  | convention hr hcovers =>
    simp only [List.mem_cons, List.not_mem_nil, or_false] at hr
    have hparts : pagesContext.parts (pageExport "/proj/pages/admin/users.tsx").file = _ := parts_pages.2
    rcases hr with rfl | rfl | rfl | rfl | rfl
    · obtain ⟨r, hr, -⟩ := hcovers
      exact List.not_mem_nil hr
    · obtain ⟨a, ha, -⟩ := hcovers
      exact List.not_mem_nil ha
    · exact hcovers
    · obtain ⟨directory, hdirectory, hname⟩ := hcovers
      rw [hparts, List.mem_singleton.mp hname] at hdirectory
      exact absurd hdirectory (by decide)
    · obtain ⟨hplace, -⟩ := hcovers
      rw [hparts] at hplace
      exact absurd hplace (by decide)
  | handed hr hhands =>
    simp only [List.mem_cons, List.not_mem_nil, or_false] at hr
    rcases hr with rfl | rfl | rfl | rfl | rfl
    · obtain ⟨r, hr, -⟩ := hhands
      exact List.not_mem_nil hr
    · obtain ⟨a, ha, -⟩ := hhands
      exact List.not_mem_nil ha
    · obtain ⟨k, hk, -⟩ := hhands
      exact List.not_mem_nil hk
    · exact hhands
    · exact hhands

/-- **A further root unmarks a page.** The second page is used, and with `pages/admin` as a further root it is not. -/
theorem nested_root_unmarks_page : ∃ result result',
    (analyze pagesDisk "/proj" (rulesOf (some {})) pagesFacts (.ofRoot "/proj" {})).1 = .ok result ∧
      (analyze pagesDisk "/proj" (rulesOf (some { routeRoots := ["pages/admin"] })) pagesFacts
        (.ofRoot "/proj" {})).1 = .ok result' ∧
      (pageExport "/proj/pages/admin/users.tsx").key ∈ result.used.map Export.key ∧
      (pageExport "/proj/pages/admin/users.tsx").key ∉ result'.used.map Export.key := by
  obtain ⟨result, h⟩ := (exists_analyze_eq_ok_iff pagesDisk "/proj" (rulesOf (some {})) pagesFacts
    (.ofRoot "/proj" {})).mpr ⟨_, rfl⟩
  obtain ⟨result', h'⟩ := (exists_analyze_eq_ok_iff pagesDisk "/proj" (rulesOf (some { routeRoots := ["pages/admin"] }))
    pagesFacts (.ofRoot "/proj" {})).mpr ⟨_, rfl⟩
  have hfact : pageExport "/proj/pages/admin/users.tsx" ∈ pagesFacts.exports := by decide
  have hkept : pageExport "/proj/pages/admin/users.tsx" ∈ indexExports pagesDisk pagesFacts.exports := by
    rw [indexExports_pages]
    exact hfact
  have hpage := markedAsPage_pages hfact
  refine ⟨result, result', h, h', ?_, ?_⟩
  · rw [mem_keys_used_iff h hkept, exists_cause_iff, context_pages h]
    exact .inr (.inl hpage)
  · rw [mem_keys_used_iff h' hkept, exists_cause_iff, context_pages h']
    rintro (hother | hpage' | hspecial)
    · exact no_cause_users hother
    · exact (hpage.moreRoots_iff (List.nil_subset _)).1 hpage' shadowed_users
    · exact absurd hspecial.named (by decide)

/-- The first page stays used under that root, which does not reach it. -/
theorem used_under_more_roots_iff_pages : ∃ result result',
    (analyze pagesDisk "/proj" (rulesOf (some {})) pagesFacts (.ofRoot "/proj" {})).1 = .ok result ∧
      (analyze pagesDisk "/proj" (rulesOf (some { routeRoots := ["pages/admin"] })) pagesFacts
        (.ofRoot "/proj" {})).1 = .ok result' ∧
      ∃ x ∈ result.used, x.file = "/proj/pages/home.tsx" ∧ x.key ∈ result'.used.map Export.key := by
  obtain ⟨result, h⟩ := (exists_analyze_eq_ok_iff pagesDisk "/proj" (rulesOf (some {})) pagesFacts
    (.ofRoot "/proj" {})).mpr ⟨_, rfl⟩
  obtain ⟨result', h'⟩ := (exists_analyze_eq_ok_iff pagesDisk "/proj" (rulesOf (some { routeRoots := ["pages/admin"] }))
    pagesFacts (.ofRoot "/proj" {})).mpr ⟨_, rfl⟩
  obtain ⟨off, hoff⟩ := (exists_analyze_eq_ok_iff pagesDisk "/proj"
    (rulesOf (some (LivenessSettings.withoutPages {}))) pagesFacts (.ofRoot "/proj" {})).mpr ⟨_, rfl⟩
  have hfact : pageExport "/proj/pages/home.tsx" ∈ pagesFacts.exports := by decide
  obtain ⟨site, hcause⟩ : ∃ site, Cause pagesDisk (.ofRoot "/proj" {}) (rulesOf (some {})) (result.context pagesDisk)
      pagesFacts.imports (indexExports pagesDisk pagesFacts.exports) (pageExport "/proj/pages/home.tsx") site := by
    rw [exists_cause_iff, context_pages h]
    exact .inr (.inl (markedAsPage_pages hfact))
  obtain ⟨x, hx, hxe, -⟩ := exists_mem_used h (by rw [indexExports_pages]; exact hfact) hcause
  have hfile : x.file = "/proj/pages/home.tsx" := by rw [hxe]; rfl
  refine ⟨result, result', h, h', x, hx, hfile, ?_⟩
  refine (used_under_more_roots_iff (List.nil_subset _) h h' hoff x hx).2 (.inr ?_)
  rintro ⟨-, -, -, root, hroot, hout⟩
  -- The further root does not reach this file, so `pages` is still the longest.
  have hpages : LongestRoot (routeTreeRoots ++ ["pages/admin"]) (pagesContext.parts "/proj/pages/home.tsx") "pages" := by
    rw [parts_pages.1]
    exact ⟨by decide, by decide +kernel, by decide +kernel⟩
  rw [context_pages h, hfile] at hroot
  rw [hroot.unique hpages] at hout
  exact absurd hout (by decide)

end ExportAudit
