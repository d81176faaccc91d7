import Mathlib
import ExportAudit.Proofs.Evidence
import ExportAudit.Proofs.ImportedFiles

/-!
# More evidence never takes a usage away

An export is used because a site has a cause, so analyses of the same exports are compared cause by cause
(`used_of_causes`). Causes remain

- with more imports and more run-time usages (`Cause.mono`);
- with rules that attach at least as much (`Rule.Within`, `Cause.within`), which settings with longer lists of names and
  fewer disabled rules have (`LivenessSettings.Within`, `exists_within_of_mem_rulesOf`).

`analyze_mono` puts these together.
-/

namespace ExportAudit

/-! ## Comparing analyses -/

section Compare

variable {d : Disk} {root root' : String} {rules rules' : List Rule} {facts facts' : ProjectFacts}
  {resolver resolver' : Resolver} {result result' : AnalysisResult}

/-- The retained export behind a used one, and the causes of its sites. -/
theorem exists_of_mem_used (h : (analyze d root rules facts resolver).1 = .ok result) {x : Export}
    (hx : x ∈ result.used) :
    ∃ e ∈ indexExports d facts.exports, x = { e with usedBy := x.usedBy } ∧ (∃ s, s ∈ x.usedBy) ∧
      ∀ s, s ∈ x.usedBy ↔
        Cause d resolver rules (result.context d) facts.imports (indexExports d facts.exports) e s := by
  obtain ⟨j, e, hj, hxe, hsites⟩ := exists_of_mem_result h (List.mem_append_left _ hx)
  exact ⟨e, List.mem_of_getElem? hj, hxe, List.exists_mem_of_ne_nil _ (usedBy_ne_nil_of_mem_used h hx),
    fun s => (hsites s).trans (mem_attachedMarks_iff_cause hj _)⟩

/-- The used exports of an analysis are used with all their sites in another one that has all the causes. -/
theorem used_of_causes (h : (analyze d root rules facts resolver).1 = .ok result)
    (h' : (analyze d root' rules' facts' resolver').1 = .ok result') (hexports : facts'.exports = facts.exports)
    (hcauses : ∀ e s, Cause d resolver rules (result.context d) facts.imports (indexExports d facts.exports) e s →
      Cause d resolver' rules' (result'.context d) facts'.imports (indexExports d facts.exports) e s)
    {x : Export} (hx : x ∈ result.used) : ∃ x' ∈ result'.used, x'.key = x.key ∧ x.usedBy ⊆ x'.usedBy := by
  obtain ⟨e, he, hxe, ⟨s, hs⟩, hsites⟩ := exists_of_mem_used h hx
  rw [← hexports] at he hsites hcauses
  obtain ⟨x', hx', hxe', hsites'⟩ := exists_mem_used h' he (hcauses e s ((hsites s).1 hs))
  refine ⟨x', hx', ?_, fun t ht => (hsites' t).2 (hcauses e t ((hsites t).1 ht))⟩
  rw [hxe', hxe]
  rfl

end Compare

/-! ## Rules that attach more -/

/-- Whatever one rule attaches, another attaches too. -/
structure Rule.Within (r r' : Rule) : Prop where
  covers : ∀ {c : LivenessContext} {kept : List Export} {e : Export}, r.Covers c kept e → r'.Covers c kept e
  hands : ∀ {c : LivenessContext} {kept : List Export} {e : Export} {s : Site}, r.HandsOn c kept e s →
    r'.HandsOn c kept e s

section Rules

variable {stems stems' names names' roots : List String}

theorem Rule.Within.refl (r : Rule) : r.Within r := ⟨id, id⟩

theorem Rule.Within.pageComponents (h : stems ⊆ stems') :
    (Rule.pageComponents stems roots).Within (.pageComponents stems' roots) where
  covers := fun ⟨hdefault, root, hroot, hpage⟩ => ⟨hdefault, root, hroot, hpage.imp_right fun hstem => h hstem⟩
  hands := id

theorem Rule.Within.specialExports (h : names ⊆ names') :
    (Rule.specialExports names roots).Within (.specialExports names' roots) where
  covers := fun ⟨hroot, hnamed, hname⟩ => ⟨hroot, hnamed, h hname⟩
  hands := id

theorem Rule.Within.actionsDirectory (h : names ⊆ names') :
    (Rule.actionsDirectory names).Within (.actionsDirectory names') where
  covers := fun ⟨directory, hdirectory, hname⟩ => ⟨directory, hdirectory, h hname⟩
  hands := id

/-- Rules that attach at least as much do not remove a cause. -/
theorem Cause.within {d : Disk} {resolver : Resolver} {rules rules' : List Rule} {c : LivenessContext}
    {imports : List Import} {kept : List Export} {e : Export} {s : Site}
    (hrules : ∀ r ∈ rules, ∃ r' ∈ rules', r.Within r') (h : Cause d resolver rules c imports kept e s) :
    Cause d resolver rules' c imports kept e s := by
  cases h with
  | carried h => exact .carried h
  | wholeModule hi hfile hname => exact .wholeModule hi hfile hname
  | boundName hi hfile hbound hmeans => exact .boundName hi hfile hbound hmeans
  | @convention r hr hcovers =>
    obtain ⟨r', hr', hwithin⟩ := hrules r hr
    exact .convention hr' (hwithin.covers hcovers)
  | @handed r _ hr hhands =>
    obtain ⟨r', hr', hwithin⟩ := hrules r hr
    exact .handed hr' (hwithin.hands hhands)

end Rules

/-! ## Settings -/

/-- Settings with longer lists of names, fewer disabled rules and the same roots. -/
structure LivenessSettings.Within (s s' : LivenessSettings) : Prop where
  stems : s.pageFileStems ⊆ s'.pageFileStems
  names : s.specialExportNames ⊆ s'.specialExportNames
  directories : s.actionsDirectories ⊆ s'.actionsDirectories
  disabled : s'.disabledRules ⊆ s.disabledRules
  roots : s'.routeRoots = s.routeRoots

section Settings

variable {s s' : LivenessSettings} {r : Rule}

theorem mem_foldl_addNew {α : Type} [BEq α] [LawfulBEq α] {base extra : List α} {a : α} :
    a ∈ extra.foldl addNew base ↔ a ∈ base ∨ a ∈ extra := by
  induction extra generalizing base with
  | nil => simp
  | cons b extra ih => rw [List.foldl_cons, ih, mem_addNew, List.mem_cons, or_assoc]

theorem foldl_addNew_subset {α : Type} [BEq α] [LawfulBEq α] {base extra extra' : List α} (h : extra ⊆ extra') :
    extra.foldl addNew base ⊆ extra'.foldl addNew base := by
  intro a ha
  rw [mem_foldl_addNew] at ha ⊢
  exact ha.imp_right fun ha => h ha

theorem mem_rulesOf : r ∈ rulesOf (some s) ↔ r ∈ allRules s ∧ r.name ∉ s.disabledRules := by
  simp [rulesOf, List.mem_filter]

/-- Every rule of some settings has its counterpart in larger ones. -/
theorem exists_within_of_mem_allRules (h : s.Within s') (hr : r ∈ allRules s) :
    ∃ r' ∈ allRules s', r'.name = r.name ∧ r.Within r' := by
  unfold allRules at hr ⊢
  simp only [h.roots, List.mem_cons, List.not_mem_nil, or_false] at hr ⊢
  rcases hr with rfl | rfl | rfl | rfl | rfl | rfl | rfl
  · exact ⟨_, .inl rfl, rfl, .refl _⟩
  · exact ⟨_, .inr (.inl rfl), rfl, .refl _⟩
  · exact ⟨_, .inr (.inr (.inl rfl)), rfl, .refl _⟩
  · exact ⟨_, .inr (.inr (.inr (.inl rfl))), rfl, .pageComponents (foldl_addNew_subset h.stems)⟩
  · exact ⟨_, .inr (.inr (.inr (.inr (.inl rfl)))), rfl, .specialExports (foldl_addNew_subset h.names)⟩
  · exact ⟨_, .inr (.inr (.inr (.inr (.inr (.inl rfl))))), rfl,
      .actionsDirectory (foldl_addNew_subset h.directories)⟩
  · exact ⟨_, .inr (.inr (.inr (.inr (.inr (.inr rfl))))), rfl, .refl _⟩

/-- Every rule that some settings leave on has its counterpart among those of larger ones. -/
theorem exists_within_of_mem_rulesOf (h : s.Within s') (hr : r ∈ rulesOf (some s)) :
    ∃ r' ∈ rulesOf (some s'), r.Within r' := by
  obtain ⟨hall, henabled⟩ := mem_rulesOf.1 hr
  obtain ⟨r', hr', hname, hwithin⟩ := exists_within_of_mem_allRules h hall
  refine ⟨r', mem_rulesOf.2 ⟨hr', fun hdisabled => henabled ?_⟩, hwithin⟩
  exact hname ▸ h.disabled hdisabled

end Settings

/-! ## Results -/

/-- Facts with more imports and more run-time usages. -/
def ProjectFacts.grow (facts : ProjectFacts) (imports : List Import) (usages : List DynamicUsage) : ProjectFacts :=
  { facts with imports := facts.imports ++ imports, usages := facts.usages ++ usages }

/-- **An analysis is monotone.** With more imports, more run-time usages, longer lists of names and fewer disabled rules,
every used export is still used and carries all the sites that it carried. -/
theorem analyze_mono {d : Disk} {root : String} {s s' : LivenessSettings} {facts : ProjectFacts} {resolver : Resolver}
    {result result' : AnalysisResult} (imports : List Import) (usages : List DynamicUsage) (hs : s.Within s')
    (h : (analyze d root (rulesOf (some s)) facts resolver).1 = .ok result)
    (h' : (analyze d root (rulesOf (some s')) (facts.grow imports usages) resolver).1 = .ok result') :
    ∀ x ∈ result.used, ∃ x' ∈ result'.used, x'.key = x.key ∧ x.usedBy ⊆ x'.usedBy := by
  have htargets : usageTargets d facts = usageTargets d (facts.grow imports usages) := rfl
  have husages : canonicalUsages d facts ⊆ canonicalUsages d (facts.grow imports usages) :=
    List.map_subset _ (List.subset_append_left _ _)
  have hcontext := within_of_usages htargets husages h h'
  intro x hx
  refine used_of_causes h h' rfl (fun e site hcause => ?_) hx
  have hgrown := hcause.mono (List.subset_append_left _ imports) hcontext (.refl _)
  exact hgrown.within fun r hr => exists_within_of_mem_rulesOf hs hr

/-- Settings that leave two rules off. -/
def narrowSettings : LivenessSettings :=
  { disabledRules := ["actions-directory", "middleware"], pageFileStems := ["screen"] }

/-- Settings that leave one of them off and know more names. -/
def wideSettings : LivenessSettings :=
  { disabledRules := ["middleware"], pageFileStems := ["view", "screen"], actionsDirectories := ["mutations"] }

theorem narrowSettings_within : narrowSettings.Within wideSettings where
  stems := by decide
  names := by decide
  directories := by decide
  disabled := by decide
  roots := rfl

/-- Facts of a project that also calls its export. -/
def callingFacts : ProjectFacts :=
  mixedFacts.grow [lostImport] [{ kind := .actionCall, target := "save", file := "/proj/form.ts", line := 4 }]

/-- An export that an import uses keeps its site when there is a call and the settings are wider. -/
theorem analyze_mono_calling : ∃ result result',
    (analyze savingDisk "/proj" (rulesOf (some narrowSettings)) mixedFacts (.ofRoot "/proj" {})).1 = .ok result ∧
      (analyze savingDisk "/proj" (rulesOf (some wideSettings)) callingFacts (.ofRoot "/proj" {})).1 = .ok result' ∧
      ∃ x ∈ result.used, x.name = "save" ∧
        ∃ x' ∈ result'.used, x'.key = x.key ∧ savingImport.site savingDisk ∈ x'.usedBy := by
  obtain ⟨result, h⟩ := (exists_analyze_eq_ok_iff savingDisk "/proj" (rulesOf (some narrowSettings)) mixedFacts
    (.ofRoot "/proj" {})).mpr ⟨_, rfl⟩
  obtain ⟨result', h'⟩ := (exists_analyze_eq_ok_iff savingDisk "/proj" (rulesOf (some wideSettings)) callingFacts
    (.ofRoot "/proj" {})).mpr ⟨_, rfl⟩
  have hsaving : savingImport.destination savingDisk (.ofRoot "/proj" {}) = .file "/proj/actions/save.ts" := by
    decide +kernel
  have hkept : indexExports savingDisk mixedFacts.exports = mixedFacts.exports := by decide +kernel
  have hmeans : Means (indexExports savingDisk mixedFacts.exports) "/proj/actions/save.ts"
      (savingImport.lookupName "store") { name := "save", file := "/proj/actions/save.ts", line := 1 } := by
    rw [hkept]
    exact ⟨0, by decide +kernel, rfl⟩
  obtain ⟨x, hx, hxe, hsite⟩ := exists_mem_used_of_means h List.mem_cons_self hsaving List.mem_cons_self
    (by rw [hkept]; exact List.mem_cons_self) hmeans
  obtain ⟨x', hx', hkey, hsub⟩ := analyze_mono _ _ narrowSettings_within h h' x hx
  exact ⟨result, result', h, h', x, hx, by rw [hxe], x', hx', hkey, hsub hsite⟩

end ExportAudit
