import Mathlib
import ExportAudit.Proofs.Cutting
import ExportAudit.Proofs.Evidence
import ExportAudit.Proofs.ImportedFiles
import ExportAudit.Proofs.Settling
import ExportAudit.Proofs.TargetHost
import ExportAudit.Proofs.UsageShares

/-!
# The order of facts does not matter

Facts may come in another order (`ProjectFacts.Reorders`): imports, run-time usages and type references in any order,
exports in any order that keeps those of one file in theirs. An analysis then gives the same result
(`analyze_reordered`), step by step:

- exports of different files have different keys when no name holds the separator of keys (`file_eq_of_key_eq`), so the
  same exports are retained in every file (`agreeByFile_indexExports`);
- declarations get the same usages, in another order (`within_context`);
- so the same sites have a cause, and the settled exports of every file agree (`agreeByFile_settledExports`);
- interfaces, errors, missing names and the figures of the graph depend on sets and counts only (`usedInterfaces_eq`,
  `sortTexts_errors_eq`, `missing_perm`, `figures_bound_eq`).
-/

namespace ExportAudit

/-- Facts in another order: exports keep their order within each canonical file, imports, run-time usages and type
references may come in any order, and the rest is the same. -/
structure ProjectFacts.Reorders (d : Disk) (facts facts' : ProjectFacts) : Prop where
  exports : ∀ file, facts.exports.filter (fun e => d.real e.file == file) =
    facts'.exports.filter (fun e => d.real e.file == file)
  imports : facts.imports.Perm facts'.imports
  usages : facts.usages.Perm facts'.usages
  typeReferences : facts.typeReferences.Perm facts'.typeReferences
  interfaces : facts.interfaces = facts'.interfaces
  routes : facts.routes = facts'.routes
  actions : facts.actions = facts'.actions
  hooks : facts.hooks = facts'.hooks
  errors : facts.errors = facts'.errors

theorem ProjectFacts.Reorders.symm {d : Disk} {facts facts' : ProjectFacts} (h : facts.Reorders d facts') :
    facts'.Reorders d facts :=
  ⟨fun file => (h.exports file).symm, h.imports.symm, h.usages.symm, h.typeReferences.symm, h.interfaces.symm,
    h.routes.symm, h.actions.symm, h.hooks.symm, h.errors.symm⟩

/-! ## Keys -/

section Keys

/-- The last separator of a list is where two ways of cutting it agree. -/
theorem eq_of_append_cons_eq {sep : Char} {x x' y y' : List Char} (hy : sep ∉ y) (hy' : sep ∉ y')
    (h : x ++ sep :: y = x' ++ sep :: y') : x = x' ∧ y = y' := by
  have hreverse : y.reverse ++ sep :: x.reverse = y'.reverse ++ sep :: x'.reverse := by
    simpa using congrArg List.reverse h
  have hcut : y.reverse = y'.reverse ∧ sep :: x.reverse = sep :: x'.reverse := by
    have hspan := congrArg (List.span (· != sep)) hreverse
    rw [span_append_cons (bne_of_not_mem (by simpa using hy)) (by simp),
      span_append_cons (bne_of_not_mem (by simpa using hy')) (by simp)] at hspan
    exact Prod.mk.inj hspan
  simpa [and_comm] using hcut

theorem separator_not_mem_flagText (b : Bool) : '|' ∉ (flagText b).toList := by
  cases b <;> decide

/-- Exports whose names do not hold the separator have different keys if they are of different files. -/
theorem file_eq_of_key_eq {e e' : Export} (h : e.key = e'.key) (he : '|' ∉ e.name.toList)
    (he' : '|' ∉ e'.name.toList) : Path.normalize e.file = Path.normalize e'.file := by
  have hkey (e : Export) : e.key.toList =
      ((Path.normalize e.file).toList ++ '|' :: e.name.toList) ++ '|' :: (flagText e.isDefault).toList := by
    simp [Export.key, exportKey]
  have hcut := congrArg String.toList h
  rw [hkey, hkey] at hcut
  obtain ⟨hfront, -⟩ := eq_of_append_cons_eq (separator_not_mem_flagText _) (separator_not_mem_flagText _) hcut
  exact String.toList_inj.mp (eq_of_append_cons_eq he he' hfront).1

/-- Retaining the first of each key within a class of items that contains all or none of the items of a key. -/
theorem filter_firstByKey {α : Type} {key : α → String} {p : α → Bool} {items : List α}
    (hp : ∀ a ∈ items, ∀ b ∈ items, key a = key b → p a = p b) :
    (firstByKey key items).filter p = firstByKey key (items.filter p) := by
  induction items using List.reverseRecOn with
  | nil => rfl
  | append_singleton items a ih =>
    have hitems := ih fun b hb c hc => hp b (List.mem_append_left _ hb) c (List.mem_append_left _ hc)
    rw [firstByKey_concat, List.filter_append]
    by_cases ha : p a = true
    · have hkeys : key a ∈ (firstByKey key (items.filter p)).map key ↔ key a ∈ (firstByKey key items).map key := by
        rw [mem_keys_firstByKey, mem_keys_firstByKey, List.mem_map, List.mem_map]
        constructor
        · rintro ⟨b, hb, hkey⟩
          exact ⟨b, List.mem_of_mem_filter hb, hkey⟩
        · rintro ⟨b, hb, hkey⟩
          refine ⟨b, List.mem_filter.mpr ⟨hb, ?_⟩, hkey⟩
          rw [hp b (List.mem_append_left _ hb) a (by simp) hkey, ha]
      rw [List.filter_singleton, ha, Bool.cond_true, firstByKey_concat]
      simp only [hkeys]
      split
      · exact hitems
      · rw [List.filter_append, List.filter_singleton, ha, Bool.cond_true, hitems]
    · have hnone : [a].filter p = [] := by simp [ha]
      rw [hnone, List.append_nil, ← hitems]
      split
      · rfl
      · rw [List.filter_append, hnone, List.append_nil]

end Keys

/-! ## Retained exports -/

section Retained

variable {d : Disk} {facts facts' : ProjectFacts}

theorem filter_indexExports {exports : List Export} (hnames : ∀ e ∈ exports, '|' ∉ e.name.toList) (file : String) :
    (indexExports d exports).filter (·.file == file) =
      indexExports d (exports.filter fun e => d.real e.file == file) := by
  unfold indexExports
  rw [filter_firstByKey, List.filter_map]
  · rfl
  · rintro _ hfirst _ hsecond hkey
    obtain ⟨a, ha, rfl⟩ := List.mem_map.mp hfirst
    obtain ⟨b, hb, rfl⟩ := List.mem_map.mp hsecond
    have hfile := file_eq_of_key_eq hkey (hnames a ha) (hnames b hb)
    simp only [d.normalize_real] at hfile
    simp only [hfile]

theorem ProjectFacts.Reorders.mem_exports (h : facts.Reorders d facts') {e : Export} :
    e ∈ facts.exports ↔ e ∈ facts'.exports := by
  simpa using congrArg (e ∈ ·) (h.exports (d.real e.file))

/-- The same exports are retained, in the same order within each file. -/
theorem agreeByFile_indexExports (h : facts.Reorders d facts') (hnames : ∀ e ∈ facts.exports, '|' ∉ e.name.toList) :
    AgreeByFile (indexExports d facts.exports) (indexExports d facts'.exports) := by
  intro file
  have hnames' : ∀ e ∈ facts'.exports, '|' ∉ e.name.toList := fun e he => hnames e (h.mem_exports.2 he)
  rw [filter_indexExports hnames, filter_indexExports hnames', h.exports]

end Retained

/-! ## Declarations -/

section Declarations

variable {d : Disk} {root : String} {rules : List Rule} {facts facts' : ProjectFacts} {resolver : Resolver}
  {result result' : AnalysisResult}

theorem usageTargets_eq (h : facts.Reorders d facts') : usageTargets d facts = usageTargets d facts' := by
  unfold usageTargets
  rw [h.routes, h.hooks, h.actions]

theorem canonicalUsages_perm (h : facts.Reorders d facts') :
    (canonicalUsages d facts).Perm (canonicalUsages d facts') :=
  h.usages.map _

/-- Whether an analysis returns does not depend on the order. -/
theorem exists_analyze_eq_ok_of_reorders (hr : facts.Reorders d facts')
    (h : (analyze d root rules facts resolver).1 = .ok result) :
    ∃ result', (analyze d root rules facts' resolver).1 = .ok result' := by
  have hattach := (exists_analyze_eq_ok_iff d root rules facts resolver).1 ⟨result, h⟩
  rw [exists_attach_eq_ok_iff] at hattach
  rw [exists_analyze_eq_ok_iff, exists_attach_eq_ok_iff]
  exact fun u hu => hattach u ((canonicalUsages_perm hr).mem_iff.2 hu)

/-- The declarations of two results have the same usages, in another order. -/
theorem within_context (hr : facts.Reorders d facts') (h : (analyze d root rules facts resolver).1 = .ok result)
    (h' : (analyze d root rules facts' resolver).1 = .ok result') :
    (result.context d).Within (result'.context d) :=
  within_of_usages (usageTargets_eq hr) (canonicalUsages_perm hr).subset h h'

end Declarations

/-! ## Settled exports -/

section Settled

variable {d : Disk} {root : String} {rules : List Rule} {facts facts' : ProjectFacts} {resolver : Resolver}
  {result result' : AnalysisResult} {c c' : LivenessContext}

/-- Attaching to different exports reaches each of them by itself. -/
theorem attachAll_eq_map {es : List Export} (hes : es.Nodup) (ps : List (Nat × Site)) :
    attachAll es ps = es.map fun e => e.addUsages (sitesAt ps (es.idxOf e)) := by
  apply List.ext_getElem?
  intro i
  rw [getElem?_attachAll, List.getElem?_map]
  cases hi : es[i]? with
  | none => rfl
  | some e =>
    obtain ⟨hlt, rfl⟩ := List.getElem?_eq_some_iff.mp hi
    rw [Option.map_some, Option.map_some, hes.idxOf_getElem]

/-- A retained export with all its sites in order. -/
def settledExport (d : Disk) (rules : List Rule) (facts : ProjectFacts) (resolver : Resolver) (c : LivenessContext)
    (e : Export) : Export :=
  (e.addUsages (sitesAt (attachedMarks d rules facts resolver c) ((indexExports d facts.exports).idxOf e))).settle

theorem settledExports_eq_map : settledExports d rules facts resolver c =
    (indexExports d facts.exports).map (settledExport d rules facts resolver c) := by
  rw [settledExports, markedExports, attachAll_eq_map (nodup_indexExports d facts.exports), List.map_map]
  rfl

theorem file_settledExport (e : Export) : (settledExport d rules facts resolver c e).file = e.file := by
  rw [settledExport, Export.addUsages_eq]
  rfl

theorem mem_sites_iff_cause {e : Export} (he : e ∈ indexExports d facts.exports) (s : Site) :
    s ∈ e.usedBy ∨ s ∈ sitesAt (attachedMarks d rules facts resolver c) ((indexExports d facts.exports).idxOf e) ↔
      Cause d resolver rules c facts.imports (indexExports d facts.exports) e s := by
  rw [mem_sitesAt]
  exact mem_attachedMarks_iff_cause (List.getElem?_idxOf he) c

/-- The settled exports of every file are the same. -/
theorem agreeByFile_settledExports (hr : facts.Reorders d facts') (hnames : ∀ e ∈ facts.exports, '|' ∉ e.name.toList)
    (hc : c.Within c') (hc' : c'.Within c) :
    AgreeByFile (settledExports d rules facts resolver c) (settledExports d rules facts' resolver c') := by
  have hkept := agreeByFile_indexExports hr hnames
  have hsame (e : Export) (he : e ∈ indexExports d facts.exports) :
      settledExport d rules facts resolver c e = settledExport d rules facts' resolver c' e := by
    refine Export.settle_addUsages fun s => ?_
    rw [mem_sites_iff_cause he, mem_sites_iff_cause (hkept.mem_iff.1 he)]
    exact ⟨.mono hr.imports.subset hc hkept, .mono hr.imports.symm.subset hc' hkept.symm⟩
  intro file
  rw [settledExports_eq_map, settledExports_eq_map, List.filter_map, List.filter_map]
  simp only [Function.comp_def, file_settledExport]
  rw [← hkept file]
  exact List.map_congr_left fun e he => hsame e (List.mem_of_mem_filter he)

/-- Lists that agree by file have the same items that a property of one file singles out. -/
theorem AgreeByFile.filter_eq {kept kept' : List Export} (h : AgreeByFile kept kept') {p : Export → Bool}
    {file : String} (hp : ∀ e, p e = true → e.file = file) : kept.filter p = kept'.filter p := by
  have hwithin (l : List Export) : l.filter p = (l.filter (·.file == file)).filter p := by
    rw [List.filter_filter]
    refine List.filter_congr fun e _ => ?_
    cases he : p e with
    | false => rfl
    | true => simp [hp e he]
  rw [hwithin, hwithin kept', h]

/-- Sorting by file first brings lists that agree by file into the same order. -/
theorem AgreeByFile.mergeSort_eq {γ : Type} [LinearOrder γ] {kept kept' : List Export} (h : AgreeByFile kept kept')
    {le : Export → Export → Bool} {rank : Export → String ×ₗ γ} (hle : ∀ a b, le a b = true ↔ rank a ≤ rank b)
    (hfile : ∀ e, (ofLex (rank e)).1 = e.file) (p : Export → Bool) :
    (kept.filter p).mergeSort le = (kept'.filter p).mergeSort le := by
  refine mergeSort_eq_of_ranks hle fun r => ?_
  rw [List.filter_filter, List.filter_filter]
  refine h.filter_eq fun e he => (?_ : e.file = (ofLex r).1)
  rw [Bool.and_eq_true, decide_eq_true_eq] at he
  rw [← hfile e, he.1]

end Settled

/-! ## Interfaces, errors, missing names and figures -/

section Findings

variable {d : Disk} {root : String} {facts facts' : ProjectFacts} {resolver : Resolver}

theorem Site.file_line_injective : Function.Injective fun s : Site => toLex (s.file, s.line) := by
  rintro ⟨file, line⟩ ⟨file', line'⟩ h
  simpa using h

/-- An interface gets the same sites from references at the same places, once they are sorted. -/
theorem Interface.sites_attach_eq {references references' : List TypeReference}
    (h : ∀ r, r ∈ references ↔ r ∈ references') (i : Interface) :
    (i.attach references).usedBy.mergeSort Site.le = (i.attach references').usedBy.mergeSort Site.le := by
  have hsites (s : Site) : s ∈ sitesOf references i.name ↔ s ∈ sitesOf references' i.name := by
    simp only [sitesOf, List.mem_map, List.mem_filter, h]
  exact mergeSort_eq_of_perm Site.le_iff Site.file_line_injective
    (Site.perm_foldl_attach fun s => or_congr_right (hsites s))

theorem usedInterfaces_eq (h : facts.Reorders d facts') : usedInterfaces d facts = usedInterfaces d facts' := by
  have hreferences := h.typeReferences.map fun r => { r with site := (⟨d.real r.site.file, r.site.line⟩ : Site) }
  unfold usedInterfaces
  simp only [fst_attachReferences, h.interfaces, List.map_map]
  congr 2
  refine List.map_congr_left fun i _ => ?_
  exact congrArg (fun sites => { i with file := d.real i.file, usedBy := sites })
    (Interface.sites_attach_eq (fun _ => hreferences.mem_iff) { i with file := d.real i.file })

/-- The pairs of reference and file that fail decide the errors of the imports, once they are sorted. -/
theorem sortTexts_errors_eq (h : ∀ p, (∃ i ∈ facts.imports, i.Fails d resolver ∧ p = (i.reference, d.real i.file)) ↔
      ∃ i ∈ facts'.imports, i.Fails d resolver ∧ p = (i.reference, d.real i.file)) :
    sortTexts (boundImports d root facts resolver).errors = sortTexts (boundImports d root facts' resolver).errors := by
  have hreported := reported_bound d root facts resolver
  have hreported' := reported_bound d root facts' resolver
  have hpairs : (boundImports d root facts resolver).reported.Perm (boundImports d root facts' resolver).reported := by
    rw [List.perm_ext_iff_of_nodup hreported.nodup hreported'.nodup]
    intro p
    rw [hreported.mem, hreported'.mem, h]
  rw [hreported.errors, hreported'.errors]
  refine List.Perm.eq_of_pairwise (fun _ _ _ _ => le_antisymm) (pairwise_sortTexts _) (pairwise_sortTexts _) ?_
  refine (sortTexts_perm _).trans (List.Perm.trans ?_ (sortTexts_perm _).symm)
  exact (List.reverse_perm _).trans ((hpairs.map _).trans (List.reverse_perm _).symm)

/-- What an import owes depends on the exports of its target only. -/
theorem owed_eq {kept kept' : List Export} (h : AgreeByFile kept kept') (importer : String) (i : Import)
    (place : Destination) : i.owed kept importer place = i.owed kept' importer place := by
  cases place with
  | failure reason detail => rfl
  | file target => simp only [Import.owed, h target]

/-- The same names are missing. -/
theorem missing_perm (h : facts.Reorders d facts') (hnames : ∀ e ∈ facts.exports, '|' ∉ e.name.toList) :
    (boundImports d root facts resolver).missing.Perm (boundImports d root facts' resolver).missing := by
  refine (missing_bound d root facts resolver).trans (List.Perm.trans ?_ (missing_bound d root facts' resolver).symm)
  simp only [owed_eq (agreeByFile_indexExports h hnames)]
  exact h.imports.flatMap_right _

/-- The graphs have as many files, edges and files that nothing imports. -/
theorem figures_bound_eq (h : facts.Reorders d facts') (hnames : ∀ e ∈ facts.exports, '|' ∉ e.name.toList) :
    (boundImports d root facts' resolver).graph.files.length = (boundImports d root facts resolver).graph.files.length ∧
    (boundImports d root facts' resolver).graph.edges.length = (boundImports d root facts resolver).graph.edges.length ∧
    (boundImports d root facts' resolver).graph.unimported.length =
      (boundImports d root facts resolver).graph.unimported.length := by
  refine ImportGraph.figures_eq (proper_bound d root facts resolver) (proper_bound d root facts' resolver)
    (fun f => ?_) fun p => ?_
  · simp only [mem_files_bound, (agreeByFile_indexExports h hnames).mem_iff, h.imports.mem_iff]
  · simp only [mem_pairs_bound, h.imports.mem_iff]

end Findings

/-! ## Results -/

/-- Two results agree on all that the order of the facts should not decide: the exports with their sites and their
order, the interfaces, the errors, the missing names as often as they are missing, and the sizes of the graph. -/
structure AnalysisResult.Agrees (result result' : AnalysisResult) : Prop where
  used : result'.used = result.used
  unused : result'.unused = result.unused
  interfaces : result'.interfaces = result.interfaces
  errors : result'.errors = result.errors
  missing : result'.missing.Perm result.missing
  figures : ∃ s s', result.figures = some s ∧ result'.figures = some s' ∧ s'.files = s.files ∧ s'.edges = s.edges ∧
    s'.unimported = s.unimported

/-- **The order of facts does not matter.** If no name of an export holds the separator of keys and an analysis returns
a result, then with the facts in another order it returns one too, and the two agree. -/
theorem analyze_reordered {d : Disk} {root : String} {rules : List Rule} {facts facts' : ProjectFacts}
    {resolver : Resolver} {result : AnalysisResult} (hnames : ∀ e ∈ facts.exports, '|' ∉ e.name.toList)
    (hr : facts.Reorders d facts') (h : (analyze d root rules facts resolver).1 = .ok result) :
    ∃ result', (analyze d root rules facts' resolver).1 = .ok result' ∧ result.Agrees result' := by
  obtain ⟨result', h'⟩ := exists_analyze_eq_ok_of_reorders hr h
  have hsettled : AgreeByFile (settledExports d rules facts resolver (result.context d))
      (settledExports d rules facts' resolver (result'.context d)) :=
    agreeByFile_settledExports hr hnames (within_context hr h h') (within_context hr.symm h' h)
  obtain ⟨hused, hunused⟩ := result_settled h
  obtain ⟨hused', hunused'⟩ := result_settled h'
  obtain ⟨t, n, -, hresult⟩ := exists_of_analyze_eq_ok_bound h
  obtain ⟨t', n', -, hresult'⟩ := exists_of_analyze_eq_ok_bound h'
  refine ⟨result', h', ?_, ?_, ?_, ?_, ?_, ?_⟩
  · rw [hused, hused']
    exact (hsettled.mergeSort_eq Export.usedLe_iff (fun _ => rfl) _).symm
  · rw [hunused, hunused']
    exact (hsettled.mergeSort_eq Export.unusedLe_iff (fun _ => rfl) _).symm
  · rw [hresult, hresult']
    exact (usedInterfaces_eq hr).symm
  · rw [hresult, hresult']
    refine congrArg₂ (· ++ ·) (sortTexts_errors_eq fun p => ?_).symm hr.errors.symm
    simp only [hr.imports.mem_iff]
  · rw [hresult, hresult']
    exact (List.mergeSort_perm _ _).trans ((missing_perm hr hnames).symm.trans (List.mergeSort_perm _ _).symm)
  · rw [hresult, hresult']
    exact ⟨_, _, rfl, rfl, figures_bound_eq hr hnames⟩

/-- Facts of two files: one exports a name twice, and each refers to the other. -/
def crossFacts : ProjectFacts :=
  { exports := [{ name := "save", file := "/proj/actions/save.ts", line := 1 },
      { name := "save", file := "/proj/actions/save.ts", line := 5 },
      { name := "Form", file := "/proj/form.ts", line := 4 }]
    imports := [savingImport, lostImport,
      { file := "/proj/actions/save.ts", reference := "../form", line := 2, names := ["Form"] }]
    interfaces := [{ name := "Saved", file := "/proj/actions/save.ts", line := 3 }]
    typeReferences := [⟨"Saved", ⟨"/proj/form.ts", 9⟩⟩, ⟨"Saved", ⟨"/proj/form.ts", 7⟩⟩]
    hooks := [{ name := "useSave", file := "/proj/actions/save.ts", line := 6 }]
    usages := [{ kind := .hookCall, target := "useSave", file := "/proj/form.ts", line := 5 },
      { kind := .networkCall, target := "/api/save", file := "/proj/form.ts", line := 6 }] }

/-- The same facts, the second file first and everything else from its end. -/
def crossFactsReordered : ProjectFacts :=
  { crossFacts with
    exports := crossFacts.exports.drop 2 ++ crossFacts.exports.take 2
    imports := crossFacts.imports.reverse
    typeReferences := crossFacts.typeReferences.reverse
    usages := crossFacts.usages.reverse }

theorem crossFacts_reorders : crossFacts.Reorders savingDisk crossFactsReordered where
  exports file := by
    have hform : savingDisk.real "/proj/form.ts" = "/proj/form.ts" := by decide +kernel
    have hsave : savingDisk.real "/proj/actions/save.ts" = "/proj/actions/save.ts" := by decide +kernel
    by_cases hfile : file = "/proj/form.ts"
    · simp [crossFacts, crossFactsReordered, hform, hsave, hfile]
    · simp [crossFacts, crossFactsReordered, hform, List.filter_cons, Ne.symm hfile]
  imports := (List.reverse_perm _).symm
  usages := (List.reverse_perm _).symm
  typeReferences := (List.reverse_perm _).symm
  interfaces := rfl
  routes := rfl
  actions := rfl
  hooks := rfl
  errors := rfl

/-- Both orders lead to results, and these agree. -/
theorem analyze_reordered_cross : ∃ result result',
    (analyze savingDisk "/proj" (rulesOf none) crossFacts (.ofRoot "/proj" {})).1 = .ok result ∧
      (analyze savingDisk "/proj" (rulesOf none) crossFactsReordered (.ofRoot "/proj" {})).1 = .ok result' ∧
      crossFacts ≠ crossFactsReordered ∧ result.Agrees result' := by
  have hnames : ∀ e ∈ crossFacts.exports, '|' ∉ e.name.toList := by decide
  obtain ⟨result, h⟩ :=
    (exists_analyze_eq_ok_iff savingDisk "/proj" (rulesOf none) crossFacts (.ofRoot "/proj" {})).mpr ⟨_, rfl⟩
  obtain ⟨result', h', hagrees⟩ := analyze_reordered hnames crossFacts_reorders h
  exact ⟨result, result', h, h', by decide, hagrees⟩

end ExportAudit
