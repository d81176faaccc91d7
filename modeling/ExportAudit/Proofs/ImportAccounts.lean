import Mathlib
import ExportAudit.Proofs.Classification
import ExportAudit.Proofs.Partition

/-!
# What becomes of every import

Every name that an import binds is either attached to the export it means or listed as missing, and every reference
that leads nowhere is reported once.

- Binding the imports of a project is a fold in which each import is answered as if nothing was remembered
  (`bindImports_eq_foldl`, `exists_of_analyze_eq_ok_bound`);
- each import adds what it owes to the missing names, whatever the others did (`missing_next`, `missing_foldl_next`);
- errors stand for the distinct pairs of reference and file that fail (`Reported`, `reported_next`,
  `reported_foldl_next`).

`analyze_accounts` says this of the result of an analysis (`AnalysisResult.Accounts`).
-/

namespace ExportAudit

/-! ## Accounts -/

/-- Where the reference of an import leads, for a resolver that remembers nothing. -/
def Import.destination (d : Disk) (resolver : Resolver) (i : Import) : Destination :=
  (resolver.reset.resolve d i.reference (d.real i.file)).1.destination

/-- The name of an import for a whole module; there is none if the module is bound to an empty name. -/
def Import.wholeModule (i : Import) : List String :=
  (i.namespaceName.toList.filter (· ≠ "")).map ("* as " ++ ·)

/-- The entries that an import owes to the list of missing names: none for a reference out of the project, one for each
name and for the whole module if the reference fails, and for a reference to a file those that the exports of the file
do not answer to. -/
def Import.owed (kept : List Export) (importer : String) (i : Import) : Destination → List MissingImport
  | .failure reason detail =>
    if reason.isExternal then []
    else (i.names.map i.lookupName ++ i.wholeModule).map fun name =>
      { file := importer, line := i.line, name := name, reference := i.reference, reason := detail, target := none }
  | .file target =>
    let own := kept.filter (·.file == target)
    let reason := if own.isEmpty then "target resolved but no exports parsed" else "export not found in target module"
    let missed := (i.names.map i.lookupName).filter fun name => (matchExport? own name).isNone
    (missed ++ if own.isEmpty then i.wholeModule else []).map fun name =>
      { file := importer, line := i.line, name := name, reference := i.reference, reason := reason
        target := some target }

/-- The reference of an import should lead to a file of the project and does not. -/
def Import.Fails (d : Disk) (resolver : Resolver) (i : Import) : Prop :=
  ∃ reason detail, i.destination d resolver = .failure reason detail ∧ reason.isExternal = false

instance (d : Disk) (resolver : Resolver) (i : Import) : Decidable (i.Fails d resolver) :=
  match h : i.destination d resolver with
  | .file _ => isFalse fun ⟨_, _, hfailure, _⟩ => by rw [h] at hfailure; cases hfailure
  | .failure reason detail =>
    if hexternal : reason.isExternal = false then isTrue ⟨reason, detail, h, hexternal⟩
    else isFalse fun ⟨_, _, hfailure, hinternal⟩ => by
      rw [h, Destination.failure.injEq] at hfailure
      exact hexternal (hfailure.1 ▸ hinternal)

/-- What is said about a failure; nothing about a success. -/
def Destination.detail : Destination → String
  | .failure _ detail => detail
  | .file _ => ""

/-- The error for a reference that fails in a file. -/
def failureMessage (d : Disk) (root : String) (resolver : Resolver) (p : String × String) : String :=
  "Module resolution failed for '" ++ p.1 ++ "' in " ++ Path.display d.cwd root p.2 ++ ": " ++
    (resolver.reset.resolve d p.1 p.2).1.destination.detail

/-- Where a missing name stands in a list: by file, then by line, then by name. -/
def MissingImport.rank (m : MissingImport) : String ×ₗ Nat ×ₗ String :=
  toLex (m.file, toLex (m.line, m.name))

/-- What it means that a result accounts for every import. -/
structure AnalysisResult.Accounts (d : Disk) (root : String) (rules : List Rule) (facts : ProjectFacts)
    (resolver : Resolver) (result : AnalysisResult) : Prop where
  /-- The missing names are those that the imports owe, neither more nor fewer. -/
  missing : result.missing.Perm (facts.imports.flatMap fun i =>
    i.owed (indexExports d facts.exports) (d.real i.file) (i.destination d resolver))
  missing_sorted : result.missing.Pairwise fun a b => a.rank ≤ b.rank
  /-- A bound name that is not missing means one export of the target, and that export carries the site. -/
  credited : ∀ i ∈ facts.imports, ∀ target, i.destination d resolver = .file target → ∀ n ∈ i.names,
    matchExport? ((indexExports d facts.exports).filter (·.file == target)) (i.lookupName n) ≠ none →
      ∃! e, Means (indexExports d facts.exports) target (i.lookupName n) e ∧
        ∃ x ∈ result.used, x = { e with usedBy := x.usedBy } ∧ i.site d ∈ x.usedBy
  /-- No export carries a site for another reason than those of `Cause`. -/
  sites : ∀ x ∈ result.used ++ result.unused, ∃ e ∈ indexExports d facts.exports, x = { e with usedBy := x.usedBy } ∧
    ∀ s, s ∈ x.usedBy ↔
      Cause d resolver rules (result.context d) facts.imports (indexExports d facts.exports) e s
  /-- The errors are one message, in order, for each distinct pair that fails, and then those of the facts. -/
  errors : ∃ (failing : List (String × String)) (messages : List String), failing.Nodup ∧
    (∀ p, p ∈ failing ↔ ∃ i ∈ facts.imports, i.Fails d resolver ∧ p = (i.reference, d.real i.file)) ∧
    messages.Perm (failing.map (failureMessage d root resolver)) ∧ messages.Pairwise (· ≤ ·) ∧
    result.errors = messages ++ facts.errors

/-! ## The fold -/

section Fold

variable {d : Disk} {root : String} {resolver : Resolver}

theorem Import.destination_eq (i : Import) :
    i.destination d resolver = (resolver.answer d i.reference (d.real i.file)).destination := by
  rw [Import.destination, (Resolver.recalls_reset d resolver).resolve_eq_answer (d.normalize_real _),
    Resolver.answer_reset]

/-- What one more import adds, answered as if nothing was remembered. -/
def Bindings.next (d : Disk) (root : String) (resolver : Resolver) (b : Bindings) (i : Import) : Bindings :=
  Bindings.add d root (d.real i.file) i (resolver.answer d i.reference (d.real i.file))
    { b with graph := b.graph.addFile (d.real i.file) }

/-- Binding imports is a fold: what the resolver remembers from one import to the next does not show. -/
theorem bindImports_eq_foldl (imports : List Import) (b : Bindings) {r : Resolver} (hr : r.Recalls d) :
    (bindImports d root imports b r).1 = imports.foldl (Bindings.next d root r) b := by
  induction imports generalizing b r with
  | nil => rfl
  | cons i imports ih =>
    have hfile := d.normalize_real i.file
    have hnext : Bindings.next d root (r.resolve d i.reference (d.real i.file)).2 = Bindings.next d root r := by
      unfold Bindings.next
      rw [Resolver.answer_congr (r.root_resolve d i.reference (d.real i.file))]
    rw [bindImports]
    simp only
    rw [ih _ (hr.resolve hfile), hnext, hr.resolve_eq_answer hfile, List.foldl_cons]
    rfl

/-- What the imports of a project start from. -/
def startBindings (d : Disk) (facts : ProjectFacts) : Bindings :=
  { exports := indexExports d facts.exports
    graph := (indexExports d facts.exports).foldl (fun g e => g.addFile e.file) {} }

/-- What the imports of a project lead to. -/
def boundImports (d : Disk) (root : String) (facts : ProjectFacts) (resolver : Resolver) : Bindings :=
  facts.imports.foldl (Bindings.next d root resolver) (startBindings d facts)

/-- The result of an analysis is drawn from what its imports and run-time usages lead to. -/
theorem exists_of_analyze_eq_ok_bound {rules : List Rule} {facts : ProjectFacts} {result : AnalysisResult}
    (h : (analyze d root rules facts resolver).1 = .ok result) :
    ∃ t n, (usageTargets d facts).attach (canonicalUsages d facts) = .ok (t, n) ∧
      result = conclude d root rules facts (boundImports d root facts resolver) t (canonicalUsages d facts) := by
  unfold analyze at h
  simp only at h
  rw [← canonicalUsages, ← startBindings, bindImports_eq_foldl _ _ (Resolver.recalls_reset d resolver)] at h
  cases hattach : (usageTargets d facts).attach (canonicalUsages d facts) with
  | error fault => rw [hattach] at h; cases h
  | ok found =>
    rw [hattach] at h
    exact ⟨found.1, found.2, rfl, (Except.ok.inj h).symm⟩

/-- The exports keep all but their usages while imports are bound. -/
theorem exports_next (i : Import) (b : Bindings) : ∃ ps, (b.next d root resolver i).exports = attachAll b.exports ps :=
  ⟨_, exports_add resolver i { b with graph := b.graph.addFile (d.real i.file) }⟩

end Fold

/-! ## Missing names -/

section Missing

variable {d : Disk} {root : String} {resolver : Resolver} {es : List Export} {ps : List (Nat × Site)}

theorem any_attachAll {p : Export → Bool} (hp : ∀ e sites, p { e with usedBy := sites } = p e) :
    (attachAll es ps).any p = es.any p := by
  have h (l : List Export) : l.any p = (l.map p).any id := by rw [List.any_map]; rfl
  rw [h, h, map_attachAll hp]

theorem isEmpty_filter_file (target : String) :
    (es.filter (·.file == target)).isEmpty = !es.any (·.file == target) := by
  rw [Bool.eq_iff_iff]
  simp [List.isEmpty_iff, List.filter_eq_nil_iff]

theorem matchExport?_eq_none_iff {name : String} :
    matchExport? es name = none ↔ ∀ e ∈ es, e.answersTo name = false := by
  simp [matchExport?, List.findIdx?_eq_none_iff]

theorem isNone_matchExport? (target name : String) : (matchExport? (es.filter (·.file == target)) name).isNone =
    !es.any fun e => e.file == target && e.answersTo name := by
  rw [Bool.eq_iff_iff, Option.isNone_iff_eq_none, matchExport?_eq_none_iff]
  simp only [List.mem_filter, Bool.not_eq_true', List.any_eq_false, Bool.and_eq_true, beq_iff_eq, and_imp, not_and,
    Bool.not_eq_true]

/-- What is owed does not depend on usages. -/
theorem owed_attachAll (importer : String) (i : Import) (place : Destination) :
    i.owed (attachAll es ps) importer place = i.owed es importer place := by
  cases place with
  | failure reason detail => rfl
  | file target =>
    simp only [Import.owed, isEmpty_filter_file, isNone_matchExport?]
    rw [any_attachAll fun _ _ => rfl]
    congr 3
    funext n
    rw [any_attachAll fun _ _ => rfl]

theorem wholeModule_eq (i : Import) : (i.namespace?.map ("* as " ++ ·)).toList = i.wholeModule := by
  unfold Import.namespace? Import.wholeModule
  cases i.namespaceName with
  | none => rfl
  | some name => by_cases hempty : name = "" <;> simp [hempty]

theorem missingNames_perm_owed (target importer : String) (i : Import) :
    (missingNames es target importer i).Perm (i.owed es importer (.file target)) := by
  unfold missingNames Import.owed Import.wanted
  simp only [wholeModule_eq]
  by_cases h : (es.filter (·.file == target)).isEmpty = true
  · have hnone (name : String) : (matchExport? (es.filter (·.file == target)) name).isNone = true := by
      rw [List.isEmpty_iff.mp h]
      rfl
    simp only [h, if_true, hnone, List.filter_true]
    exact List.perm_append_comm.map _
  · simp only [h, if_false, Bool.false_eq_true, List.append_nil]
    exact List.Perm.refl _

/-- One more import adds what it owes. -/
theorem missing_next (i : Import) (b : Bindings) : (b.next d root resolver i).missing.Perm
    (b.missing ++ i.owed b.exports (d.real i.file) (i.destination d resolver)) := by
  rw [Import.destination_eq]
  unfold Bindings.next Bindings.add
  cases (resolver.answer d i.reference (d.real i.file)).destination with
  | file target => exact (missingNames_perm_owed target _ i).append_left _
  | failure reason detail =>
    simp only [Import.owed]
    cases reason.isExternal with
    | true => simp
    | false =>
      simp only [Bool.false_eq_true, if_false]
      refine List.Perm.append_left _ ?_
      rw [Import.wanted, wholeModule_eq]
      exact List.perm_append_comm.map _

/-- The imports of a project add what each of them owes. -/
theorem missing_foldl_next (imports : List Import) (b : Bindings) :
    (imports.foldl (Bindings.next d root resolver) b).missing.Perm
      (b.missing ++ imports.flatMap fun i => i.owed b.exports (d.real i.file) (i.destination d resolver)) := by
  induction imports generalizing b with
  | nil => simp
  | cons i imports ih =>
    obtain ⟨ps, hps⟩ : ∃ ps, (b.next d root resolver i).exports = attachAll b.exports ps := exports_next i b
    have hrest := ih (b.next d root resolver i)
    simp only [hps, owed_attachAll] at hrest
    rw [List.foldl_cons, List.flatMap_cons, ← List.append_assoc]
    exact hrest.trans ((missing_next i b).append_right _)

theorem missing_bound (d : Disk) (root : String) (facts : ProjectFacts) (resolver : Resolver) :
    (boundImports d root facts resolver).missing.Perm (facts.imports.flatMap fun i =>
      i.owed (indexExports d facts.exports) (d.real i.file) (i.destination d resolver)) :=
  missing_foldl_next facts.imports (startBindings d facts)

theorem MissingImport.le_iff (a b : MissingImport) : MissingImport.le a b = true ↔ a.rank ≤ b.rank := by
  refine thenLe_iff_toLex MissingImport.file (fun m => toLex (m.line, m.name)) ?_ a b
  exact thenLe_iff_toLex MissingImport.line MissingImport.name fun _ _ => decide_eq_true_iff

end Missing

/-! ## Errors -/

section Errors

variable {d : Disk} {root : String} {resolver : Resolver} {b : Bindings}

/-- Imports have led to one error for each distinct pair that fails among them. -/
structure Reported (d : Disk) (root : String) (resolver : Resolver) (imports : List Import) (b : Bindings) : Prop where
  errors : b.errors = (b.reported.map (failureMessage d root resolver)).reverse
  nodup : b.reported.Nodup
  mem : ∀ p, p ∈ b.reported ↔ ∃ i ∈ imports, i.Fails d resolver ∧ p = (i.reference, d.real i.file)

/-- An import that does not fail reports nothing. -/
theorem reported_next_of_not_fails (root : String) (b : Bindings) {i : Import} (h : ¬ i.Fails d resolver) :
    (b.next d root resolver i).reported = b.reported ∧ (b.next d root resolver i).errors = b.errors := by
  unfold Import.Fails at h
  rw [Import.destination_eq] at h
  unfold Bindings.next Bindings.add
  cases hto : (resolver.answer d i.reference (d.real i.file)).destination with
  | file target => exact ⟨rfl, rfl⟩
  | failure reason detail =>
    have hexternal : reason.isExternal = true := by
      by_contra hinternal
      exact h ⟨reason, detail, hto, by simpa using hinternal⟩
    simp [hexternal]

/-- An import that fails is reported unless its pair has been. -/
theorem reported_next_of_fails (root : String) (b : Bindings) {i : Import} (h : i.Fails d resolver) :
    (b.next d root resolver i).reported =
        (if (i.reference, d.real i.file) ∈ b.reported then b.reported
          else (i.reference, d.real i.file) :: b.reported) ∧
      (b.next d root resolver i).errors =
        (if (i.reference, d.real i.file) ∈ b.reported then b.errors
          else b.errors ++ [failureMessage d root resolver (i.reference, d.real i.file)]) := by
  obtain ⟨reason, detail, hto, hinternal⟩ := h
  have hmessage : failureMessage d root resolver (i.reference, d.real i.file) =
      "Module resolution failed for '" ++ i.reference ++ "' in " ++ Path.display d.cwd root (d.real i.file) ++ ": " ++
        detail := by
    unfold failureMessage
    rw [← Import.destination, hto]
    rfl
  rw [Import.destination_eq] at hto
  unfold Bindings.next Bindings.add
  simp only [hto, hinternal, Bool.false_eq_true, if_false, List.contains_iff_mem, hmessage]
  exact ⟨trivial, trivial⟩

theorem reported_next {imports : List Import} (h : Reported d root resolver imports b) (i : Import) :
    Reported d root resolver (imports ++ [i]) (b.next d root resolver i) := by
  have hmem (p : String × String) : (∃ j ∈ imports ++ [i], j.Fails d resolver ∧ p = (j.reference, d.real j.file)) ↔
      p ∈ b.reported ∨ i.Fails d resolver ∧ p = (i.reference, d.real i.file) := by
    rw [h.mem]
    simp [or_and_right, exists_or]
  by_cases hfails : i.Fails d resolver
  · obtain ⟨hreported, herrors⟩ := reported_next_of_fails root b hfails
    by_cases hold : (i.reference, d.real i.file) ∈ b.reported
    · rw [if_pos hold] at hreported herrors
      refine ⟨by rw [herrors, hreported, h.errors], by rw [hreported]; exact h.nodup, fun p => ?_⟩
      rw [hreported, hmem]
      exact ⟨Or.inl, fun hp => hp.elim id fun hi => hi.2 ▸ hold⟩
    · rw [if_neg hold] at hreported herrors
      refine ⟨?_, by rw [hreported]; exact List.nodup_cons.mpr ⟨hold, h.nodup⟩, fun p => ?_⟩
      · rw [herrors, hreported, h.errors, List.map_cons, List.reverse_cons]
      · rw [hreported, hmem, List.mem_cons, or_comm]
        simp [hfails]
  · obtain ⟨hreported, herrors⟩ := reported_next_of_not_fails root b hfails
    refine ⟨by rw [herrors, hreported, h.errors], by rw [hreported]; exact h.nodup, fun p => ?_⟩
    rw [hreported, hmem]
    simp [hfails]

/-- The errors of all the imports of a project. -/
theorem reported_foldl_next (imports : List Import) (hreported : b.reported = []) (herrors : b.errors = []) :
    Reported d root resolver imports (imports.foldl (Bindings.next d root resolver) b) := by
  induction imports using List.reverseRecOn with
  | nil => exact ⟨by rw [List.foldl_nil, hreported, herrors]; rfl, by simp [hreported], by simp [hreported]⟩
  | append_singleton imports i ih =>
    rw [List.foldl_append, List.foldl_cons, List.foldl_nil]
    exact reported_next ih i

theorem reported_bound (d : Disk) (root : String) (facts : ProjectFacts) (resolver : Resolver) :
    Reported d root resolver facts.imports (boundImports d root facts resolver) :=
  reported_foldl_next facts.imports rfl rfl

theorem sortTexts_perm (l : List String) : (sortTexts l).Perm l :=
  List.mergeSort_perm l _

theorem pairwise_sortTexts (l : List String) : (sortTexts l).Pairwise (· ≤ ·) :=
  pairwise_mergeSort_rank (fun _ _ => decide_eq_true_iff) l

end Errors

/-! ## Results -/

section Results

variable {d : Disk} {root : String} {rules : List Rule} {facts : ProjectFacts} {resolver : Resolver}
  {result : AnalysisResult}

theorem Means.unique {kept : List Export} {file name : String} {e e' : Export} (h : Means kept file name e)
    (h' : Means kept file name e') : e' = e := by
  obtain ⟨k, hk, he⟩ := h
  obtain ⟨k', hk', he'⟩ := h'
  rw [hk, Option.some.injEq] at hk'
  subst hk'
  rw [he, Option.some.injEq] at he'
  exact he'.symm

theorem exists_means {kept : List Export} {file name : String}
    (h : matchExport? (kept.filter (·.file == file)) name ≠ none) : ∃ e ∈ kept, Means kept file name e := by
  obtain ⟨k, hk⟩ := Option.ne_none_iff_exists'.mp h
  obtain ⟨hlt, -⟩ := List.findIdx?_eq_some_iff_getElem.mp hk
  have he := List.getElem?_eq_getElem hlt
  exact ⟨_, List.mem_of_mem_filter (List.mem_of_getElem? he), k, hk, he⟩

/-- The export of a result that stands for a retained one, with the sites that have a cause. -/
theorem exists_mem_result (h : (analyze d root rules facts resolver).1 = .ok result) {e : Export}
    (he : e ∈ indexExports d facts.exports) :
    ∃ x ∈ result.used ++ result.unused, x = { e with usedBy := x.usedBy } ∧ ∀ s, s ∈ x.usedBy ↔
      Cause d resolver rules (result.context d) facts.imports (indexExports d facts.exports) e s := by
  obtain ⟨x, hx, hkey⟩ := List.mem_map.mp ((keys_result_perm h).mem_iff.mpr (List.mem_map_of_mem he))
  obtain ⟨j, e', hj, hxe, hsites⟩ := exists_of_mem_result h hx
  obtain ⟨k, hk⟩ := List.getElem?_of_mem he
  have hsame : e'.key = e.key := by
    rw [← hkey, hxe]
    rfl
  obtain rfl := position_eq_of_key_eq hj hk hsame
  rw [hk, Option.some.injEq] at hj
  subst hj
  exact ⟨x, hx, hxe, fun s => (hsites s).trans (mem_attachedMarks_iff_cause hk _)⟩

/-- A retained export with a cause for some site is used. -/
theorem exists_mem_used (h : (analyze d root rules facts resolver).1 = .ok result) {e : Export}
    (he : e ∈ indexExports d facts.exports) {s : Site}
    (hs : Cause d resolver rules (result.context d) facts.imports (indexExports d facts.exports) e s) :
    ∃ x ∈ result.used, x = { e with usedBy := x.usedBy } ∧ ∀ s, s ∈ x.usedBy ↔
      Cause d resolver rules (result.context d) facts.imports (indexExports d facts.exports) e s := by
  obtain ⟨x, hx, hxe, hcause⟩ := exists_mem_result h he
  refine ⟨x, ?_, hxe, hcause⟩
  rcases List.mem_append.mp hx with hx | hx
  · exact hx
  · have hsite := (hcause s).2 hs
    rw [usedBy_eq_nil_of_mem_unused h hx] at hsite
    cases hsite

/-- A name that means an export gives it the site of the import. -/
theorem exists_mem_used_of_means (h : (analyze d root rules facts resolver).1 = .ok result) {i : Import}
    (hi : i ∈ facts.imports) {target : String} (hto : i.destination d resolver = .file target) {n : String}
    (hn : n ∈ i.names) {e : Export} (he : e ∈ indexExports d facts.exports)
    (hmeans : Means (indexExports d facts.exports) target (i.lookupName n) e) :
    ∃ x ∈ result.used, x = { e with usedBy := x.usedBy } ∧ i.site d ∈ x.usedBy := by
  obtain rfl := hmeans.file_eq
  have hsite : Cause d resolver rules (result.context d) facts.imports (indexExports d facts.exports) e (i.site d) :=
    .boundName hi hto hn hmeans
  obtain ⟨x, hx, hxe, hcause⟩ := exists_mem_used h he hsite
  exact ⟨x, hx, hxe, (hcause _).2 hsite⟩

/-- **Every import is accounted for.** -/
theorem analyze_accounts (h : (analyze d root rules facts resolver).1 = .ok result) :
    result.Accounts d root rules facts resolver := by
  obtain ⟨t, n, -, hresult⟩ := exists_of_analyze_eq_ok_bound h
  have hmissing : result.missing = (boundImports d root facts resolver).missing.mergeSort MissingImport.le := by
    rw [hresult]
    rfl
  have herrors : result.errors = sortTexts (boundImports d root facts resolver).errors ++ facts.errors := by
    rw [hresult]
    rfl
  have hreported := reported_bound d root facts resolver
  constructor
  · rw [hmissing]
    exact (List.mergeSort_perm _ _).trans (missing_bound d root facts resolver)
  · rw [hmissing]
    exact pairwise_mergeSort_rank MissingImport.le_iff _
  · intro i hi target hto n hn hmatch
    obtain ⟨e, he, hmeans⟩ := exists_means hmatch
    exact ⟨e, ⟨hmeans, exists_mem_used_of_means h hi hto hn he hmeans⟩, fun e' he' => hmeans.unique he'.1⟩
  · intro x hx
    obtain ⟨j, e, hj, hxe, hsites⟩ := exists_of_mem_result h hx
    exact ⟨e, List.mem_of_getElem? hj, hxe, fun s => (hsites s).trans (mem_attachedMarks_iff_cause hj _)⟩
  · refine ⟨(boundImports d root facts resolver).reported, sortTexts (boundImports d root facts resolver).errors,
      hreported.nodup, hreported.mem, ?_, pairwise_sortTexts _, herrors⟩
    exact (sortTexts_perm _).trans (hreported.errors ▸ List.reverse_perm _)

end Results

/-- An import of two names, one of which the file exports under another name. -/
def savingImport : Import :=
  { file := "/proj/form.ts", reference := "./actions/save", line := 2, names := ["store", "load"],
    aliases := [("store", "save")] }

/-- An import of a name and of the whole module from a file that is not there. -/
def lostImport : Import :=
  { file := "/proj/form.ts", reference := "./lost", line := 3, names := ["find"], namespaceName := some "lost" }

/-- Facts with these imports, the second of them twice, and one of a package. -/
def mixedFacts : ProjectFacts :=
  { exports := [{ name := "save", file := "/proj/actions/save.ts", line := 1 }]
    imports := [savingImport, lostImport, lostImport,
      { file := "/proj/form.ts", reference := "react", line := 1, names := ["useState"] }] }

/-- One name of the first import is missing and the other is attached; the lost file costs two missing names each time
and one error in all; the package costs nothing. -/
theorem analyze_accounts_mixed : ∃ result,
    (analyze savingDisk "/proj" (rulesOf none) mixedFacts (.ofRoot "/proj" {})).1 = .ok result ∧
      result.missing.length = 5 ∧ result.errors.length = 1 ∧
      ∃ x ∈ result.used, x.name = "save" ∧ ⟨"/proj/form.ts", 2⟩ ∈ x.usedBy := by
  obtain ⟨result, h⟩ :=
    (exists_analyze_eq_ok_iff savingDisk "/proj" (rulesOf none) mixedFacts (.ofRoot "/proj" {})).mpr ⟨_, rfl⟩
  have haccounts := analyze_accounts h
  have hsaving : savingImport.destination savingDisk (.ofRoot "/proj" {}) = .file "/proj/actions/save.ts" := by
    decide +kernel
  have hkept : indexExports savingDisk mixedFacts.exports = mixedFacts.exports := by decide +kernel
  refine ⟨result, h, ?_, ?_, ?_⟩
  · rw [haccounts.missing.length_eq]
    decide +kernel
  · obtain ⟨failing, messages, hnodup, hmem, hmessages, -, herrors⟩ := haccounts.errors
    have hpairs : (mixedFacts.imports.filter (·.Fails savingDisk (.ofRoot "/proj" {}))).map
        (fun i => (i.reference, savingDisk.real i.file)) =
          [("./lost", "/proj/form.ts"), ("./lost", "/proj/form.ts")] := by decide +kernel
    have hfailing : failing.Perm [("./lost", "/proj/form.ts")] := by
      rw [List.perm_ext_iff_of_nodup hnodup (List.nodup_singleton _)]
      intro p
      have hp : p ∈ failing ↔ p ∈ (mixedFacts.imports.filter (·.Fails savingDisk (.ofRoot "/proj" {}))).map
          (fun i => (i.reference, savingDisk.real i.file)) := by
        rw [hmem]
        simp only [List.mem_map, List.mem_filter, decide_eq_true_eq, and_assoc, eq_comm (a := p)]
      rw [hp, hpairs]
      simp
    rw [herrors, List.length_append, hmessages.length_eq, List.length_map, hfailing.length_eq]
    rfl
  · obtain ⟨e, ⟨⟨k, -, he⟩, x, hx, hxe, hsite⟩, -⟩ := haccounts.credited savingImport List.mem_cons_self _ hsaving
      "store" List.mem_cons_self (by rw [hkept]; decide +kernel)
    rw [hkept] at he
    obtain rfl := List.mem_singleton.mp (List.mem_of_mem_filter (List.mem_of_getElem? he))
    have hplace : savingImport.site savingDisk = ⟨"/proj/form.ts", 2⟩ := by decide +kernel
    exact ⟨x, hx, by rw [hxe], hplace ▸ hsite⟩

end ExportAudit
