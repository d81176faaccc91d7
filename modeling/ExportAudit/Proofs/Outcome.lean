import Mathlib
import ExportAudit.Proofs.Attachment
import ExportAudit.Proofs.ResolverMemory

/-!
# What an analysis makes of the exports

- The exports that an analysis retains are the first of each key (`exists_of_mem_firstByKey`), so no two have the same key
  (`nodup_keys_indexExports`).
- The imports of a project attach to them what each import attaches by itself (`exports_bindImports`): what the
  resolver remembers from earlier imports does not show.
- The used and the unused exports of a result are the retained ones with all attached sites, divided and put in order
  (`result_exports`, `keys_result_perm`); `exists_of_mem_result` follows one export through.
-/

namespace ExportAudit

/-! ## The first of each key -/

section FirstByKey

variable {α : Type} {key : α → String} {items : List α} {a b : α}

/-- Every item is kept with its own key. -/
theorem foldl_keepFirst (key : α → String) (items : List α) :
    (items.map fun a => (key a, a)).foldl keepFirst [] = (firstByKey key items).map fun a => (key a, a) := by
  have hkeys : ∀ p ∈ (items.map fun a => (key a, a)).foldl keepFirst [], (key p.2, p.2) = p := by
    induction items using List.reverseRecOn with
    | nil => intro p hp; cases hp
    | append_singleton items a ih =>
      intro p hp
      rw [List.map_append, List.foldl_append, List.map_singleton, List.foldl_cons, List.foldl_nil, keepFirst] at hp
      split at hp
      · exact ih p hp
      · rcases List.mem_append.mp hp with hp | hp
        · exact ih p hp
        · rw [List.mem_singleton.mp hp]
  rw [firstByKey, List.map_map]
  exact ((List.map_congr_left hkeys).trans (List.map_id _)).symm

/-- One more item is kept unless its key is there. -/
theorem firstByKey_concat (key : α → String) (items : List α) (a : α) :
    firstByKey key (items ++ [a]) =
      if key a ∈ (firstByKey key items).map key then firstByKey key items else firstByKey key items ++ [a] := by
  rw [firstByKey, List.map_append, List.foldl_append, foldl_keepFirst, List.map_singleton, List.foldl_cons,
    List.foldl_nil, keepFirst]
  have hany : ((firstByKey key items).map fun a => (key a, a)).any (·.1 == key a) = true ↔
      key a ∈ (firstByKey key items).map key := by
    simp [List.any_eq_true]
  by_cases h : key a ∈ (firstByKey key items).map key
  · rw [if_pos (hany.2 h), if_pos h]
    simp [Function.comp_def]
  · rw [if_neg (mt hany.1 h), if_neg h]
    simp [Function.comp_def]

theorem nodup_keys_firstByKey (key : α → String) (items : List α) : ((firstByKey key items).map key).Nodup := by
  induction items using List.reverseRecOn with
  | nil => exact List.nodup_nil
  | append_singleton items a ih =>
    rw [firstByKey_concat]
    split
    · exact ih
    · rename_i h
      rw [List.map_append, List.map_singleton]
      exact ih.append (List.nodup_singleton _) (by simpa using h)

/-- The keys that are kept are all keys. -/
theorem mem_keys_firstByKey {k : String} : k ∈ (firstByKey key items).map key ↔ k ∈ items.map key := by
  induction items using List.reverseRecOn with
  | nil => rfl
  | append_singleton items a ih =>
    rw [firstByKey_concat, List.map_append, List.mem_append, List.map_singleton, List.mem_singleton, ← ih]
    split
    · rename_i h
      exact ⟨Or.inl, fun hk => hk.elim id fun e => e ▸ h⟩
    · rw [List.map_append, List.mem_append, List.map_singleton, List.mem_singleton]

/-- What is kept has no item of its key before it. -/
theorem exists_of_mem_firstByKey (h : a ∈ firstByKey key items) :
    ∃ before after, items = before ++ a :: after ∧ ∀ b ∈ before, key b ≠ key a := by
  induction items using List.reverseRecOn with
  | nil => cases h
  | append_singleton items b ih =>
    have hold (h : a ∈ firstByKey key items) :
        ∃ before after, items ++ [b] = before ++ a :: after ∧ ∀ b ∈ before, key b ≠ key a := by
      obtain ⟨before, after, rfl, hfirst⟩ := ih h
      exact ⟨before, after ++ [b], by simp, hfirst⟩
    rw [firstByKey_concat] at h
    split at h
    · exact hold h
    · rename_i hnew
      rcases List.mem_append.mp h with h | h
      · exact hold h
      · rw [List.mem_singleton] at h
        subst h
        refine ⟨items, [], rfl, fun c hc hkey => hnew ?_⟩
        rw [mem_keys_firstByKey, ← hkey]
        exact List.mem_map_of_mem hc

end FirstByKey

/-! ## Retained exports -/

section Retained

variable {d : Disk} {exports : List Export} {e e' : Export} {i j : Nat}

theorem nodup_keys_indexExports (d : Disk) (exports : List Export) : ((indexExports d exports).map Export.key).Nodup :=
  nodup_keys_firstByKey _ _

/-- The position of a retained export is determined by its key. -/
theorem position_eq_of_key_eq (hi : (indexExports d exports)[i]? = some e) (hj : (indexExports d exports)[j]? = some e')
    (hkey : e.key = e'.key) : i = j := by
  have hlt : i < ((indexExports d exports).map Export.key).length := by
    rw [List.length_map]
    exact (List.getElem?_eq_some_iff.mp hi).1
  apply (List.getElem?_inj hlt (nodup_keys_indexExports d exports)).mp
  rw [List.getElem?_map, List.getElem?_map, hi, hj, Option.map_some, Option.map_some, hkey]

/-- A retained export is a fact with its canonical file, the first of its key. -/
theorem exists_of_mem_indexExports (h : e ∈ indexExports d exports) :
    ∃ before fact after, exports = before ++ fact :: after ∧ e = { fact with file := d.real fact.file } ∧
      ∀ b ∈ before, exportKey (d.real b.file) b.name b.isDefault ≠ e.key := by
  obtain ⟨before, after, hsplit, hfirst⟩ := exists_of_mem_firstByKey h
  obtain ⟨before', rest, rfl, hbefore, hrest⟩ := List.map_eq_append_iff.mp hsplit
  obtain ⟨fact, after', rfl, hfact, -⟩ := List.map_eq_cons_iff.mp hrest
  refine ⟨before', fact, after', rfl, hfact.symm, fun b hb => ?_⟩
  exact hfirst { b with file := d.real b.file } (hbefore ▸ List.mem_map_of_mem hb)

theorem mem_keys_indexExports {k : String} : k ∈ (indexExports d exports).map Export.key ↔
    ∃ e ∈ exports, exportKey (d.real e.file) e.name e.isDefault = k := by
  rw [indexExports, mem_keys_firstByKey, List.map_map, List.mem_map]
  rfl

end Retained

/-! ## Imports -/

section Imports

variable {d : Disk} {root : String}

/-- What an import attaches, by where its reference leads. -/
def resolvedMarks (d : Disk) (resolver : Resolver) (i : Import) (es : List Export) : List (Nat × Site) :=
  match (resolver.answer d i.reference (d.real i.file)).destination with
  | .file target => importMarks target ⟨d.real i.file, i.line⟩ i es
  | .failure _ _ => []

theorem resolvedMarks_attachAll (resolver : Resolver) (i : Import) (es : List Export) (ps : List (Nat × Site)) :
    resolvedMarks d resolver i (attachAll es ps) = resolvedMarks d resolver i es := by
  unfold resolvedMarks
  split
  · exact (attaches_bindImport _ _ i).blind es ps
  · rfl

theorem exports_add (resolver : Resolver) (i : Import) (b : Bindings) :
    (b.add d root (d.real i.file) i (resolver.answer d i.reference (d.real i.file))).exports =
      attachAll b.exports (resolvedMarks d resolver i b.exports) := by
  unfold Bindings.add resolvedMarks
  cases h : (resolver.answer d i.reference (d.real i.file)).destination with
  | file target => exact (attaches_bindImport _ _ i).eq b.exports
  | failure reason detail =>
    simp only
    split <;> rfl

/-- The imports of a project attach what each of them attaches by itself. -/
theorem exports_bindImports (imports : List Import) (b : Bindings) {r : Resolver} (hr : r.Recalls d) :
    (bindImports d root imports b r).1.exports =
      attachAll b.exports (imports.flatMap (resolvedMarks d r · b.exports)) := by
  induction imports generalizing b r with
  | nil => rfl
  | cons i imports ih =>
    have hfile := d.normalize_real i.file
    have hroot := Resolver.answer_congr (d := d) (r.root_resolve d i.reference (d.real i.file))
    have hmarks : resolvedMarks d (r.resolve d i.reference (d.real i.file)).2 = resolvedMarks d r := by
      unfold resolvedMarks
      rw [hroot]
    rw [bindImports]
    simp only
    rw [ih _ (hr.resolve hfile), hmarks, hr.resolve_eq_answer hfile, exports_add, List.flatMap_cons, attachAll_append]
    simp only [resolvedMarks_attachAll]

end Imports

/-! ## Results -/

section Results

variable {d : Disk} {root : String} {rules : List Rule} {facts : ProjectFacts} {resolver : Resolver}
  {result : AnalysisResult}

/-- What the rules of an analysis saw besides the exports. -/
def AnalysisResult.context (d : Disk) (r : AnalysisResult) : LivenessContext :=
  { cwd := d.cwd, root := r.root, routes := r.routes, actions := r.actions, hooks := r.hooks }

/-- All that an analysis attaches to the exports it retains. -/
def attachedMarks (d : Disk) (rules : List Rule) (facts : ProjectFacts) (resolver : Resolver) (c : LivenessContext) :
    List (Nat × Site) :=
  facts.imports.flatMap (resolvedMarks d resolver · (indexExports d facts.exports)) ++
    rules.flatMap (Rule.marks c · (indexExports d facts.exports))

/-- The exports of an analysis before they are divided. -/
def markedExports (d : Disk) (rules : List Rule) (facts : ProjectFacts) (resolver : Resolver) (c : LivenessContext) :
    List Export :=
  attachAll (indexExports d facts.exports) (attachedMarks d rules facts resolver c)

/-- The run-time usages of a project by their canonical files. -/
def canonicalUsages (d : Disk) (facts : ProjectFacts) : List DynamicUsage :=
  facts.usages.map fun u => { u with file := d.real u.file }

/-- An analysis that succeeds has attached all run-time usages, and its result is drawn from them. -/
theorem exists_of_analyze_eq_ok (h : (analyze d root rules facts resolver).1 = .ok result) :
    ∃ b t n, b.exports = attachAll (indexExports d facts.exports)
        (facts.imports.flatMap (resolvedMarks d resolver · (indexExports d facts.exports))) ∧
      (usageTargets d facts).attach (canonicalUsages d facts) = .ok (t, n) ∧
      result = conclude d root rules facts b t (canonicalUsages d facts) := by
  unfold analyze at h
  simp only at h
  rw [← canonicalUsages] at h
  cases hattach : (usageTargets d facts).attach (canonicalUsages d facts) with
  | error fault => rw [hattach] at h; cases h
  | ok found =>
    rw [hattach] at h
    refine ⟨_, found.1, found.2, ?_, rfl, (Except.ok.inj h).symm⟩
    exact exports_bindImports facts.imports _ (Resolver.recalls_reset d resolver)

/-- An analysis succeeds exactly when its run-time usages can be attached. -/
theorem exists_analyze_eq_ok_iff (d : Disk) (root : String) (rules : List Rule) (facts : ProjectFacts)
    (resolver : Resolver) : (∃ result, (analyze d root rules facts resolver).1 = .ok result) ↔
      ∃ found, (usageTargets d facts).attach (canonicalUsages d facts) = .ok found := by
  constructor
  · rintro ⟨result, h⟩
    obtain ⟨-, t, n, -, hattach, -⟩ := exists_of_analyze_eq_ok h
    exact ⟨_, hattach⟩
  · rintro ⟨found, hattach⟩
    unfold analyze
    simp only
    rw [← canonicalUsages, hattach]
    exact ⟨_, rfl⟩

/-- Rules applied after the imports are bound give the marked exports. -/
theorem applyRules_eq_markedExports {b : Bindings} (c : LivenessContext)
    (hb : b.exports = attachAll (indexExports d facts.exports)
      (facts.imports.flatMap (resolvedMarks d resolver · (indexExports d facts.exports)))) :
    (applyRules c rules b.exports).1 = markedExports d rules facts resolver c := by
  rw [(attaches_rules c rules).eq, hb, (attaches_rules c rules).blind, ← attachAll_append]
  rfl

theorem root_result (h : (analyze d root rules facts resolver).1 = .ok result) : result.root = root := by
  obtain ⟨b, t, n, -, -, rfl⟩ := exists_of_analyze_eq_ok h
  rfl

/-- The exports of a result are the marked ones, divided and put in order. -/
theorem result_exports (h : (analyze d root rules facts resolver).1 = .ok result) :
    result.used = (((markedExports d rules facts resolver (result.context d)).filter Export.isUsed).mergeSort
        Export.usedLe).map (fun e => { e with usedBy := e.usedBy.mergeSort Site.frameworkLe }) ∧
      result.unused = ((markedExports d rules facts resolver (result.context d)).filter (!·.isUsed)).mergeSort
        Export.unusedLe := by
  obtain ⟨b, t, n, hb, -, rfl⟩ := exists_of_analyze_eq_ok h
  rw [← applyRules_eq_markedExports _ hb]
  exact ⟨rfl, rfl⟩

/-- **Neither loss nor duplication**: the keys of a result are those of the retained exports. -/
theorem keys_result_perm (h : (analyze d root rules facts resolver).1 = .ok result) :
    ((result.used ++ result.unused).map Export.key).Perm ((indexExports d facts.exports).map Export.key) := by
  obtain ⟨hused, hunused⟩ := result_exports h
  have hkeys : (markedExports d rules facts resolver (result.context d)).map Export.key =
      (indexExports d facts.exports).map Export.key := map_attachAll fun _ _ => rfl
  rw [← hkeys, hused, hunused, List.map_append, List.map_map]
  refine List.Perm.trans ?_ ((List.filter_append_perm Export.isUsed _).map Export.key)
  rw [List.map_append]
  exact ((List.mergeSort_perm _ _).map Export.key).append ((List.mergeSort_perm _ _).map Export.key)

/-- The retained export behind an export of a result, and the sites that it got. -/
theorem exists_of_mem_result (h : (analyze d root rules facts resolver).1 = .ok result) {x : Export}
    (hx : x ∈ result.used ++ result.unused) :
    ∃ i e, (indexExports d facts.exports)[i]? = some e ∧ x = { e with usedBy := x.usedBy } ∧
      ∀ s, s ∈ x.usedBy ↔ s ∈ e.usedBy ∨ (i, s) ∈ attachedMarks d rules facts resolver (result.context d) := by
  obtain ⟨hused, hunused⟩ := result_exports h
  have hmarked : ∃ y ∈ markedExports d rules facts resolver (result.context d),
      x = { y with usedBy := x.usedBy } ∧ ∀ s, s ∈ x.usedBy ↔ s ∈ y.usedBy := by
    rcases List.mem_append.mp hx with hx | hx
    · rw [hused] at hx
      obtain ⟨y, hy, rfl⟩ := List.mem_map.mp hx
      rw [List.mem_mergeSort] at hy
      exact ⟨y, List.mem_of_mem_filter hy, rfl, fun s => List.mem_mergeSort⟩
    · rw [hunused, List.mem_mergeSort] at hx
      exact ⟨x, List.mem_of_mem_filter hx, rfl, fun s => Iff.rfl⟩
  obtain ⟨y, hy, hxy, hsites⟩ := hmarked
  obtain ⟨i, hi⟩ := List.getElem?_of_mem hy
  rw [markedExports, getElem?_attachAll] at hi
  obtain ⟨e, he, rfl⟩ := Option.map_eq_some_iff.mp hi
  refine ⟨i, e, he, ?_, fun s => ?_⟩
  · rw [Export.addUsages_eq] at hxy
    exact hxy
  · rw [hsites, Export.mem_usedBy_addUsages, mem_sitesAt]

end Results

end ExportAudit
