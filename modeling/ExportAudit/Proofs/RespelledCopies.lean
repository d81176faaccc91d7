import Mathlib
import ExportAudit.Proofs.OrderIndependence

/-!
# Copies of facts under other paths

A file may be found under several paths, and then its facts are there several times, told of different paths
(`ProjectFacts.Copies`). An analysis names every file by its canonical path, so a copy becomes the very fact that it is
a copy of, and each kind of fact bears the repetition in its own way:

- an export is retained once for each key (`indexExports_append`);
- a run-time usage goes to the first declaration, never to a copy of it (`UsageTargets.shared_append`,
  `within_append`), and an import that respells another is no new cause (`Cause.of_copies`), so every export settles with
  the same sites (`settledExports_append`);
- copies of interfaces stand next to each other in order, where only the last of a key counts
  (`usedInterfaces_append`);
- errors, edges and files of the graph are told once (`figures_append`); only a missing name is listed again for a copy
  of its import (`mem_missing_append`).

`analyze_append_copies` puts this together.
-/

namespace ExportAudit

/-! ## Facts that stand in files -/

/-- A kind of fact that names the file it stands in and may be told of another path. -/
class Located (α : Type) where
  file : α → String
  relocate : α → String → α
  file_relocate : ∀ a path, file (relocate a path) = path
  relocate_relocate : ∀ a path path', relocate (relocate a path) path' = relocate a path'
  relocate_file : ∀ a, relocate a (file a) = a

instance : Located Export :=
  ⟨(·.file), fun e path => { e with file := path }, fun _ _ => rfl, fun _ _ _ => rfl, fun _ => rfl⟩

instance : Located Import :=
  ⟨(·.file), fun i path => { i with file := path }, fun _ _ => rfl, fun _ _ _ => rfl, fun _ => rfl⟩

instance : Located Interface :=
  ⟨(·.file), fun i path => { i with file := path }, fun _ _ => rfl, fun _ _ _ => rfl, fun _ => rfl⟩

instance : Located TypeReference :=
  ⟨(·.site.file), fun r path => { r with site := ⟨path, r.site.line⟩ }, fun _ _ => rfl, fun _ _ _ => rfl,
    fun _ => rfl⟩

instance : Located Route :=
  ⟨(·.file), fun r path => { r with file := path }, fun _ _ => rfl, fun _ _ _ => rfl, fun _ => rfl⟩

instance : Located Callable :=
  ⟨(·.file), fun c path => { c with file := path }, fun _ _ => rfl, fun _ _ _ => rfl, fun _ => rfl⟩

instance : Located DynamicUsage :=
  ⟨(·.file), fun u path => { u with file := path }, fun _ _ => rfl, fun _ _ _ => rfl, fun _ => rfl⟩

namespace Located

variable {α : Type} [Located α] {d : Disk} {a b : α} {items copies : List α}

/-- A fact and the same one told of another path of its file. -/
def Respells (d : Disk) (a b : α) : Prop :=
  ∃ path, d.real path = d.real (file a) ∧ b = relocate a path

/-- Copies of facts under other paths of their files. -/
def Copies (d : Disk) (items copies : List α) : Prop :=
  ∀ b ∈ copies, ∃ a ∈ items, Respells d a b

/-- A fact told of the canonical path of its file. -/
def canonical (d : Disk) (a : α) : α :=
  relocate a (d.real (file a))

theorem Respells.refl (a : α) : Respells d a a :=
  ⟨file a, rfl, (relocate_file a).symm⟩

/-- By its canonical path a fact is the one it respells. -/
theorem Respells.canonical_eq (h : Respells d a b) : canonical d b = canonical d a := by
  obtain ⟨path, hpath, rfl⟩ := h
  rw [canonical, canonical, file_relocate, relocate_relocate, hpath]

theorem Copies.append (h : Copies d items copies) : Copies d items (items ++ copies) := by
  intro b hb
  rcases List.mem_append.mp hb with hb | hb
  · exact ⟨b, hb, .refl b⟩
  · exact h b hb

theorem Copies.canonical_subset (h : Copies d items copies) :
    copies.map (canonical d) ⊆ items.map (canonical d) := by
  intro x hx
  obtain ⟨b, hb, rfl⟩ := List.mem_map.mp hx
  obtain ⟨a, ha, hab⟩ := h b hb
  exact List.mem_map.mpr ⟨a, ha, hab.canonical_eq.symm⟩

theorem Copies.mem_canonical_append_iff (h : Copies d items copies) :
    a ∈ (items ++ copies).map (canonical d) ↔ a ∈ items.map (canonical d) := by
  rw [List.map_append, List.mem_append]
  exact ⟨fun ha => ha.elim id fun ha => h.canonical_subset ha, Or.inl⟩

theorem copies_map_relocate {path : String} (h : ∀ a ∈ items, d.real path = d.real (file a)) :
    Copies d items (items.map (relocate · path)) := by
  intro b hb
  obtain ⟨a, ha, rfl⟩ := List.mem_map.mp hb
  exact ⟨a, ha, path, h a ha, rfl⟩

/-- What does not tell a fact from one that respells it is found among copies only if it is found without them. -/
theorem Copies.exists_mem_append_iff (h : Copies d items copies) {p : α → Prop}
    (hp : ∀ {a b}, Respells d a b → (p b ↔ p a)) : (∃ a ∈ items ++ copies, p a) ↔ ∃ a ∈ items, p a := by
  constructor
  · rintro ⟨b, hb, hpb⟩
    obtain ⟨a, ha, hab⟩ := h.append b hb
    exact ⟨a, ha, (hp hab).1 hpb⟩
  · rintro ⟨a, ha, hpa⟩
    exact ⟨a, List.mem_append_left _ ha, hpa⟩

end Located

open Located

/-- The facts of a project with those of another collection behind them. -/
def ProjectFacts.append (facts more : ProjectFacts) : ProjectFacts :=
  { exports := facts.exports ++ more.exports
    imports := facts.imports ++ more.imports
    interfaces := facts.interfaces ++ more.interfaces
    typeReferences := facts.typeReferences ++ more.typeReferences
    routes := facts.routes ++ more.routes
    actions := facts.actions ++ more.actions
    hooks := facts.hooks ++ more.hooks
    usages := facts.usages ++ more.usages
    errors := facts.errors ++ more.errors
    fileCount := facts.fileCount + more.fileCount }

/-- A collection holds nothing but copies of the facts of a project under other paths of their files. -/
structure ProjectFacts.Copies (d : Disk) (facts copies : ProjectFacts) : Prop where
  exports : Located.Copies d facts.exports copies.exports
  imports : Located.Copies d facts.imports copies.imports
  interfaces : Located.Copies d facts.interfaces copies.interfaces
  typeReferences : Located.Copies d facts.typeReferences copies.typeReferences
  routes : Located.Copies d facts.routes copies.routes
  actions : Located.Copies d facts.actions copies.actions
  hooks : Located.Copies d facts.hooks copies.hooks
  usages : Located.Copies d facts.usages copies.usages
  errors : copies.errors = []

/-! ## Retained exports -/

section Retained

variable {d : Disk} {facts copies : ProjectFacts}

/-- Items whose keys are there already are not retained. -/
theorem firstByKey_append {α : Type} {key : α → String} {items more : List α}
    (h : ∀ a ∈ more, key a ∈ items.map key) : firstByKey key (items ++ more) = firstByKey key items := by
  induction more using List.reverseRecOn with
  | nil => rw [List.append_nil]
  | append_singleton more a ih =>
    have hmore := ih fun b hb => h b (List.mem_append_left _ hb)
    have hkey : key a ∈ (firstByKey key items).map key := mem_keys_firstByKey.2 (h a (by simp))
    rw [← List.append_assoc, firstByKey_concat, hmore, if_pos hkey]

theorem indexExports_append (h : facts.Copies d copies) :
    indexExports d (facts.append copies).exports = indexExports d facts.exports := by
  unfold indexExports ProjectFacts.append
  rw [List.map_append, firstByKey_append]
  exact fun e he => List.mem_map_of_mem (h.exports.canonical_subset he)

end Retained

/-! ## Declarations -/

section Declarations

variable {d : Disk} {root : String} {rules : List Rule} {facts copies : ProjectFacts} {resolver : Resolver}
  {result result' : AnalysisResult}

/-- The first item of a class is not among items that repeat others. -/
theorem findIdx?_append_of_subset {α : Type} {items more : List α} (h : more ⊆ items) (p : α → Bool) :
    (items ++ more).findIdx? p = items.findIdx? p := by
  rw [List.findIdx?_append]
  cases hfirst : items.findIdx? p with
  | some i => rfl
  | none =>
    have hnone : more.findIdx? p = none := by
      rw [List.findIdx?_eq_none_iff] at hfirst ⊢
      exact fun a ha => hfirst a (h ha)
    rw [hnone]
    rfl

theorem findIdx?_lt {α : Type} {items : List α} {p : α → Bool} {i : Nat} (h : items.findIdx? p = some i) :
    i < items.length :=
  (List.findIdx?_eq_some_iff_getElem.mp h).1

/-- Declarations that stand among others as they are. -/
structure UsageTargets.Repeats (t more : UsageTargets) : Prop where
  routes : more.routes ⊆ t.routes
  hooks : more.hooks ⊆ t.hooks
  actions : more.actions ⊆ t.actions

/-- Declarations with others behind them. -/
def UsageTargets.append (t more : UsageTargets) : UsageTargets :=
  { routes := t.routes ++ more.routes
    hooks := t.hooks ++ more.hooks
    actions := t.actions ++ more.actions }

theorem goesToRoute_append {routes more : List Route} (h : more ⊆ routes) :
    UsageTargets.goesToRoute (routes ++ more) = UsageTargets.goesToRoute routes := by
  funext i u
  unfold UsageTargets.goesToRoute matchRoute?
  simp only [findIdx?_append_of_subset h]

theorem goesToHook_append {hooks more : List Hook} (h : more ⊆ hooks) :
    UsageTargets.goesToHook (hooks ++ more) = UsageTargets.goesToHook hooks := by
  funext i u
  unfold UsageTargets.goesToHook matchName?
  rw [findIdx?_append_of_subset h]

theorem goesToAction_append {actions more : List ServerAction} (h : more ⊆ actions) :
    UsageTargets.goesToAction (actions ++ more) = UsageTargets.goesToAction actions := by
  funext i u
  unfold UsageTargets.goesToAction matchName?
  rw [findIdx?_append_of_subset h]

theorem goesToRoute_idle (routes : List Route) (i : Nat) (u : DynamicUsage) :
    UsageTargets.goesToRoute routes (i + routes.length) u = false := by
  unfold UsageTargets.goesToRoute matchRoute?
  cases Url.targetPath u.target with
  | error fault => simp [bind, Except.bind]
  | ok path =>
    cases hfirst : routes.findIdx? (·.meets path) with
    | none => simp [bind, Except.bind, pure, Except.pure, hfirst]
    | some k =>
      have hlt := findIdx?_lt hfirst
      simp [bind, Except.bind, pure, Except.pure, hfirst]
      omega

theorem matchName?_idle (declared : List Callable) (i : Nat) (name : String) :
    (matchName? declared name == some (i + declared.length)) = false := by
  rw [beq_eq_false_iff_ne]
  intro h
  have hlt := findIdx?_lt h
  omega

/-- Declarations that repeat others get no usages. -/
theorem UsageTargets.shared_append {t more : UsageTargets} (h : t.Repeats more) (us : List DynamicUsage) :
    (t.append more).shared us = (t.shared us).append more := by
  unfold UsageTargets.append UsageTargets.shared
  simp only
  rw [goesToRoute_append h.routes, goesToHook_append h.hooks, goesToAction_append h.actions,
    share_append_idle Route.addUsages_nil us (goesToRoute_idle _),
    share_append_idle Callable.addUsages_nil us (fun i u => by rw [goesToHook, matchName?_idle, Bool.and_false]),
    share_append_idle Callable.addUsages_nil us (fun i u => by rw [goesToAction, matchName?_idle, Bool.and_false])]

theorem usageTargets_append (d : Disk) (facts more : ProjectFacts) :
    usageTargets d (facts.append more) = (usageTargets d facts).append (usageTargets d more) := by
  unfold usageTargets ProjectFacts.append UsageTargets.append
  simp only [List.map_append]

theorem usageTargets_repeats (h : facts.Copies d copies) : (usageTargets d facts).Repeats (usageTargets d copies) :=
  ⟨h.routes.canonical_subset, h.hooks.canonical_subset, h.actions.canonical_subset⟩

theorem mem_canonicalUsages_append (h : facts.Copies d copies) (u : DynamicUsage) :
    u ∈ canonicalUsages d (facts.append copies) ↔ u ∈ canonicalUsages d facts :=
  h.usages.mem_canonical_append_iff

section Gains

variable {α : Type} {add : α → List DynamicUsage → α} {goes : Nat → DynamicUsage → Bool} {us us' : List DynamicUsage}
  {items more : List α}

theorem gains_share_append (hsub : us ⊆ us') :
    Gains add (share goes add us items) (share goes add us' items ++ more) := by
  intro a ha
  obtain ⟨item, got, got', rfl, hmem, hgot⟩ := gains_share hsub items a ha
  exact ⟨item, got, got', rfl, List.mem_append_left _ hmem, hgot⟩

/-- A declaration that repeats another has only the usages that both came with. -/
theorem gains_of_append (hadd : ∀ a, add a [] = a) (hsub : us' ⊆ us) (hmore : more ⊆ items) :
    Gains add (share goes add us' items ++ more) (share goes add us items) := by
  intro a ha
  rcases List.mem_append.mp ha with ha | ha
  · exact gains_share hsub items a ha
  · obtain ⟨got, hmem⟩ := exists_mem_share us (hmore ha)
    exact ⟨a, [], got, (hadd a).symm, hmem, List.nil_subset _⟩

end Gains

/-- The declarations have the same usages with copies as without. -/
theorem within_append (hc : facts.Copies d copies) (h : (analyze d root rules facts resolver).1 = .ok result)
    (h' : (analyze d root rules (facts.append copies) resolver).1 = .ok result') :
    (result.context d).Within (result'.context d) ∧ (result'.context d).Within (result.context d) := by
  have hrepeats := usageTargets_repeats hc
  have hsub : canonicalUsages d facts ⊆ canonicalUsages d (facts.append copies) :=
    fun u => (mem_canonicalUsages_append hc u).2
  have hsub' : canonicalUsages d (facts.append copies) ⊆ canonicalUsages d facts :=
    fun u => (mem_canonicalUsages_append hc u).1
  rw [context_result h, context_result h', usageTargets_append, UsageTargets.shared_append hrepeats]
  exact ⟨LivenessContext.within_of_gains rfl rfl (gains_share_append hsub) (gains_share_append hsub)
      (gains_share_append hsub),
    LivenessContext.within_of_gains rfl rfl (gains_of_append Route.addUsages_nil hsub' hrepeats.routes)
      (gains_of_append Callable.addUsages_nil hsub' hrepeats.actions)
      (gains_of_append Callable.addUsages_nil hsub' hrepeats.hooks)⟩

/-- An analysis returns with copies if it does without. -/
theorem exists_analyze_append_eq_ok (hc : facts.Copies d copies)
    (h : (analyze d root rules facts resolver).1 = .ok result) :
    ∃ result', (analyze d root rules (facts.append copies) resolver).1 = .ok result' := by
  have hattach := (exists_analyze_eq_ok_iff d root rules facts resolver).1 ⟨result, h⟩
  rw [exists_attach_eq_ok_iff] at hattach
  rw [exists_analyze_eq_ok_iff, exists_attach_eq_ok_iff]
  exact fun u hu => hattach u ((mem_canonicalUsages_append hc u).1 hu)

end Declarations

/-! ## Imports -/

section Imports

variable {d : Disk} {resolver : Resolver} {i i' : Import}

theorem Located.Respells.site_eq (h : Respells d i i') : i'.site d = i.site d := by
  obtain ⟨path, hpath, rfl⟩ := h
  exact congrArg (Site.mk · i.line) hpath

theorem Located.Respells.real_eq (h : Respells d i i') : d.real i'.file = d.real i.file :=
  congrArg Site.file h.site_eq

theorem Located.Respells.reference_eq (h : Respells d i i') : i'.reference = i.reference := by
  obtain ⟨path, -, rfl⟩ := h
  rfl

/-- An import that respells another has the same reference in the same file, so it leads to the same place. -/
theorem Located.Respells.destination_eq (h : Respells d i i') :
    i'.destination d resolver = i.destination d resolver := by
  rw [Import.destination, Import.destination, h.reference_eq, h.real_eq]

theorem Located.Respells.fails_iff (h : Respells d i i') :
    i'.Fails d resolver ↔ i.Fails d resolver := by
  unfold Import.Fails
  rw [h.destination_eq]

theorem Located.Respells.owed_eq (h : Respells d i i') (kept : List Export) (importer : String)
    (place : Destination) : i'.owed kept importer place = i.owed kept importer place := by
  obtain ⟨path, -, rfl⟩ := h
  cases place <;> rfl

end Imports

/-! ## Sites -/

section Sites

variable {d : Disk} {rules : List Rule} {facts copies : ProjectFacts} {resolver : Resolver} {c c' : LivenessContext}

/-- Copies of imports are no new causes. -/
theorem Cause.of_copies {imports copied : List Import} {kept : List Export} {e : Export} {s : Site}
    (hcopies : Located.Copies d imports copied) (h : Cause d resolver rules c copied kept e s) :
    Cause d resolver rules c imports kept e s := by
  cases h with
  | carried h => exact .carried h
  | wholeModule hi hfile hname =>
    obtain ⟨i, horiginal, hrespells⟩ := hcopies _ hi
    rw [hrespells.site_eq]
    refine .wholeModule horiginal (hrespells.destination_eq.symm.trans hfile) ?_
    obtain ⟨path, -, rfl⟩ := hrespells
    exact hname
  | boundName hi hfile hbound hmeans =>
    obtain ⟨i, horiginal, hrespells⟩ := hcopies _ hi
    rw [hrespells.site_eq]
    have hleads : i.LeadsTo d resolver e.file := hrespells.destination_eq.symm.trans hfile
    obtain ⟨path, -, rfl⟩ := hrespells
    exact .boundName horiginal hleads hbound hmeans
  | convention hr hcovers => exact .convention hr hcovers
  | handed hr hhands => exact .handed hr hhands

/-- Every retained export is settled with the same sites. -/
theorem settledExports_append (hc : facts.Copies d copies) (hin : c.Within c') (hout : c'.Within c) :
    settledExports d rules (facts.append copies) resolver c' = settledExports d rules facts resolver c := by
  have hkept := indexExports_append hc
  rw [settledExports_eq_map, settledExports_eq_map, hkept]
  refine List.map_congr_left fun e he => Export.settle_addUsages fun s => ?_
  rw [mem_sites_iff_cause he, mem_sites_iff_cause (by rw [hkept]; exact he), hkept]
  constructor
  · intro h
    exact (h.of_copies hc.imports.append).mono (List.Subset.refl _) hout (AgreeByFile.refl _)
  · exact .mono (List.subset_append_left _ _) hin (AgreeByFile.refl _)

end Sites

/-! ## Interfaces -/

section Repetition

variable {α β γ : Type} [DecidableEq α] [LinearOrder γ] {rank : α → γ} {f : β → α → β} {l l' : List α}

/-- A fold that takes an item twice in a row as once takes a list in order without its repetitions. -/
theorem foldl_dedup_of_pairwise (hf : ∀ z a, f (f z a) a = f z a) (hl : l.Pairwise fun a b => rank a ≤ rank b)
    (hrank : ∀ a ∈ l, ∀ b ∈ l, rank a = rank b → a = b) (z : β) : l.dedup.foldl f z = l.foldl f z := by
  induction l generalizing z with
  | nil => rfl
  | cons a l ih =>
    obtain ⟨hfirst, hrest⟩ := List.pairwise_cons.mp hl
    have htail := ih hrest fun b hb c hc => hrank b (List.mem_cons_of_mem _ hb) c (List.mem_cons_of_mem _ hc)
    by_cases ha : a ∈ l
    · -- An item that comes again comes again at once: nothing in between could stand in order.
      obtain ⟨b, rest, rfl⟩ := List.exists_cons_of_ne_nil (List.ne_nil_of_mem ha)
      have hb : a = b := by
        refine hrank a List.mem_cons_self b (by simp) (le_antisymm (hfirst b List.mem_cons_self) ?_)
        rcases List.mem_cons.mp ha with rfl | hmem
        · exact le_rfl
        · exact List.rel_of_pairwise_cons hrest hmem
      subst hb
      rw [List.dedup_cons_of_mem ha, htail, List.foldl_cons, List.foldl_cons, List.foldl_cons, hf]
    · rw [List.dedup_cons_of_notMem ha, List.foldl_cons, List.foldl_cons, htail]

/-- Such a fold depends on the set of items only. -/
theorem foldl_eq_of_mem_iff (hf : ∀ z a, f (f z a) a = f z a) (hl : l.Pairwise fun a b => rank a ≤ rank b)
    (hl' : l'.Pairwise fun a b => rank a ≤ rank b) (hmem : ∀ a, a ∈ l ↔ a ∈ l')
    (hrank : ∀ a ∈ l, ∀ b ∈ l, rank a = rank b → a = b) (z : β) : l.foldl f z = l'.foldl f z := by
  have hrank' : ∀ a ∈ l', ∀ b ∈ l', rank a = rank b → a = b :=
    fun a ha b hb => hrank a ((hmem a).2 ha) b ((hmem b).2 hb)
  have hperm : l.dedup.Perm l'.dedup := by
    rw [List.perm_ext_iff_of_nodup (List.nodup_dedup l) (List.nodup_dedup l')]
    exact fun a => by rw [List.mem_dedup, List.mem_dedup, hmem]
  have hdedup : l.dedup = l'.dedup := by
    refine hperm.eq_of_pairwise ?_ (hl.sublist (List.dedup_sublist l)) (hl'.sublist (List.dedup_sublist l'))
    intro a b ha hb hab hba
    exact hrank a (List.mem_dedup.mp ha) b ((hmem b).2 (List.mem_dedup.mp hb)) (le_antisymm hab hba)
  rw [← foldl_dedup_of_pairwise hf hl hrank, hdedup, foldl_dedup_of_pairwise hf hl' hrank']

end Repetition

section Interfaces

variable {d : Disk} {facts copies : ProjectFacts}

theorem putByKey_putByKey {α : Type} (key : α → String) (a : α) (kept : List α) :
    putByKey key a (putByKey key a kept) = putByKey key a kept := by
  induction kept with
  | nil => simp [putByKey]
  | cons b rest ih =>
    by_cases hkey : key b = key a
    · simp [putByKey, hkey]
    · simp [putByKey, hkey, ih]

/-- Where an interface stands in a list: by name, then by file, then by line. -/
def Interface.rank (i : Interface) : String ×ₗ String ×ₗ Nat :=
  toLex (i.name, toLex (i.file, i.line))

theorem Interface.le_iff (a b : Interface) : Interface.le a b = true ↔ a.rank ≤ b.rank := by
  refine thenLe_iff_toLex Interface.name (fun i => toLex (i.file, i.line)) ?_ a b
  exact thenLe_iff_toLex Interface.file Interface.line fun _ _ => decide_eq_true_iff

/-- An interface with the references to its name, in order. -/
def Interface.counted (references : List TypeReference) (i : Interface) : Interface :=
  { i.attach references with usedBy := (i.attach references).usedBy.mergeSort Site.le }

theorem Interface.rank_counted (references : List TypeReference) (i : Interface) :
    (i.counted references).rank = i.rank := rfl

/-- Interfaces that carry nothing yet are told apart by name, file and line. -/
theorem Interface.eq_of_rank_eq {i j : Interface} (hi : i.usedBy = []) (hj : j.usedBy = []) (h : i.rank = j.rank) :
    i = j := by
  cases i
  cases j
  simp_all [Interface.rank]

theorem usedInterfaces_eq_foldl : usedInterfaces d facts =
    (((facts.interfaces.map (canonical d)).map (Interface.counted (facts.typeReferences.map (canonical d)))).mergeSort
      Interface.le).foldl (fun kept i => putByKey Interface.key i kept) [] := by
  unfold usedInterfaces lastByKey
  simp only [fst_attachReferences, List.map_map]
  rfl

/-- The same interfaces come out, with the same references. -/
theorem usedInterfaces_append (hfresh : ∀ i ∈ facts.interfaces, i.usedBy = []) (h : facts.Copies d copies) :
    usedInterfaces d (facts.append copies) = usedInterfaces d facts := by
  have hreferences (r : TypeReference) : r ∈ (facts.append copies).typeReferences.map (canonical d) ↔
      r ∈ facts.typeReferences.map (canonical d) := h.typeReferences.mem_canonical_append_iff
  have hcounted : Interface.counted ((facts.append copies).typeReferences.map (canonical d)) =
      Interface.counted (facts.typeReferences.map (canonical d)) := by
    funext i
    exact congrArg (fun sites => { i with usedBy := sites }) (Interface.sites_attach_eq hreferences i)
  have hdeclared (i : Interface) : i ∈ (facts.append copies).interfaces.map (canonical d) ↔
      i ∈ facts.interfaces.map (canonical d) := h.interfaces.mem_canonical_append_iff
  have hempty (i : Interface) (hi : i ∈ facts.interfaces.map (canonical d)) : i.usedBy = [] := by
    obtain ⟨j, hj, rfl⟩ := List.mem_map.mp hi
    exact hfresh j hj
  rw [usedInterfaces_eq_foldl, usedInterfaces_eq_foldl, hcounted]
  refine foldl_eq_of_mem_iff (fun kept i => putByKey_putByKey Interface.key i kept)
    (pairwise_mergeSort_rank Interface.le_iff _) (pairwise_mergeSort_rank Interface.le_iff _) (fun i => ?_) ?_ []
  · simp only [List.mem_mergeSort, List.mem_map (f := Interface.counted _), hdeclared]
  · intro i hi j hj hrank
    rw [List.mem_mergeSort, List.mem_map] at hi hj
    obtain ⟨i, hi, rfl⟩ := hi
    obtain ⟨j, hj, rfl⟩ := hj
    rw [Interface.rank_counted, Interface.rank_counted] at hrank
    rw [hdeclared] at hi hj
    rw [Interface.eq_of_rank_eq (hempty i hi) (hempty j hj) hrank]

end Interfaces

/-! ## Errors, missing names and figures -/

section Findings

variable {d : Disk} {root : String} {facts copies : ProjectFacts} {resolver : Resolver}

/-- The same references fail in the same files. -/
theorem failing_append (h : facts.Copies d copies) (p : String × String) :
    (∃ i ∈ facts.imports, i.Fails d resolver ∧ p = (i.reference, d.real i.file)) ↔
      ∃ i ∈ (facts.append copies).imports, i.Fails d resolver ∧ p = (i.reference, d.real i.file) := by
  refine (h.imports.exists_mem_append_iff fun hrespells => ?_).symm
  rw [hrespells.fails_iff, hrespells.reference_eq, hrespells.real_eq]

/-- The same names are missing, some of them perhaps more often. -/
theorem mem_missing_append (h : facts.Copies d copies) (m : MissingImport) :
    m ∈ (boundImports d root (facts.append copies) resolver).missing ↔
      m ∈ (boundImports d root facts resolver).missing := by
  rw [(missing_bound d root (facts.append copies) resolver).mem_iff, (missing_bound d root facts resolver).mem_iff,
    indexExports_append h, List.mem_flatMap, List.mem_flatMap]
  refine h.imports.exists_mem_append_iff fun hrespells => ?_
  rw [hrespells.owed_eq, hrespells.real_eq, hrespells.destination_eq]

/-- The graphs have as many files, edges and files that nothing imports. -/
theorem figures_append (h : facts.Copies d copies) :
    (boundImports d root (facts.append copies) resolver).graph.files.length =
        (boundImports d root facts resolver).graph.files.length ∧
      (boundImports d root (facts.append copies) resolver).graph.edges.length =
        (boundImports d root facts resolver).graph.edges.length ∧
      (boundImports d root (facts.append copies) resolver).graph.unimported.length =
        (boundImports d root facts resolver).graph.unimported.length := by
  refine ImportGraph.figures_eq (proper_bound d root facts resolver) (proper_bound d root (facts.append copies) resolver)
    (fun f => ?_) fun p => ?_
  · rw [mem_files_bound, mem_files_bound, indexExports_append h]
    refine or_congr_right (h.imports.exists_mem_append_iff fun hrespells => ?_)
    rw [hrespells.real_eq, hrespells.destination_eq]
  · rw [mem_pairs_bound, mem_pairs_bound]
    refine h.imports.exists_mem_append_iff fun hrespells => ?_
    rw [hrespells.real_eq, hrespells.destination_eq]

end Findings

/-! ## Results -/

/-- Two results agree but for how often a missing name is listed. -/
structure AnalysisResult.AgreesUpToRepeats (result result' : AnalysisResult) : Prop where
  used : result'.used = result.used
  unused : result'.unused = result.unused
  interfaces : result'.interfaces = result.interfaces
  errors : result'.errors = result.errors
  missing : ∀ m, m ∈ result'.missing ↔ m ∈ result.missing
  figures : ∃ s s', result.figures = some s ∧ result'.figures = some s' ∧ s'.files = s.files ∧ s'.edges = s.edges ∧
    s'.unimported = s.unimported

/-- **Copies under other paths change nothing.** If no interface of a project carries a reference yet and an analysis
returns a result, then with copies of its facts under other paths of their files it returns one too, and the two agree
but for how often a missing name is listed. -/
theorem analyze_append_copies {d : Disk} {root : String} {rules : List Rule} {facts copies : ProjectFacts}
    {resolver : Resolver} {result : AnalysisResult} (hfresh : ∀ i ∈ facts.interfaces, i.usedBy = [])
    (hc : facts.Copies d copies) (h : (analyze d root rules facts resolver).1 = .ok result) :
    ∃ result', (analyze d root rules (facts.append copies) resolver).1 = .ok result' ∧
      result.AgreesUpToRepeats result' := by
  obtain ⟨result', h'⟩ := exists_analyze_append_eq_ok hc h
  obtain ⟨hin, hout⟩ := within_append hc h h'
  obtain ⟨hused, hunused⟩ := result_settled h
  obtain ⟨hused', hunused'⟩ := result_settled h'
  obtain ⟨t, n, -, hresult⟩ := exists_of_analyze_eq_ok_bound h
  obtain ⟨t', n', -, hresult'⟩ := exists_of_analyze_eq_ok_bound h'
  refine ⟨result', h', ?_, ?_, ?_, ?_, ?_, ?_⟩
  · rw [hused, hused', settledExports_append hc hin hout]
  · rw [hunused, hunused', settledExports_append hc hin hout]
  · rw [hresult, hresult']
    exact usedInterfaces_append hfresh hc
  · rw [hresult, hresult']
    refine congrArg₂ (· ++ ·) (sortTexts_errors_eq (failing_append hc)).symm ?_
    rw [ProjectFacts.append, hc.errors, List.append_nil]
  · intro m
    rw [hresult, hresult']
    unfold conclude
    rw [List.mem_mergeSort, List.mem_mergeSort, mem_missing_append hc]
  · rw [hresult, hresult']
    exact ⟨_, _, rfl, rfl, figures_append hc⟩

/-- Facts of every kind that stand in one file. -/
def soleFacts : ProjectFacts :=
  { exports := [{ name := "x", file := "/proj/a.ts", line := 1 }]
    imports := [{ file := "/proj/a.ts", reference := "./lost", line := 2, names := ["y"] }]
    interfaces := [{ name := "X", file := "/proj/a.ts", line := 3 }]
    typeReferences := [⟨"X", ⟨"/proj/a.ts", 4⟩⟩]
    routes := [{ path := "/x", file := "/proj/a.ts" }]
    actions := [{ name := "x", file := "/proj/a.ts", line := 1 }]
    hooks := [{ name := "useX", file := "/proj/a.ts", line := 5 }]
    usages := [{ kind := .actionCall, target := "x", file := "/proj/a.ts", line := 6 }] }

/-- The same facts, told of the link to the file. -/
def soleCopies : ProjectFacts :=
  { exports := soleFacts.exports.map (relocate · "/proj/copy.ts")
    imports := soleFacts.imports.map (relocate · "/proj/copy.ts")
    interfaces := soleFacts.interfaces.map (relocate · "/proj/copy.ts")
    typeReferences := soleFacts.typeReferences.map (relocate · "/proj/copy.ts")
    routes := soleFacts.routes.map (relocate · "/proj/copy.ts")
    actions := soleFacts.actions.map (relocate · "/proj/copy.ts")
    hooks := soleFacts.hooks.map (relocate · "/proj/copy.ts")
    usages := soleFacts.usages.map (relocate · "/proj/copy.ts") }

theorem soleFacts_copies : soleFacts.Copies linkedDisk soleCopies := by
  have hlink : linkedDisk.real "/proj/copy.ts" = linkedDisk.real "/proj/a.ts" := by decide +kernel
  have hsole {α : Type} [Located α] (a : α) (ha : file a = "/proj/a.ts") :
      Located.Copies linkedDisk [a] ([a].map (relocate · "/proj/copy.ts")) :=
    copies_map_relocate fun b hb => by rw [List.mem_singleton.mp hb, ha, hlink]
  exact ⟨hsole _ rfl, hsole _ rfl, hsole _ rfl, hsole _ rfl, hsole _ rfl, hsole _ rfl, hsole _ rfl, hsole _ rfl, rfl⟩

/-- Seen through the link a second time, the file yields the same result. -/
theorem analyze_append_copies_sole : ∃ result result',
    (analyze linkedDisk "/proj" (rulesOf none) soleFacts (.ofRoot "/proj" {})).1 = .ok result ∧
      (analyze linkedDisk "/proj" (rulesOf none) (soleFacts.append soleCopies) (.ofRoot "/proj" {})).1 = .ok result' ∧
      soleFacts ≠ soleFacts.append soleCopies ∧ result.AgreesUpToRepeats result' := by
  have hfresh : ∀ i ∈ soleFacts.interfaces, i.usedBy = [] := by decide
  obtain ⟨result, h⟩ :=
    (exists_analyze_eq_ok_iff linkedDisk "/proj" (rulesOf none) soleFacts (.ofRoot "/proj" {})).mpr ⟨_, rfl⟩
  obtain ⟨result', h', hagrees⟩ := analyze_append_copies hfresh soleFacts_copies h
  exact ⟨result, result', h, h', by decide, hagrees⟩

end ExportAudit
