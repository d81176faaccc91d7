import Mathlib
import ExportAudit.Proofs.Classification
import ExportAudit.Proofs.Settling
import ExportAudit.Proofs.UsageShares

/-!
# More evidence

A cause for a usage remains one when there are more imports, when declarations have more usages
(`LivenessContext.Within`), and when the exports of each file stand elsewhere among those of other files
(`AgreeByFile`): `Cause.mono`. Declarations have more usages when a project has more run-time usages
(`within_of_usages`).
-/

namespace ExportAudit

/-! ## Exports by file -/

section Files

variable {kept kept' : List Export} {file name : String} {e : Export}

/-- Two lists of exports have the same exports of every file, in the same order. -/
def AgreeByFile (kept kept' : List Export) : Prop :=
  ∀ file, kept.filter (·.file == file) = kept'.filter (·.file == file)

theorem AgreeByFile.refl (kept : List Export) : AgreeByFile kept kept := fun _ => rfl

theorem AgreeByFile.symm (h : AgreeByFile kept kept') : AgreeByFile kept' kept :=
  fun file => (h file).symm

theorem AgreeByFile.mem_iff (h : AgreeByFile kept kept') : e ∈ kept ↔ e ∈ kept' := by
  simpa using congrArg (e ∈ ·) (h e.file)

theorem AgreeByFile.means (h : AgreeByFile kept kept') (hmeans : Means kept file name e) :
    Means kept' file name e := by
  unfold Means at hmeans ⊢
  rw [← h file]
  exact hmeans

theorem find?_filter_file (p : Export → Bool) :
    (kept.filter (·.file == file)).find? p = kept.find? fun e => e.file == file && p e := by
  simp [List.find?_filter, Bool.beq_eq_decide_eq]

/-- The export that the name of a declaration means, as a search among the exports of its file. -/
theorem finds_iff : Finds kept file name e ↔
    ((kept.filter (·.file == Path.normalize file)).find? (fun e => !e.isDefault && e.name == name)).or
      ((kept.filter (·.file == Path.normalize file)).find? fun e => e.isDefault && e.localName == some name) =
        some e := by
  rw [find?_filter_file, find?_filter_file, List.find?_eq_bind_findIdx?_getElem?,
    List.find?_eq_bind_findIdx?_getElem?]
  simp only [← Bool.and_assoc]
  unfold Finds findExport?
  simp only
  cases hfirst : kept.findIdx? fun e => e.file == Path.normalize file && !e.isDefault && e.name == name with
  | some k =>
    obtain ⟨hlt, -⟩ := List.findIdx?_eq_some_iff_getElem.mp hfirst
    simp [List.getElem?_eq_getElem hlt]
  | none => simp [Option.bind_eq_some_iff]

theorem AgreeByFile.finds (h : AgreeByFile kept kept') (hfinds : Finds kept file name e) :
    Finds kept' file name e := by
  rw [finds_iff] at hfinds ⊢
  rw [← h]
  exact hfinds

theorem AgreeByFile.hands (h : AgreeByFile kept kept') {r : Route} {u : DynamicUsage} (hhands : r.Hands kept u e) :
    r.Hands kept' u e :=
  ⟨hhands.1, hhands.2.imp_right fun hnone other hother => hnone other (h.mem_iff.2 hother)⟩

end Files

/-! ## Declarations with more usages -/

/-- Whatever is declared in one context is declared in another, with all its usages. -/
structure LivenessContext.Within (c c' : LivenessContext) : Prop where
  cwd : c'.cwd = c.cwd
  root : c'.root = c.root
  routes : ∀ r ∈ c.routes, ∃ more, { r with usedBy := more } ∈ c'.routes ∧ r.usedBy ⊆ more
  actions : ∀ a ∈ c.actions, ∃ more, { a with usedBy := more } ∈ c'.actions ∧ a.usedBy ⊆ more
  hooks : ∀ h ∈ c.hooks, ∃ more, { h with usedBy := more } ∈ c'.hooks ∧ h.usedBy ⊆ more

section Rules

variable {c c' : LivenessContext} {kept kept' : List Export} {e : Export} {s : Site}

theorem LivenessContext.Within.parts (h : c.Within c') (file : String) : c'.parts file = c.parts file := by
  unfold LivenessContext.parts
  rw [h.cwd, h.root]

theorem Route.HandledBy.withUsages {r : Route} (h : r.HandledBy e) (more : List DynamicUsage) :
    Route.HandledBy { r with usedBy := more } e :=
  ⟨h.file, h.named, h.method, h.listed⟩

theorem Route.Hands.withUsages {r : Route} {u : DynamicUsage} (h : r.Hands kept u e) (more : List DynamicUsage) :
    Route.Hands kept { r with usedBy := more } u e :=
  ⟨h.1.withUsages more, h.2.imp_right fun hnone other hother hhandled =>
    hnone other hother (hhandled.withUsages r.usedBy)⟩

theorem Rule.Covers.mono (hc : c.Within c') (hkept : AgreeByFile kept kept') {r : Rule} (h : r.Covers c kept e) :
    r.Covers c' kept' e := by
  cases r with
  | routeHandlers =>
    obtain ⟨r, hr, hhandled⟩ := h
    obtain ⟨more, hmore, -⟩ := hc.routes r hr
    exact ⟨_, hmore, hhandled.withUsages more⟩
  | serverActions =>
    obtain ⟨a, ha, hfinds⟩ := h
    obtain ⟨more, hmore, -⟩ := hc.actions a ha
    exact ⟨_, hmore, hkept.finds hfinds⟩
  | hookUsage => exact h
  | pageComponents | specialExports | actionsDirectory | middleware =>
    simpa only [Rule.Covers, hc.parts] using h

theorem Rule.HandsOn.mono (hc : c.Within c') (hkept : AgreeByFile kept kept') {r : Rule} (h : r.HandsOn c kept e s) :
    r.HandsOn c' kept' e s := by
  cases r with
  | routeHandlers =>
    obtain ⟨r, hr, u, hu, hhands, hs⟩ := h
    obtain ⟨more, hmore, hsub⟩ := hc.routes r hr
    exact ⟨_, hmore, u, hsub hu, (hkept.hands hhands).withUsages more, hs⟩
  | serverActions =>
    obtain ⟨a, ha, u, hu, hfinds, hs⟩ := h
    obtain ⟨more, hmore, hsub⟩ := hc.actions a ha
    exact ⟨_, hmore, u, hsub hu, hkept.finds hfinds, hs⟩
  | hookUsage =>
    obtain ⟨k, hk, u, hu, hfinds, hs⟩ := h
    obtain ⟨more, hmore, hsub⟩ := hc.hooks k hk
    exact ⟨_, hmore, u, hsub hu, hkept.finds hfinds, hs⟩
  | pageComponents | specialExports | actionsDirectory | middleware => exact h

end Rules

/-- Declarations that gain usages stay within the context. -/
theorem LivenessContext.within_of_gains {c c' : LivenessContext} (hcwd : c'.cwd = c.cwd) (hroot : c'.root = c.root)
    (hroutes : Gains Route.addUsages c.routes c'.routes) (hactions : Gains Callable.addUsages c.actions c'.actions)
    (hhooks : Gains Callable.addUsages c.hooks c'.hooks) : c.Within c' := by
  have hgrow {own more more' : List DynamicUsage} (hmore : more ⊆ more') : own ++ more ⊆ own ++ more' :=
    List.append_subset.mpr ⟨List.subset_append_left _ _, List.subset_append_of_subset_right _ hmore⟩
  refine ⟨hcwd, hroot, fun r hr => ?_, fun a ha => ?_, fun k hk => ?_⟩
  · obtain ⟨item, more, more', rfl, hmem, hmore⟩ := hroutes r hr
    exact ⟨item.usedBy ++ more', hmem, hgrow hmore⟩
  · obtain ⟨item, more, more', rfl, hmem, hmore⟩ := hactions a ha
    exact ⟨item.usedBy ++ more', hmem, hgrow hmore⟩
  · obtain ⟨item, more, more', rfl, hmem, hmore⟩ := hhooks k hk
    exact ⟨item.usedBy ++ more', hmem, hgrow hmore⟩

/-- The context of a result: the declarations of the project with the usages that go to them. -/
theorem context_result {d : Disk} {root : String} {rules : List Rule} {facts : ProjectFacts} {resolver : Resolver}
    {result : AnalysisResult} (h : (analyze d root rules facts resolver).1 = .ok result) :
    let t := (usageTargets d facts).shared (canonicalUsages d facts)
    result.context d = { cwd := d.cwd, root := root, routes := t.routes, actions := t.actions, hooks := t.hooks } := by
  obtain ⟨n, hattach⟩ := attach_result h
  have hshared := UsageTargets.attach_eq_shared hattach
  simp only
  rw [← hshared, AnalysisResult.context, root_result h]

/-- The declarations of a project with more run-time usages have more usages. -/
theorem within_of_usages {d : Disk} {root : String} {rules rules' : List Rule} {facts facts' : ProjectFacts}
    {resolver : Resolver} {result result' : AnalysisResult} (htargets : usageTargets d facts = usageTargets d facts')
    (husages : canonicalUsages d facts ⊆ canonicalUsages d facts')
    (h : (analyze d root rules facts resolver).1 = .ok result)
    (h' : (analyze d root rules' facts' resolver).1 = .ok result') :
    (result.context d).Within (result'.context d) := by
  rw [context_result h, context_result h', ← htargets]
  exact LivenessContext.within_of_gains rfl rfl (gains_share husages _) (gains_share husages _) (gains_share husages _)

/-- **More evidence does not remove a cause.** -/
theorem Cause.mono {d : Disk} {resolver : Resolver} {rules : List Rule} {c c' : LivenessContext}
    {imports imports' : List Import} {kept kept' : List Export} {e : Export} {s : Site}
    (himports : imports ⊆ imports') (hc : c.Within c') (hkept : AgreeByFile kept kept')
    (h : Cause d resolver rules c imports kept e s) : Cause d resolver rules c' imports' kept' e s := by
  cases h with
  | carried h => exact .carried h
  | wholeModule hi hfile hname => exact .wholeModule (himports hi) hfile hname
  | boundName hi hfile hbound hmeans => exact .boundName (himports hi) hfile hbound (hkept.means hmeans)
  | convention hr hcovers => exact .convention hr (hcovers.mono hc hkept)
  | handed hr hhands => exact .handed hr (hhands.mono hc hkept)

end ExportAudit
