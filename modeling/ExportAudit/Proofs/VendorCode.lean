import Mathlib
import ExportAudit.Proofs.ImportAccounts
import ExportAudit.Proofs.RootedSearch

/-!
# Installed packages

A file that is found for a reference is tested for lying in installed packages by the path that it was found at, and then
given its canonical path. The two agree unless a link is in between:

- a module lies in installed packages exactly when the last link on the way to the file leads there
  (`inVendorDirectory_real_iff_lastLink`);
- a relative reference to a file that is written as one of installed packages is external, and no other is for this
  reason; an alias passes over such files, and fails if it leads to no others;
- nothing that is external is ever listed as missing (`not_isExternal_of_mem_missing`).

`vendor_code_behind_last_link` says so of a new resolver and of an analysis, and `linked_package_resolves` is a module in
installed packages.
-/

namespace ExportAudit

open ExportAudit.FileTree (solid)
open ExportAudit.Path

/-! ## The test and the canonical path -/

section Test

variable {d : Disk} {p : String}

theorem Path.Rooted.inVendorDirectory_iff (h : Rooted p) : inVendorDirectory p = true ↔ vendorDirectory ∈ segments p := by
  rw [inVendorDirectory, List.contains_eq_mem, decide_eq_true_iff, h.mem_segments_normalize (by decide)]

theorem inVendorDirectory_real_iff {place : List String} (hp : isAbsolute p = true)
    (hplace : d.root.realPlace p = .ok place) : inVendorDirectory (d.real p) = true ↔ vendorDirectory ∈ place := by
  have hplain := FileTree.plain_of_realPlace hplace
  rw [← join_of_absolute hp] at hplace
  rw [inVendorDirectory, d.normalize_real, List.contains_eq_mem, decide_eq_true_iff, Disk.real_of_ok hplace,
    segments_slash_append, List.mem_cons, mem_segments_join hplain (by decide)]
  exact or_iff_right (by decide)

theorem Disk.LastLink.isAbsolute {link : String} (h : d.LastLink p link) (hp : Path.isAbsolute p = true) :
    Path.isAbsolute link = true := by
  refine isAbsolute_of_isPrefix hp h.above ?_
  rintro rfl
  obtain ⟨place, target, harrives⟩ := h.isLink
  simp [Disk.resolve] at harrives

/-- **A file found outside of installed packages lies in them exactly when the last link on the way leads there.** -/
theorem inVendorDirectory_real_iff_lastLink (h : Rooted p) (hfile : d.isFile p = true)
    (hout : inVendorDirectory p = false) :
    inVendorDirectory (d.real p) = true ↔ ∃ link, d.LastLink p link ∧ inVendorDirectory (d.real link) = true := by
  obtain ⟨place, node, harrives⟩ : ∃ place node, d.resolve true p = .at place node := by
    unfold Disk.isFile at hfile
    split at hfile
    · exact ⟨_, _, ‹_›⟩
    · cases hfile
  rw [Disk.resolve_of_isAbsolute h.isAbsolute] at harrives
  obtain ⟨n, hn, hpassage, -⟩ := FileTree.exists_passage_of_walkLinks _ harrives
  have hwritten : vendorDirectory ∉ segments p := by
    rw [← h.inVendorDirectory_iff, hout]
    decide
  rcases Disk.realPlace_of_links h.isAbsolute h.tidy hpassage hn with
    ⟨hnone, hreal⟩ | ⟨link, back, past, hlast, hcut, hlink, hreal⟩
  · rw [inVendorDirectory_real_iff h.isAbsolute hreal]
    refine ⟨fun hmem => absurd (List.mem_of_mem_filter hmem) hwritten, ?_⟩
    rintro ⟨link, hlast, -⟩
    exact absurd hlast (hnone link)
  · have hback : vendorDirectory ∉ solid back := fun hmem =>
      hwritten (hcut ▸ List.mem_append_right _ (List.mem_of_mem_filter hmem))
    rw [inVendorDirectory_real_iff h.isAbsolute hreal, List.mem_append, or_iff_left hback,
      ← inVendorDirectory_real_iff (hlast.isAbsolute h.isAbsolute) hlink]
    refine ⟨fun hvendor => ⟨link, hlast, hvendor⟩, ?_⟩
    rintro ⟨other, hother, hvendor⟩
    rwa [hlast.unique hother]

end Test

/-! ## References -/

/-- The file that is found for a reference: the first one beside the importing file, or the one that decides at the first
target of an alias where one does. -/
inductive Found (d : Disk) (config : Option CompilerPaths) (reference file : String) (x : Candidate) : Prop
  | relative (hrelative : isRelative reference = true) (hx : FirstFile d (beside file reference) x)
  | aliased (hrelative : isRelative reference = false) {c : CompilerPaths} (hc : config = some c) {m : AliasMatch}
      (hm : matchAlias? reference (c.paths.map (·.1)) = some m) {before after : List String} {target : String}
      (htargets : c.paths.lookup m.key = some (before ++ target :: after))
      (hbefore : ∀ t ∈ before, ∀ y, ¬ Decides d c.baseUrl m.capture t y) (hx : Decides d c.baseUrl m.capture target x)

/-- How an answer treats installed packages. -/
structure VendorRule (d : Disk) (config : Option CompilerPaths) (reference file : String) (answer : Resolution) :
    Prop where
  /-- A module is found outside of installed packages, and lies in them exactly when the last link on the way leads
  there. -/
  resolved : ∀ p, answer.path? = some p → ∃ x, Found d config reference file x ∧ x.isAsset = false ∧
    inVendorDirectory x.path = false ∧ p = d.real x.path ∧
    (inVendorDirectory p = true ↔ ∃ link, d.LastLink x.path link ∧ inVendorDirectory (d.real link) = true)
  /-- Relative references to files in installed packages are external, and no other references are for this reason. -/
  external : (answer.isExternal = true ∧ ∃ detail, answer.destination = .failure .vendor detail) ↔
    isRelative reference = true ∧ ∃ x, FirstFile d (beside file reference) x ∧ inVendorDirectory x.path = true
  /-- An alias that leads to nothing but files in installed packages fails. -/
  skipped : ∀ c m targets, isRelative reference = false → config = some c →
    matchAlias? reference (c.paths.map (·.1)) = some m → c.paths.lookup m.key = some targets →
    (∀ t ∈ targets, ∀ filled x, Filled m.capture t filled → FirstFile d (Path.normalize (Path.join c.baseUrl filled)) x →
      inVendorDirectory x.path = true) → ∃ detail, answer.destination = .failure .aliasFailed detail

section References

variable {d : Disk} {config : Option CompilerPaths} {reference file : String} {x : Candidate}

theorem FirstFile.rooted {p : String} (h : FirstFile d p x) (hp : Rooted p) : Rooted x.path := by
  obtain ⟨-, before, after, hcandidates, -⟩ := h
  exact hp.of_mem_candidates (hcandidates ▸ List.mem_append_right _ List.mem_cons_self)

/-- What is found is a file at a path from the root, if the importing file and the alias table are given so. -/
theorem Found.rooted (h : Found d config reference file x) (hfile : Path.isAbsolute file = true)
    (hconfig : ∀ c, config = some c → Path.isAbsolute c.baseUrl = true) : Rooted x.path ∧ d.isFile x.path = true := by
  cases h with
  | relative hrelative hx =>
    exact ⟨hx.rooted (rooted_normalize (isAbsolute_join_left (isAbsolute_dirname hfile) reference)), hx.1⟩
  | aliased hrelative hc hm htargets hbefore hx =>
    obtain ⟨filled, -, hfirst, -⟩ := hx
    exact ⟨hfirst.rooted (rooted_normalize (isAbsolute_join_left (hconfig _ hc) filled)), hfirst.1⟩

theorem Resolves.exists_found {strategy : Strategy} {p : String}
    (h : Resolves d config reference file strategy (.ok p)) : ∃ x, Found d config reference file x ∧ x.isAsset = false ∧
      inVendorDirectory x.path = false ∧ p = d.real x.path := by
  cases h with
  | found hrelative hx hvendor hasset => exact ⟨_, .relative hrelative hx, hasset, hvendor, rfl⟩
  | aliased hrelative hc hm htargets hbefore hx hasset =>
    obtain ⟨filled, hfilled, hfirst, hvendor⟩ := hx
    exact ⟨_, .aliased hrelative hc hm htargets hbefore ⟨filled, hfilled, hfirst, hvendor⟩, hasset, hvendor, rfl⟩

/-- The rule by which references are resolved treats installed packages so. -/
theorem vendorRule_answerUnder (hfile : Path.isAbsolute file = true)
    (hconfig : ∀ c, config = some c → Path.isAbsolute c.baseUrl = true) :
    VendorRule d config reference file (answerUnder d config reference file) where
  resolved p hp := by
    obtain ⟨strategy, verdict, h⟩ := exists_resolves d config reference file
    obtain ⟨destination, hanswer, rfl⟩ := h.answered
    rw [hanswer, Resolution.path?] at hp
    cases destination with
    | failure reason detail => cases hp
    | file path =>
      obtain rfl := Option.some.inj hp
      obtain ⟨x, hfound, hasset, hout, hreal⟩ := h.exists_found
      obtain ⟨hrooted, hisfile⟩ := hfound.rooted hfile hconfig
      exact ⟨x, hfound, hasset, hout, hreal, hreal ▸ inVendorDirectory_real_iff_lastLink hrooted hisfile hout⟩
  external := by
    constructor
    · rintro ⟨-, detail, hdetail⟩
      obtain ⟨strategy, verdict, h⟩ := exists_resolves d config reference file
      obtain ⟨destination, hanswer, rfl⟩ := h.answered
      rw [hanswer] at hdetail
      obtain rfl : destination = .failure .vendor detail := hdetail
      cases h with
      | vendor hrelative hx hvendor => exact ⟨hrelative, _, hx, hvendor⟩
    · rintro ⟨hrelative, x, hx, hvendor⟩
      obtain ⟨detail, hanswer⟩ := answerUnder_of_firstFile config hrelative hx
      rw [if_pos hvendor] at hanswer
      rw [hanswer]
      exact ⟨rfl, detail, rfl⟩
  skipped c m targets hrelative hc hm htargets hvendor := by
    have hnone : ∀ t ∈ targets, ∀ y, ¬ Decides d c.baseUrl m.capture t y := by
      rintro t ht y ⟨filled, hfilled, hfirst, hout⟩
      rw [hvendor t ht filled y hfilled hfirst] at hout
      cases hout
    obtain ⟨detail, hanswer⟩ := answerUnder_of_match d file hrelative hc hm htargets
    rw [resolveTargets_of_none hnone] at hanswer
    rw [hanswer]
    exact ⟨detail, rfl⟩

end References

/-! ## Missing names -/

/-- What an import owes says where it stands, and an external reference owes nothing. -/
theorem Import.of_mem_owed {kept : List Export} {importer : String} {i : Import} {destination : Destination}
    {m : MissingImport} (h : m ∈ i.owed kept importer destination) :
    m.file = importer ∧ m.reference = i.reference ∧
      ∀ reason detail, destination = .failure reason detail → reason.isExternal = false := by
  cases destination with
  | failure reason detail =>
    rw [Import.owed] at h
    split at h
    · cases h
    · rename_i hexternal
      have hinternal : ∀ reason' detail', Destination.failure reason detail = .failure reason' detail' →
          reason'.isExternal = false := by
        rintro _ _ ⟨⟩
        simpa using hexternal
      obtain ⟨name, -, rfl⟩ := List.mem_map.mp h
      exact ⟨rfl, rfl, hinternal⟩
  | file target =>
    have hinternal : ∀ reason detail, Destination.file target = .failure reason detail → reason.isExternal = false := by
      rintro _ _ ⟨⟩
    rw [Import.owed] at h
    obtain ⟨name, -, rfl⟩ := List.mem_map.mp h
    exact ⟨rfl, rfl, hinternal⟩

/-- A name is listed as missing only if the reference that it is imported from is not external. -/
theorem not_isExternal_of_mem_missing {d : Disk} {root : String} {rules : List Rule} {facts : ProjectFacts}
    {resolver : Resolver} {result : AnalysisResult} (h : (analyze d root rules facts resolver).1 = .ok result)
    {m : MissingImport} (hm : m ∈ result.missing) :
    (resolver.reset.resolve d m.reference m.file).1.isExternal = false := by
  obtain ⟨t, n, -, hresult⟩ := exists_of_analyze_eq_ok_bound h
  have hmissing : result.missing = (boundImports d root facts resolver).missing.mergeSort MissingImport.le := by
    rw [hresult]
    rfl
  rw [hmissing, List.mem_mergeSort, (missing_bound d root facts resolver).mem_iff] at hm
  obtain ⟨i, -, howed⟩ := List.mem_flatMap.mp hm
  obtain ⟨hfile, hreference, hinternal⟩ := Import.of_mem_owed howed
  rw [hfile, hreference, Resolution.isExternal]
  split
  · rfl
  · exact hinternal _ _ ‹_›

/-- **Vendor code is found behind links only.** An answer to a reference treats installed packages by the rule, and what an
analysis lists as missing has a reference that is not external. -/
theorem vendor_code_behind_last_link (d : Disk) (root reference file : String)
    (hroot : Path.isAbsolute root = true) (hfile : Path.isAbsolute file = true) :
    VendorRule d ((Resolver.ofRoot root {}).table d) reference file
        ((Resolver.ofRoot root {}).resolve d reference file).1 ∧
      ∀ rules facts result, (analyze d root rules facts (Resolver.ofRoot root {})).1 = .ok result →
        ∀ m ∈ result.missing, ((Resolver.ofRoot root {}).resolve d m.reference m.file).1.isExternal = false := by
  constructor
  · have htable : (({} : ConfigCache).get d (Path.normalize root)).1 = (Resolver.ofRoot root {}).table d :=
      (Resolver.recalls_reset d (Resolver.ofRoot root {})).get_fst
    have hnormal : Path.isAbsolute (Path.normalize (Path.normalize root)) = true :=
      (rooted_normalize (rooted_normalize hroot).isAbsolute).isAbsolute
    rw [resolve_ofRoot, htable]
    exact vendorRule_answerUnder hfile fun c hc => isAbsolute_baseUrl hnormal hc
  · intro rules facts result h m hm
    exact not_isExternal_of_mem_missing h hm

/-- A project with a directory that is a link to an installed package. -/
def packageDisk : Disk :=
  ⟨.directory [("proj", .directory [("a.ts", .file .empty 0), ("lib", .link "node_modules/pkg"),
    ("node_modules", .directory [("pkg", .directory [("index.js", .file .empty 0)])])])], "/proj"⟩

/-- The link is what leads to the file of the package. -/
theorem vendor_code_behind_last_link_package : Path.isAbsolute "/proj" = true ∧ Path.isAbsolute "/proj/a.ts" = true ∧
    ∃ x link, Found packageDisk ((Resolver.ofRoot "/proj" {}).table packageDisk) "./lib" "/proj/a.ts" x ∧
      inVendorDirectory x.path = false ∧ packageDisk.LastLink x.path link ∧
      inVendorDirectory (packageDisk.real link) = true := by
  have hrule := (vendor_code_behind_last_link packageDisk "/proj" "./lib" "/proj/a.ts" (by decide) (by decide)).1
  obtain ⟨x, hfound, -, hout, -, hvendor⟩ := hrule.resolved "/proj/node_modules/pkg/index.js" (by decide +kernel)
  obtain ⟨link, hlast, hlink⟩ := hvendor.mp (by decide +kernel)
  exact ⟨by decide, by decide, x, link, hfound, hout, hlast, hlink⟩

/-- A relative reference through the link is answered with a file of the package. -/
theorem linked_package_resolves :
    ((Resolver.ofRoot "/proj" {}).resolve packageDisk "./lib" "/proj/a.ts").1 =
        ⟨"./lib", "/proj/a.ts", .relative, .file "/proj/node_modules/pkg/index.js"⟩ ∧
      inVendorDirectory "/proj/node_modules/pkg/index.js" = true := by
  decide +kernel

end ExportAudit
