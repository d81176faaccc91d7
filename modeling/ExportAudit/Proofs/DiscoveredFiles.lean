import Mathlib
import ExportAudit.Proofs.Cutting
import ExportAudit.Proofs.EntriesBelow
import ExportAudit.Proofs.GraphHistory

/-!
# Which files are discovered

A project has the source files that its root leads to through directories that are not excluded (`SourceBelow`). They
are found, each once and in order, unless there are too many of them or one of them is refused (`findFiles_exact`).

- The walk of a directory finds the source files among its entries and those of the directories that it enters
  (`filesBelow_perm`), in whatever order the entries stand; hence exactly the source files below it (`mem_filesBelow`),
  without repetition (`nodup_filesBelow`).
- To count the files after every directory is to count them at the end (`gatherFiles_cons`).
- The fixed exclusions are among those that apply, whatever is configured (`baseExcludes_subset`).
-/

namespace ExportAudit

open ExportAudit.Path

/-! ## Exclusions -/

/-- A directory is excluded: its name is, or its path from the root, with every backslash read as a slash, is an
exclusion of several segments or lies below one. -/
def Excluded (excludes above : List String) (dir : String) : Prop :=
  dir ∈ excludes ∨ ∃ folder ∈ excludes, '/' ∈ folder.toList ∧
    (Text.replaceChar '\\' '/' (Text.join "/" (above ++ [dir])) = folder ∨
      ∃ rest, Text.replaceChar '\\' '/' (Text.join "/" (above ++ [dir])) = folder ++ "/" ++ rest)

theorem isExcluded_iff {excludes above : List String} {dir : String} :
    isExcluded (Text.join "/" (above ++ [dir])) dir excludes = true ↔ Excluded excludes above dir := by
  unfold isExcluded Excluded
  simp only [Bool.or_eq_true, List.contains_iff_mem, List.any_eq_true, Bool.and_eq_true, beq_iff_eq, startsWith_iff,
    Text.hasChar]

theorem mem_foldl_merge {f : String} (folders merged : List String) :
    f ∈ folders.foldl
        (fun merged folder => if folder.isEmpty || merged.contains folder then merged else merged ++ [folder]) merged ↔
      f ∈ merged ∨ f ≠ "" ∧ f ∈ folders := by
  induction folders generalizing merged with
  | nil => simp
  | cons folder folders ih =>
    rw [List.foldl_cons, ih, List.mem_cons]
    by_cases h : folder = "" ∨ folder ∈ merged
    · rw [if_pos (by simpa using h)]
      grind
    · rw [if_neg (by simpa using h)]
      grind

/-- The fixed exclusions always apply. -/
theorem baseExcludes_subset (configured : List String) : baseExcludes ⊆ combinedExcludes configured := by
  intro folder hfolder
  have hclean : ∀ folder ∈ baseExcludes, cleanExclude folder = folder ∧ folder ≠ "" := by decide
  rw [combinedExcludes, mem_foldl_merge]
  refine Or.inr ⟨(hclean folder hfolder).2, List.mem_map.mpr ⟨folder, ?_, (hclean folder hfolder).1⟩⟩
  exact List.mem_append_left _ hfolder

/-! ## The walk -/

section Walk

variable {d : Disk} {excludes : List String} {place path : String} {es : List (String × FileTree)}

/-- The files of the walk of a directory, given by its entries. -/
def filesBelow (d : Disk) (excludes : List String) (place path : String) (es : List (String × FileTree)) :
    List String :=
  (es.filterMap (sourceFile? d place) :: inOrder (walksBelow d excludes place path es)).flatten

/-- The files that the walk of a directory finds at one of its entries. -/
def filesAt (d : Disk) (excludes : List String) (place path : String) (e : String × FileTree) : List String :=
  (sourceFile? d place e).toList ++ (walkOf d excludes place path e).elim [] fun walk => walk.2.flatten

theorem walksBelow_eq (d : Disk) (excludes : List String) (place path : String) (es : List (String × FileTree)) :
    walksBelow d excludes place path es = es.filterMap (walkOf d excludes place path) := by
  induction es with
  | nil => rw [walksBelow, List.filterMap_nil]
  | cons e es ih =>
    rw [walksBelow, ih, List.filterMap_cons]
    cases walkOf d excludes place path e <;> rfl

/-- The walk finds what is to be found at each entry. -/
theorem filesBelow_perm (d : Disk) (excludes : List String) (place path : String) (es : List (String × FileTree)) :
    (filesBelow d excludes place path es).Perm (es.flatMap (filesAt d excludes place path)) := by
  have hentries : ((es.filterMap (walkOf d excludes place path)).flatMap (·.2)).flatten =
      es.flatMap fun e => (walkOf d excludes place path e).elim [] fun walk => walk.2.flatten := by
    induction es with
    | nil => rfl
    | cons e es ih =>
      rw [List.filterMap_cons, List.flatMap_cons, ← ih]
      cases walkOf d excludes place path e with
      | none => rfl
      | some walk => rw [List.flatMap_cons, List.flatten_append, Option.elim_some]
  have hwalks : (inOrder (walksBelow d excludes place path es)).flatten.Perm
      (es.flatMap fun e => (walkOf d excludes place path e).elim [] fun walk => walk.2.flatten) := by
    rw [← hentries, ← walksBelow_eq]
    exact ((List.mergeSort_perm _ _).flatMap_right _).flatten
  rw [filesBelow, List.flatten_cons, List.filterMap_eq_flatMap_toList]
  exact (hwalks.append_left _).trans (List.flatMap_append_perm es _ _)

theorem filesAt_directory (d : Disk) (excludes : List String) (place path name : String)
    (es : List (String × FileTree)) :
    filesAt d excludes place path (name, .directory es) =
      if isExcluded (below path name) name excludes then []
      else filesBelow d excludes (join place name) (below path name) es := by
  rw [filesAt, walkOf, sourceFile?]
  split <;> rfl

theorem filesAt_of_ne {t : FileTree} {name : String} (h : ∀ es, t ≠ .directory es) :
    filesAt d excludes place path (name, t) = (sourceFile? d place (name, t)).toList := by
  cases t with
  | directory es => exact absurd rfl (h es)
  | file content modified => rw [filesAt, walkOf, Option.elim_none, List.append_nil]; simp
  | link target => rw [filesAt, walkOf, Option.elim_none, List.append_nil]; simp

end Walk

/-! ## The source files below a directory -/

/-- From the entries `es` of a directory, itself reached from the root by the names `above`, directories named `dirs`
and then `name` lead to a source file. Links are not entered, but a link to a file is a file. -/
structure SourceBelow (d : Disk) (root : String) (excludes above : List String) (es : List (String × FileTree))
    (dirs : List String) (name : String) : Prop where
  there : ((FileTree.directory es).get? (dirs ++ [name])).isSome = true
  noDirectory : d.isDirectory (descend root (above ++ (dirs ++ [name]))) = false
  extension : ∃ extension ∈ [".ts", ".tsx", ".js", ".jsx"], ∃ stem, name = stem ++ extension
  included : ∀ front dir, front ++ [dir] <+: dirs → ¬ Excluded excludes (above ++ front) dir

/-- A directory of a sound tree that names lead to from the root of a project. -/
structure Reached (d : Disk) (root : String) (above : List String) (es : List (String × FileTree)) : Prop where
  resolves : ∃ place, d.resolve true (descend root above) = .at place (.directory es)
  sound : (FileTree.directory es).Sound
  plain : ∀ s ∈ above, Plain s

theorem isSourceName_iff {name : String} :
    isSourceName name = true ↔ ∃ extension ∈ [".ts", ".tsx", ".js", ".jsx"], ∃ stem, name = stem ++ extension := by
  rw [isSourceName, List.any_eq_true]
  simp only [endsWith_iff, sourceExtensions]

/-- An induction over directories: each step may use the directories among the entries. -/
theorem entries_induction {motive : List (String × FileTree) → Prop}
    (h : ∀ es, (∀ name es', (name, .directory es') ∈ es → motive es') → motive es) (es : List (String × FileTree)) :
    motive es :=
  h es fun _ es' _hmem => entries_induction h es'
termination_by sizeOf es
decreasing_by
  have hsize := List.sizeOf_lt_of_mem _hmem
  simp only [Prod.mk.sizeOf_spec, FileTree.directory.sizeOf_spec] at hsize
  omega

section Below

variable {d : Disk} {root : String} {excludes above : List String} {es : List (String × FileTree)} {name : String}
  {t : FileTree}

theorem Reached.distinct (h : Reached d root above es) : (es.map (·.1)).Nodup := by
  cases h.sound with
  | directory hdistinct => exact hdistinct

theorem Reached.plain_of_mem (h : Reached d root above es) (hmem : (name, t) ∈ es) : Plain name := by
  cases h.sound with
  | directory _ hplain => exact hplain _ hmem

/-- The directories among the entries are reached by one more name. -/
theorem Reached.enter {es' : List (String × FileTree)} (h : Reached d root above es)
    (hmem : (name, .directory es') ∈ es) :
    Reached d root (above ++ [name]) es' := by
  have hname := h.plain_of_mem hmem
  obtain ⟨place, hresolves⟩ := h.resolves
  refine ⟨⟨place ++ [name], ?_⟩, ?_, ?_⟩
  · rw [descend_concat]
    exact Disk.resolve_join hresolves hname ((FileTree.lookup_eq_some_iff_mem h.distinct).mpr hmem) (by simp)
  · cases h.sound with
    | directory _ _ hbelow => exact hbelow _ hmem
  · rw [List.forall_mem_append, List.forall_mem_singleton]
    exact ⟨h.plain, hname⟩

/-- An entry leads to a directory exactly if it is one, or a link to one. -/
theorem Reached.isDirectory_iff (h : Reached d root above es) (hmem : (name, t) ∈ es)
    (ht : ∀ target, t ≠ .link target) :
    d.isDirectory (join (descend root above) name) = true ↔ ∃ es', t = .directory es' := by
  obtain ⟨place, hresolves⟩ := h.resolves
  exact Disk.isDirectory_of_resolve
    (Disk.resolve_join hresolves (h.plain_of_mem hmem) ((FileTree.lookup_eq_some_iff_mem h.distinct).mpr hmem) ht)

theorem sourceFile?_eq_some_iff (h : Reached d root above es) (hmem : (name, t) ∈ es) {p : String} :
    sourceFile? d (descend root above) (name, t) = some p ↔
      d.isDirectory (join (descend root above) name) = false ∧ isSourceName name = true ∧
        p = join (descend root above) name := by
  cases t with
  | directory es' =>
    have hdirectory := (h.isDirectory_iff hmem (by simp)).mpr ⟨es', rfl⟩
    simp [sourceFile?, hdirectory]
  | file content modified =>
    have hfile : d.isDirectory (join (descend root above) name) = false := by
      rw [← Bool.not_eq_true, h.isDirectory_iff hmem (by simp)]
      simp
    rw [sourceFile?, hfile]
    by_cases hsource : isSourceName name = true
    · simp only [hsource, if_true, Option.some.injEq, true_and]
      exact eq_comm
    · simp [hsource]
  | link target =>
    rw [sourceFile?]
    by_cases hsource : isSourceName name = true
    · cases hdirectory : d.isDirectory (join (descend root above) name) with
      | true => simp
      | false =>
        simp only [hsource, Bool.not_false, Bool.and_true, if_true, Option.some.injEq, true_and]
        exact eq_comm
    · simp [hsource]

/-! ## What the walk finds -/

theorem sourceBelow_nil : SourceBelow d root excludes above es [] name ↔
    (∃ t, es.lookup name = some t) ∧ d.isDirectory (join (descend root above) name) = false ∧
      isSourceName name = true := by
  rw [isSourceName_iff, ← descend_concat, ← Option.isSome_iff_exists]
  have hget : (FileTree.directory es).get? ([] ++ [name]) = es.lookup name := by
    rw [List.nil_append, FileTree.get?]
    cases es.lookup name <;> rfl
  constructor
  · intro h
    exact ⟨hget ▸ h.there, h.noDirectory, h.extension⟩
  · rintro ⟨hthere, hfile, hextension⟩
    exact ⟨hget ▸ hthere, hfile, hextension, by simp⟩

theorem sourceBelow_cons {dir : String} {dirs : List String} : SourceBelow d root excludes above es (dir :: dirs) name ↔
    ¬ Excluded excludes above dir ∧ ∃ es', es.lookup dir = some (.directory es') ∧
      SourceBelow d root excludes (above ++ [dir]) es' dirs name := by
  have hway : above ++ (dir :: dirs ++ [name]) = above ++ [dir] ++ (dirs ++ [name]) := by simp
  constructor
  · rintro ⟨hthere, hfile, hextension, hincluded⟩
    rw [List.cons_append, FileTree.get?] at hthere
    cases hlookup : es.lookup dir with
    | none => simp [hlookup] at hthere
    | some t =>
      rw [hlookup, Option.bind_some] at hthere
      cases t with
      | file content modified => cases dirs <;> simp [FileTree.get?] at hthere
      | link target => cases dirs <;> simp [FileTree.get?] at hthere
      | directory es' =>
        refine ⟨by simpa using hincluded [] dir (by simp), es', rfl, hthere, hway ▸ hfile, hextension, ?_⟩
        intro front dir' hfront
        have hbelow := hincluded (dir :: front) dir' (by simpa using hfront)
        simpa using hbelow
  · rintro ⟨hdir, es', hlookup, hbelow⟩
    refine ⟨?_, hway ▸ hbelow.noDirectory, hbelow.extension, ?_⟩
    · rw [List.cons_append, FileTree.get?, hlookup]
      exact hbelow.there
    · rintro front dir' hfront
      cases front with
      | nil =>
        obtain rfl : dir' = dir := by simpa using hfront
        simpa using hdir
      | cons first front =>
        obtain ⟨rfl, hrest⟩ : first = dir ∧ front ++ [dir'] <+: dirs := by simpa using hfront
        simpa using hbelow.included front dir' hrest

/-- **The walk of a directory finds the source files below it.** -/
theorem mem_filesBelow (es : List (String × FileTree)) {above : List String} (h : Reached d root above es)
    {p : String} :
    p ∈ filesBelow d excludes (descend root above) (Text.join "/" above) es ↔
      ∃ dirs name, SourceBelow d root excludes above es dirs name ∧ p = descend root (above ++ (dirs ++ [name])) := by
  induction es using entries_induction generalizing above with
  | h es ih =>
    have hlookup {name : String} {t : FileTree} : es.lookup name = some t ↔ (name, t) ∈ es :=
      FileTree.lookup_eq_some_iff_mem h.distinct
    have hat {dir : String} {es' : List (String × FileTree)} (hmem : (dir, .directory es') ∈ es) :
        p ∈ filesAt d excludes (descend root above) (Text.join "/" above) (dir, .directory es') ↔
          ¬ Excluded excludes above dir ∧ ∃ dirs name, SourceBelow d root excludes (above ++ [dir]) es' dirs name ∧
            p = descend root (above ++ [dir] ++ (dirs ++ [name])) := by
      rw [← ih dir es' hmem (h.enter hmem), filesAt_directory, below_text h.plain (h.plain_of_mem hmem),
        ← descend_concat, ← isExcluded_iff]
      split
      · simp [*]
      · simp [*]
    rw [(filesBelow_perm d excludes _ _ es).mem_iff, List.mem_flatMap]
    constructor
    · rintro ⟨⟨name, t⟩, hmem, hp⟩
      by_cases ht : ∃ es', t = .directory es'
      · obtain ⟨es', rfl⟩ := ht
        obtain ⟨hdir, dirs, file, hbelow, rfl⟩ := (hat hmem).mp hp
        exact ⟨name :: dirs, file, sourceBelow_cons.mpr ⟨hdir, es', hlookup.mpr hmem, hbelow⟩, by simp⟩
      · rw [filesAt_of_ne fun es' heq => ht ⟨es', heq⟩, Option.mem_toList, sourceFile?_eq_some_iff h hmem] at hp
        obtain ⟨hfile, hsource, rfl⟩ := hp
        exact ⟨[], name, sourceBelow_nil.mpr ⟨⟨t, hlookup.mpr hmem⟩, hfile, hsource⟩,
          (descend_concat root above name).symm⟩
    · rintro ⟨dirs, name, hbelow, rfl⟩
      cases dirs with
      | nil =>
        obtain ⟨⟨t, ht⟩, hfile, hsource⟩ := sourceBelow_nil.mp hbelow
        have hmem := hlookup.mp ht
        refine ⟨(name, t), hmem, List.mem_append_left _ (Option.mem_toList.mpr ?_)⟩
        exact (sourceFile?_eq_some_iff h hmem).mpr ⟨hfile, hsource, descend_concat root above name⟩
      | cons dir dirs =>
        obtain ⟨hdir, es', ht, hrest⟩ := sourceBelow_cons.mp hbelow
        exact ⟨(dir, .directory es'), hlookup.mp ht, (hat (hlookup.mp ht)).mpr ⟨hdir, dirs, name, hrest, by simp⟩⟩

theorem SourceBelow.plain {dirs : List String} (hbelow : SourceBelow d root excludes above es dirs name)
    (h : Reached d root above es) : ∀ s ∈ dirs ++ [name], Plain s := by
  obtain ⟨t, ht⟩ := Option.isSome_iff_exists.mp hbelow.there
  exact (h.sound.of_get? ht).2

/-- What is found at an entry has its name on the way. -/
theorem exists_of_mem_filesAt (h : Reached d root above es) {e : String × FileTree} (he : e ∈ es) {p : String}
    (hp : p ∈ filesAt d excludes (descend root above) (Text.join "/" above) e) :
    ∃ rest, (∀ s ∈ rest, Plain s) ∧ p = descend root (above ++ e.1 :: rest) := by
  obtain ⟨name, t⟩ := e
  by_cases ht : ∃ es', t = .directory es'
  · obtain ⟨es', rfl⟩ := ht
    rw [filesAt_directory] at hp
    split at hp
    · cases hp
    · rw [below_text h.plain (h.plain_of_mem he), ← descend_concat, mem_filesBelow es' (h.enter he)] at hp
      obtain ⟨dirs, file, hbelow, rfl⟩ := hp
      exact ⟨dirs ++ [file], hbelow.plain (h.enter he), by simp⟩
  · rw [filesAt_of_ne fun es' heq => ht ⟨es', heq⟩, Option.mem_toList, sourceFile?_eq_some_iff h he] at hp
    exact ⟨[], by simp, by rw [hp.2.2, descend_concat]⟩

/-- **The walk finds no file twice.** -/
theorem nodup_filesBelow (hroot : root ≠ "") (es : List (String × FileTree)) {above : List String}
    (h : Reached d root above es) : (filesBelow d excludes (descend root above) (Text.join "/" above) es).Nodup := by
  induction es using entries_induction generalizing above with
  | h es ih =>
    rw [(filesBelow_perm d excludes _ _ es).nodup_iff, List.nodup_flatMap]
    constructor
    · rintro ⟨name, t⟩ hmem
      by_cases ht : ∃ es', t = .directory es'
      · obtain ⟨es', rfl⟩ := ht
        rw [filesAt_directory, below_text h.plain (h.plain_of_mem hmem), ← descend_concat]
        split
        · exact List.nodup_nil
        · exact ih name es' hmem (h.enter hmem)
      · rw [filesAt_of_ne fun es' heq => ht ⟨es', heq⟩]
        cases sourceFile? d (descend root above) (name, t) with
        | none => exact List.nodup_nil
        | some p => exact List.nodup_singleton p
    · -- The paths below two entries differ in the name behind `above`.
      refine (List.pairwise_map.mp h.distinct).imp_of_mem fun {e e'} he he' hne p hp hp' => ?_
      obtain ⟨rest, hrest, rfl⟩ := exists_of_mem_filesAt h he hp
      obtain ⟨rest', hrest', heq⟩ := exists_of_mem_filesAt h he' hp'
      have hplain {e : String × FileTree} {rest : List String} (he : e ∈ es) (hrest : ∀ s ∈ rest, Plain s) :
          ∀ s ∈ above ++ e.1 :: rest, Plain s := by
        rw [List.forall_mem_append, List.forall_mem_cons]
        exact ⟨h.plain, h.plain_of_mem (t := e.2) he, hrest⟩
      have hnames := descend_injective hroot (by simp) (by simp) (hplain he hrest) (hplain he' hrest') heq
      rw [List.append_cancel_left_eq, List.cons.injEq] at hnames
      exact hne hnames.1

end Below

/-! ## Limits -/

/-- A file that cannot be looked at, or is larger than a limit. -/
def Refused (d : Disk) (limit : Int) (p : String) : Prop :=
  (∃ e, d.size p = .error e) ∨ ∃ size, d.size p = .ok size ∧ limit < size

section Limits

variable {d : Disk} {root : String} {settings : Settings} {limit : Int} {files : List String}

/-- To count the files after every directory is to count them at the end: the number only grows. -/
theorem gatherFiles_cons (settings : Settings) (own : List String) (rest : List (List String)) (files : List String) :
    gatherFiles settings (own :: rest) files =
      if settings.maxFiles < (files ++ (own :: rest).flatten).length then .error (.tooMany settings.maxFiles)
      else .ok (files ++ (own :: rest).flatten) := by
  induction rest generalizing own files with
  | nil =>
    rw [gatherFiles, checkCount, List.flatten_singleton]
    by_cases hown : settings.maxFiles < (files ++ own).length
    · rw [if_pos hown, if_pos hown]
      rfl
    · rw [if_neg hown, if_neg hown]
      rfl
  | cons own' rest ih =>
    rw [gatherFiles, checkCount, List.flatten_cons, ← List.append_assoc]
    by_cases hown : settings.maxFiles < (files ++ own).length
    · have hall : settings.maxFiles < (files ++ own ++ (own' :: rest).flatten).length := by
        rw [List.length_append]
        omega
      rw [if_pos hown, if_pos hall]
      rfl
    · rw [if_neg hown]
      exact ih own' (files ++ own)

theorem fileSizes_of_error {f : String} {e : FileError} (hf : f ∈ files) (he : d.size f = .error e) :
    ∃ e', fileSizes d files = .error e' := by
  induction files with
  | nil => cases hf
  | cons g files ih =>
    rw [fileSizes]
    cases hg : d.size g with
    | error e' => exact ⟨e', rfl⟩
    | ok size =>
      have hne : f ≠ g := fun heq => by simp [heq, hg] at he
      obtain ⟨e', hrest⟩ := ih ((List.mem_cons.mp hf).resolve_left hne)
      exact ⟨e', by rw [hrest]; rfl⟩

theorem fileSizes_of_no_error (h : ∀ f ∈ files, ∀ e, d.size f ≠ .error e) :
    ∃ sizes, fileSizes d files = .ok sizes ∧ ∀ f size, (f, size) ∈ sizes ↔ f ∈ files ∧ d.size f = .ok size := by
  induction files with
  | nil => exact ⟨[], rfl, by simp⟩
  | cons g files ih =>
    obtain ⟨hfirst, hfiles⟩ := List.forall_mem_cons.mp h
    obtain ⟨size, hg⟩ : ∃ size, d.size g = .ok size := by
      cases hg : d.size g with
      | error e => exact absurd hg (hfirst e)
      | ok size => exact ⟨size, rfl⟩
    obtain ⟨sizes, hsizes, hmem⟩ := ih hfiles
    refine ⟨(g, size) :: sizes, by rw [fileSizes, hg, hsizes]; rfl, fun f size' => ?_⟩
    rw [List.mem_cons, hmem, Prod.mk.injEq, List.mem_cons]
    constructor
    · rintro (⟨rfl, rfl⟩ | ⟨hf, hsize⟩)
      · exact ⟨Or.inl rfl, hg⟩
      · exact ⟨Or.inr hf, hsize⟩
    · rintro ⟨rfl | hf, hsize⟩
      · rw [hg, Except.ok.injEq] at hsize
        exact Or.inl ⟨rfl, hsize.symm⟩
      · exact Or.inr ⟨hf, hsize⟩

theorem checkSizes_of_refused (h : ∃ f ∈ files, Refused d limit f) : ∃ e, checkSizes d root limit files = .error e := by
  rw [checkSizes]
  by_cases hfault : ∃ f ∈ files, ∃ e, d.size f = .error e
  · obtain ⟨f, hf, e, he⟩ := hfault
    obtain ⟨e', hsizes⟩ := fileSizes_of_error hf he
    exact ⟨.unreadable e', by rw [hsizes]; rfl⟩
  · obtain ⟨sizes, hsizes, hmem⟩ := fileSizes_of_no_error fun f hf e he => hfault ⟨f, hf, e, he⟩
    obtain ⟨f, hf, ⟨e, he⟩ | ⟨size, hsize, hlarge⟩⟩ := h
    · exact absurd ⟨f, hf, e, he⟩ hfault
    · simp only [hsizes, Except.mapError, bind, Except.bind]
      split
      · exact ⟨_, rfl⟩
      · rename_i hnone
        have hsmall := List.find?_eq_none.mp hnone (f, size) ((hmem f size).mpr ⟨hf, hsize⟩)
        simp [hlarge] at hsmall

theorem checkSizes_of_admitted (h : ∀ f ∈ files, ¬ Refused d limit f) : checkSizes d root limit files = .ok () := by
  obtain ⟨sizes, hsizes, hmem⟩ := fileSizes_of_no_error fun f hf e he => h f hf (Or.inl ⟨e, he⟩)
  simp only [checkSizes, hsizes, Except.mapError, bind, Except.bind]
  split
  · rename_i f size hfind
    obtain ⟨hf, hsize⟩ := (hmem f size).mp (List.mem_of_find?_eq_some hfind)
    have hlarge := List.find?_some hfind
    exact absurd (Or.inr ⟨size, hsize, by simpa using hlarge⟩) (h f hf)
  · rfl

end Limits

/-! ## Discovery -/

/-- The names that lead from the root of a project, given by its entries, to the source files. -/
def sourcesBelow (d : Disk) (root : String) (excludes : List String) (es : List (String × FileTree)) :
    Set (List String) :=
  {names | ∃ dirs name, names = dirs ++ [name] ∧ SourceBelow d root excludes [] es dirs name}

section Sources

variable {d : Disk} {root : String} {excludes : List String} {es : List (String × FileTree)}

theorem mem_filesBelow_root (h : Reached d root [] es) {p : String} :
    p ∈ filesBelow d excludes root "" es ↔ ∃ names ∈ sourcesBelow d root excludes es, p = descend root names := by
  rw [show "" = Text.join "/" [] by decide]
  constructor
  · intro hp
    obtain ⟨dirs, name, hbelow, rfl⟩ := (mem_filesBelow es h).mp hp
    exact ⟨dirs ++ [name], ⟨dirs, name, rfl, hbelow⟩, rfl⟩
  · rintro ⟨_, ⟨dirs, name, rfl, hbelow⟩, rfl⟩
    exact (mem_filesBelow es h).mpr ⟨dirs, name, hbelow, rfl⟩

theorem nodup_filesBelow_root (h : Reached d root [] es) (hroot : root ≠ "") :
    (filesBelow d excludes root "" es).Nodup := by
  have hnodup : (filesBelow d excludes (descend root []) (Text.join "/" []) es).Nodup := nodup_filesBelow hroot es h
  rwa [show Text.join "/" [] = "" by decide] at hnodup

/-- Different names lead to different source files. -/
theorem injOn_sourcesBelow (h : Reached d root [] es) (hroot : root ≠ "") :
    Set.InjOn (descend root) (sourcesBelow d root excludes es) := by
  rintro _ ⟨dirs, name, rfl, hbelow⟩ _ ⟨dirs', name', rfl, hbelow'⟩ heq
  exact descend_injective hroot (by simp) (by simp) (hbelow.plain h) (hbelow'.plain h) heq

theorem image_sourcesBelow (h : Reached d root [] es) :
    descend root '' sourcesBelow d root excludes es = ((filesBelow d excludes root "" es).toFinset : Set String) := by
  ext p
  rw [Finset.mem_coe, List.mem_toFinset, mem_filesBelow_root h]
  exact exists_congr fun names => and_congr_right fun _ => eq_comm

/-- The walk finds as many files as there are. -/
theorem finite_sourcesBelow (excludes : List String) (h : Reached d root [] es) (hroot : root ≠ "") :
    (sourcesBelow d root excludes es).Finite ∧
      (sourcesBelow d root excludes es).ncard = (filesBelow d excludes root "" es).length := by
  constructor
  · refine Set.Finite.of_finite_image ?_ (injOn_sourcesBelow h hroot)
    rw [image_sourcesBelow h]
    exact Finset.finite_toSet _
  · rw [← (injOn_sourcesBelow h hroot).ncard_image, image_sourcesBelow h, Set.ncard_coe_finset,
      List.toFinset_card_of_nodup (nodup_filesBelow_root h hroot)]

end Sources

section Discovery

variable {d : Disk} {root : String} {place : List String} {es : List (String × FileTree)}

theorem reached_root (hsound : d.root.Sound) (hroot : d.resolve true root = .at place (.directory es)) :
    Reached d root [] es := by
  refine ⟨⟨place, hroot⟩, ?_, by simp⟩
  rw [Disk.resolve_eq (Disk.ne_empty_of_resolve hroot)] at hroot
  obtain ⟨-, -, -, hplace⟩ := FileTree.exists_passage_of_walkLinks _ hroot
  exact (hsound.of_get? hplace).1

/-- What is found is what the walk finds, counted, in order and looked at. -/
theorem findFiles_eq (settings : Settings) (hroot : d.resolve true root = .at place (.directory es)) :
    findFiles d root settings =
      if settings.maxFiles < (filesBelow d (combinedExcludes settings.excludedFolders) root "" es).length then
        .error (.tooMany settings.maxFiles)
      else admitFiles d root settings (filesBelow d (combinedExcludes settings.excludedFolders) root "" es) := by
  have hwalk : findFiles d root settings =
      (gatherFiles settings (es.filterMap (sourceFile? d root) ::
          inOrder (walksBelow d (combinedExcludes settings.excludedFolders) root "" es)) [] >>=
        admitFiles d root settings) := by
    rw [findFiles, walkProject, hroot]
    rfl
  rw [hwalk, gatherFiles_cons, List.nil_append, ← filesBelow]
  split <;> rfl

theorem admitFiles_of_refused {settings : Settings} {files : List String}
    (h : ∃ f ∈ files, Refused d settings.maxFileSizeBytes f) : ∃ e, admitFiles d root settings files = .error e := by
  obtain ⟨f, hf, hrefused⟩ := h
  obtain ⟨e, he⟩ : ∃ e, checkSizes d root settings.maxFileSizeBytes (sortTexts files) = .error e :=
    checkSizes_of_refused ⟨f, (sortTexts_perm files).mem_iff.mpr hf, hrefused⟩
  exact ⟨e, congrArg (· >>= fun _ => pure (sortTexts files)) he⟩

theorem admitFiles_of_admitted {settings : Settings} {files : List String}
    (h : ∀ f ∈ files, ¬ Refused d settings.maxFileSizeBytes f) :
    admitFiles d root settings files = .ok (sortTexts files) := by
  have hsizes : checkSizes d root settings.maxFileSizeBytes (sortTexts files) = .ok () :=
    checkSizes_of_admitted fun f hf => h f ((sortTexts_perm files).mem_iff.mp hf)
  exact congrArg (· >>= fun _ => pure (sortTexts files)) hsizes

/-- What discovery gives for a project with the source files `sources`, as names below the root. -/
structure Discovers (d : Disk) (root : String) (settings : Settings) (sources : Set (List String))
    (outcome : Except DiscoveryError (List String)) : Prop where
  finite : sources.Finite
  tooMany : settings.maxFiles < sources.ncard → outcome = .error (.tooMany settings.maxFiles)
  refused : (∃ names ∈ sources, Refused d settings.maxFileSizeBytes (descend root names)) → ∃ e, outcome = .error e
  listed : ¬ settings.maxFiles < sources.ncard →
    (∀ names ∈ sources, ¬ Refused d settings.maxFileSizeBytes (descend root names)) →
    ∃ files, outcome = .ok files ∧ files.Pairwise (· < ·) ∧ ∀ p, p ∈ files ↔ ∃ names ∈ sources, p = descend root names

/-- Whatever is found is a source file. -/
theorem Discovers.mem_sources {settings : Settings} {sources : Set (List String)} {files : List String} {p : String}
    (h : Discovers d root settings sources (.ok files)) (hp : p ∈ files) :
    ∃ names ∈ sources, p = descend root names := by
  have hfew : ¬ settings.maxFiles < sources.ncard := fun hmany => nomatch h.tooMany hmany
  have hadmitted : ∀ names ∈ sources, ¬ Refused d settings.maxFileSizeBytes (descend root names) := by
    intro names hnames hrefused
    obtain ⟨e, he⟩ := h.refused ⟨names, hnames, hrefused⟩
    cases he
  obtain ⟨files', hok, -, hmem⟩ := h.listed hfew hadmitted
  rw [Except.ok.injEq] at hok
  exact (hmem p).mp (hok ▸ hp)

theorem discovers_findFiles (settings : Settings) (hsound : d.root.Sound)
    (hroot : d.resolve true root = .at place (.directory es)) :
    Discovers d root settings (sourcesBelow d root (combinedExcludes settings.excludedFolders) es)
      (findFiles d root settings) := by
  have hreached := reached_root hsound hroot
  have hne := Disk.ne_empty_of_resolve hroot
  obtain ⟨hfinite, hcard⟩ := finite_sourcesBelow (combinedExcludes settings.excludedFolders) hreached hne
  rw [findFiles_eq settings hroot]
  refine ⟨hfinite, ?_, ?_, ?_⟩
  · intro hmany
    rw [hcard] at hmany
    rw [if_pos hmany]
  · rintro ⟨names, hnames, hrefused⟩
    split
    · exact ⟨_, rfl⟩
    · exact admitFiles_of_refused ⟨_, (mem_filesBelow_root hreached).mpr ⟨names, hnames, rfl⟩, hrefused⟩
  · intro hfew hadmitted
    rw [hcard] at hfew
    refine ⟨sortTexts (filesBelow d (combinedExcludes settings.excludedFolders) root "" es), ?_,
      ImportGraph.pairwise_lt_sortTexts (nodup_filesBelow_root hreached hne), fun p => ?_⟩
    · rw [if_neg hfew]
      refine admitFiles_of_admitted fun f hf => ?_
      obtain ⟨names, hnames, rfl⟩ := (mem_filesBelow_root hreached).mp hf
      exact hadmitted names hnames
    · rw [(sortTexts_perm _).mem_iff]
      exact mem_filesBelow_root hreached

/-- No source file lies below a directory that is always excluded. -/
theorem SourceBelow.not_mem_baseExcludes {configured above dirs : List String} {name dir : String}
    (h : SourceBelow d root (combinedExcludes configured) above es dirs name) (hdir : dir ∈ dirs) :
    dir ∉ baseExcludes := by
  intro hbase
  obtain ⟨front, rest, rfl⟩ := List.append_of_mem hdir
  exact h.included front dir ⟨rest, by simp⟩ (Or.inl (baseExcludes_subset configured hbase))

/-- **Discovery is exact**: the source files of a project are found, each once and in order, or there are too many of
them, or one of them is refused. Whatever is configured, no file below a directory that is always excluded is found. -/
theorem findFiles_exact (d : Disk) (root : String) (settings : Settings) (place : List String)
    (es : List (String × FileTree)) (hsound : d.root.Sound) (hroot : d.resolve true root = .at place (.directory es)) :
    Discovers d root settings (sourcesBelow d root (combinedExcludes settings.excludedFolders) es)
        (findFiles d root settings) ∧
      ∀ files, findFiles d root settings = .ok files → ∀ dirs name, (∀ s ∈ dirs ++ [name], Plain s) →
        descend root (dirs ++ [name]) ∈ files → ∀ dir ∈ dirs, dir ∉ baseExcludes := by
  have hdiscovers := discovers_findFiles settings hsound hroot
  refine ⟨hdiscovers, fun files hfiles dirs name hplain hmem dir hdir => ?_⟩
  rw [hfiles] at hdiscovers
  obtain ⟨_, ⟨dirs', name', rfl, hbelow⟩, heq⟩ := hdiscovers.mem_sources hmem
  have hnames : dirs ++ [name] = dirs' ++ [name'] := descend_injective (Disk.ne_empty_of_resolve hroot) (by simp)
    (by simp) hplain (hbelow.plain (reached_root hsound hroot)) heq
  obtain ⟨rfl, -⟩ := List.append_inj' hnames rfl
  exact hbelow.not_mem_baseExcludes hdir

/-- A project in which one link leads to a file, one to a directory and one nowhere. -/
def danglingEntries : List (String × FileTree) :=
  [("src", .directory [("gen", .directory [("g.ts", .file ⟨#[]⟩ 0)]), ("a.ts", .file ⟨#[]⟩ 0)]),
   ("lib.ts", .link "src"), ("gone.ts", .link "missing"), ("b.ts", .link "src/a.ts")]

def danglingDisk : Disk :=
  ⟨.directory [("proj", .directory danglingEntries)], "/"⟩

theorem sound_danglingDisk : danglingDisk.root.Sound := by
  refine .directory (by decide) (by decide) ?_
  simp only [List.forall_mem_singleton]
  refine .directory (by decide) (by decide) ?_
  simp only [danglingEntries, List.forall_mem_cons, List.not_mem_nil, false_implies, implies_true, and_true]
  refine ⟨.directory (by decide) (by decide) ?_, .link _, .link _, .link _⟩
  simp only [List.forall_mem_cons, List.not_mem_nil, false_implies, implies_true, and_true]
  refine ⟨.directory (by decide) (by decide) ?_, .file _ _⟩
  simp only [List.forall_mem_singleton]
  exact .file _ _

theorem dangling_link_refused : danglingDisk.root.Sound ∧
    danglingDisk.resolve true "/proj" = .at ["proj"] (.directory danglingEntries) ∧
      ∃ e, findFiles danglingDisk "/proj" { excludedFolders := ["src/gen"] } = .error e := by
  have hroot : danglingDisk.resolve true "/proj" = .at ["proj"] (.directory danglingEntries) := rfl
  have hsource : SourceBelow danglingDisk "/proj" (combinedExcludes ["src/gen"]) [] danglingEntries [] "gone.ts" :=
    sourceBelow_nil.mpr ⟨⟨_, rfl⟩, by decide +kernel, by decide +kernel⟩
  refine ⟨sound_danglingDisk, hroot, (findFiles_exact _ _ _ _ _ sound_danglingDisk hroot).1.refused ?_⟩
  exact ⟨["gone.ts"], ⟨[], "gone.ts", rfl, hsource⟩, Or.inl ⟨_, rfl⟩⟩

end Discovery

end ExportAudit
