import Mathlib
import ExportAudit.Resolution
import ExportAudit.Proofs.AliasChoice
import ExportAudit.Proofs.CanonicalPath

/-!
# Which file a reference means

The rule by which a reference is resolved, written down as one ordered list and one relation:

- a search for a path looks at `candidates`, in order, and the first one that is a file decides (`FirstFile`). The search
  itself first tests whether there is a directory to look into; this test decides nothing, since an entry that is a file
  stands in a directory (`Disk.isDirectory_of_isFile_join`), so the search finds the first file (`probe_eq_find?`);
- of the targets of an alias the first one decides whose search ends at a file outside of installed packages (`Decides`,
  `resolveTargets_of_decides`);
- `Resolves` says what becomes of every reference. Something becomes of each (`exists_resolves`), and a resolver without
  memory answers just that (`resolves_iff_resolve`).
-/

namespace ExportAudit

/-! ## Entries of directories -/

namespace Path

variable {p q name : String}

theorem segments_append_slash (p q : String) : segments (p ++ "/" ++ q) = segments p ++ segments q := by
  have hchars : (p ++ "/" ++ q).toList = p.toList ++ '/' :: q.toList := by simp
  rw [segments, Text.splitOn, hchars, List.splitOn_append_cons_self, List.map_append]
  rfl

theorem segments_of_slashless (h : Slashless name) : segments name = [name] := by
  rw [segments, Text.splitOn, List.splitOn_eq_singleton h, List.map_singleton, String.ofList_toList]

theorem isAbsolute_iff : isAbsolute p = true ↔ ∃ cs, p.toList = '/' :: cs := by
  rw [isAbsolute, Text.startsWith, List.isPrefixOf_iff_prefix]
  constructor
  · rintro ⟨cs, h⟩
    exact ⟨cs, h.symm⟩
  · rintro ⟨cs, h⟩
    exact ⟨cs, h.symm⟩

theorem isAbsolute_append (hp : p ≠ "") (q : String) : isAbsolute (p ++ q) = isAbsolute p := by
  rw [Bool.eq_iff_iff, isAbsolute_iff, isAbsolute_iff, String.toList_append]
  cases h : p.toList with
  | nil => exact absurd (String.toList_eq_nil_iff.mp h) hp
  | cons c cs => simp

theorem endsWith_append (p : String) (hq : q ≠ "") : Text.endsWith (p ++ q) "/" = Text.endsWith q "/" := by
  have hlast (s : String) : Text.endsWith s "/" = true ↔ s.toList.getLast? = some '/' := by
    rw [endsWith_iff, List.getLast?_eq_some_iff]
    constructor
    · rintro ⟨front, rfl⟩
      exact ⟨front.toList, by simp⟩
    · rintro ⟨cs, h⟩
      exact ⟨String.ofList cs, by rw [← String.toList_inj]; simpa using h⟩
  have hne : q.toList ≠ [] := by simpa using hq
  rw [Bool.eq_iff_iff, hlast, hlast, String.toList_append, List.getLast?_append_of_ne_nil _ hne]

theorem join_of_relative (hq : isAbsolute q = false) :
    join p q = if p = "" ∨ Text.endsWith p "/" = true then p ++ q else p ++ "/" ++ q := by
  unfold join
  simp [hq]

theorem join_of_absolute (hq : isAbsolute q = true) : join p q = q := by
  unfold join
  simp [hq]

theorem join_ne_empty (hq : q ≠ "") : join p q ≠ "" := by
  unfold join
  split
  · exact hq
  · split <;> simp [hq]

theorem isAbsolute_join (hp : p ≠ "") (hq : isAbsolute q = false) : isAbsolute (join p q) = isAbsolute p := by
  rw [join_of_relative hq]
  split
  · exact isAbsolute_append hp q
  · rw [String.append_assoc]
    exact isAbsolute_append hp _

/-- Joining is associative as long as no part begins at the root or is empty. -/
theorem join_join (hq : q ≠ "") (hname : isAbsolute name = false) : join p (join q name) = join (join p q) name := by
  cases habs : isAbsolute q with
  | true => rw [join_of_absolute (p := p) habs, join_of_absolute ((isAbsolute_join hq hname).trans habs)]
  | false =>
    have hends : Text.endsWith (join p q) "/" = Text.endsWith q "/" := by
      rw [join_of_relative habs]
      split
      · exact endsWith_append p hq
      · exact endsWith_append _ hq
    rw [join_of_relative ((isAbsolute_join hq hname).trans habs), join_of_relative hname, join_of_relative hname, hends,
      join_of_relative habs]
    simp only [hq, false_or]
    have hne : ¬ (if p = "" ∨ Text.endsWith p "/" = true then p ++ q else p ++ "/" ++ q) = "" := by
      split <;> simp [hq]
    simp only [hne, false_or]
    split <;> split <;> simp [String.append_assoc]

/-- The segments of an entry of a directory. The directory may be written with a slash at its end. -/
theorem segments_join (hp : p ≠ "") (hname : Slashless name) (hrelative : isAbsolute name = false) :
    ∃ front, segments (join p name) = front ++ [name] ∧ (segments p = front ∨ segments p = front ++ [""]) := by
  rw [join_of_relative hrelative]
  by_cases hends : Text.endsWith p "/" = true
  · obtain ⟨front, rfl⟩ := endsWith_iff.mp hends
    rw [if_pos (Or.inr hends), segments_append_slash, segments_of_slashless hname]
    refine ⟨segments front, rfl, Or.inr ?_⟩
    have hempty : Slashless "" := by simp [Slashless]
    have hslash := segments_append_slash front ""
    rw [String.append_empty, segments_of_slashless hempty] at hslash
    exact hslash
  · rw [if_neg (by simp [hp, hends]), segments_append_slash, segments_of_slashless hname]
    exact ⟨segments p, rfl, Or.inl rfl⟩

end Path

namespace FileTree

/-- A walk ends at a file. -/
def EndsAtFile (go : List String → Arrival) (todo : List String) : Prop :=
  ∃ place content time, go todo = .at place (.file content time)

/-- A walk ends at a directory, also when its path is written with a slash at the end. -/
def EndsAtDirectory (go : List String → Arrival) (todo : List String) : Prop :=
  ∃ place es, go todo = .at place (.directory es) ∧ go (todo ++ [""]) = .at place (.directory es)

variable {root : FileTree} {name : String}

/-- A walk that goes on and arrives somewhere goes on from a directory. -/
theorem exists_directory_of_walk {expand : List String → List String → Arrival} {here rest place : List String}
    {segment : String} {node : FileTree} (h : walk root true expand here (segment :: rest) = .at place node) :
    ∃ es, root.get? here = some (.directory es) := by
  rw [walk] at h
  cases hnode : root.get? here with
  | none => simp [hnode] at h
  | some node =>
    cases node with
    | file content time => simp [hnode] at h
    | link target => simp [hnode] at h
    | directory es => exact ⟨es, rfl⟩

/-- A walk to a file passes through the directory of the file, if the walks behind links do. -/
theorem endsAtDirectory_walk {expand : List String → List String → Arrival}
    (hexpand : ∀ here todo, EndsAtFile (expand here) (todo ++ [name]) → EndsAtDirectory (expand here) todo) :
    ∀ {here todo : List String}, EndsAtFile (walk root true expand here) (todo ++ [name]) →
      EndsAtDirectory (walk root true expand here) todo
  | here, [], ⟨place, content, time, h⟩ => by
    obtain ⟨es, hnode⟩ := exists_directory_of_walk h
    exact ⟨here, es, by simp [walk, hnode], by simp [walk, hnode]⟩
  | here, segment :: rest, ⟨place, content, time, h⟩ => by
    obtain ⟨es, hnode⟩ := exists_directory_of_walk h
    rw [List.cons_append, walk] at h
    unfold EndsAtDirectory
    rw [List.cons_append, walk, walk]
    simp only [hnode] at h ⊢
    split at h
    · rename_i hblank
      rw [if_pos hblank, if_pos hblank]
      exact endsAtDirectory_walk hexpand ⟨place, content, time, h⟩
    · rename_i hblank
      rw [if_neg hblank, if_neg hblank]
      split at h
      · rename_i hup
        rw [if_pos hup, if_pos hup]
        exact endsAtDirectory_walk hexpand ⟨place, content, time, h⟩
      · rename_i hup
        rw [if_neg hup, if_neg hup]
        cases hentry : es.lookup segment with
        | none => simp [hentry] at h
        | some entry =>
          cases entry with
          | link target =>
            -- The rest of the walk is behind the link.
            simp only [hentry, Bool.not_true, Bool.and_false, Bool.false_eq_true, if_false] at h ⊢
            rw [← List.append_assoc] at h ⊢
            exact hexpand _ _ ⟨place, content, time, h⟩
          | file content' time' =>
            simp only [hentry] at h ⊢
            exact endsAtDirectory_walk hexpand ⟨place, content, time, h⟩
          | directory es' =>
            simp only [hentry] at h ⊢
            exact endsAtDirectory_walk hexpand ⟨place, content, time, h⟩

theorem endsAtDirectory_walkLinks : ∀ (n : Nat) (here todo : List String),
    EndsAtFile (walkLinks root true n here) (todo ++ [name]) → EndsAtDirectory (walkLinks root true n here) todo
  | 0, _, _ => endsAtDirectory_walk fun _ _ ⟨_, _, _, h⟩ => by cases h
  | n + 1, _, _ => endsAtDirectory_walk (endsAtDirectory_walkLinks n)

end FileTree

open ExportAudit.Path in
/-- **A file in a directory**: if an entry of a path is a file, the path leads to a directory. -/
theorem Disk.isDirectory_of_isFile_join {d : Disk} {p name : String} (hp : p ≠ "") (hname : Slashless name)
    (hrelative : isAbsolute name = false) (h : d.isFile (join p name) = true) : d.isDirectory p = true := by
  have hjoined : join p name ≠ "" := fun hempty => hp (by
    have := congrArg String.toList hempty
    rw [join_of_relative hrelative] at this
    split at this <;> simp_all)
  obtain ⟨front, hfront, hsegments⟩ := segments_join (p := join d.cwd p) (join_ne_empty hp) hname hrelative
  unfold Disk.isFile Disk.resolve at h
  rw [if_neg (by simpa using hjoined), join_join hp hrelative, FileTree.resolve, hfront] at h
  have hfile : FileTree.EndsAtFile (FileTree.walkLinks d.root true FileTree.maxLinks []) (front ++ [name]) := by
    split at h
    · exact ⟨_, _, _, ‹_›⟩
    · cases h
  obtain ⟨place, es, hfront', hslash⟩ := FileTree.endsAtDirectory_walkLinks _ _ _ hfile
  unfold Disk.isDirectory Disk.resolve
  rw [if_neg (by simpa using hp), FileTree.resolve]
  rcases hsegments with hsegments | hsegments <;> rw [hsegments]
  · rw [hfront']
  · rw [hslash]

/-! ## The search -/

/-- A path that a search looks at, and whether a file there is no module. -/
structure Candidate where
  path : String
  isAsset : Bool := false
  deriving DecidableEq, Repr

/-- All that a search for a path looks at, in order: the path itself and the spellings that its extension may stand for,
or, if its extension is none of a source file, the path with each such extension; then the index files in it; and last
the path itself as an asset. -/
def candidates (path : String) : List Candidate :=
  let stem := (Path.splitExtension path).1
  let asSource : List String → List Candidate := List.map fun p => ⟨p, false⟩
  let inside := [".ts", ".tsx", ".js", ".jsx"].map fun ext => Path.join path ("index" ++ ext)
  match (Path.splitExtension path).2 with
  | ".ts" | ".tsx" => asSource ([path] ++ inside)
  | ".js" => asSource ([path, stem ++ ".ts", stem ++ ".tsx"] ++ inside)
  | ".jsx" => asSource ([path, stem ++ ".tsx"] ++ inside)
  | _ => asSource ([path ++ ".ts", path ++ ".tsx", path ++ ".js", path ++ ".jsx"] ++ inside) ++ [⟨path, true⟩]

/-- The first candidate for a path that is a file. -/
def FirstFile (d : Disk) (path : String) (x : Candidate) : Prop :=
  d.isFile x.path = true ∧
    ∃ before after, candidates path = before ++ x :: after ∧ ∀ y ∈ before, d.isFile y.path = false

/-- No candidate for a path is a file. -/
def NoFile (d : Disk) (path : String) : Prop :=
  ∀ y ∈ candidates path, d.isFile y.path = false

section Search

variable {d : Disk} {path : String}

theorem fst_firstFile (d : Disk) (tests : Nat) (paths : List String) :
    (firstFile d tests paths).1 = paths.find? d.isFile := by
  induction paths generalizing tests with
  | nil => rfl
  | cons p ps ih =>
    rw [firstFile, List.find?_cons]
    cases d.isFile p with
    | true => rfl
    | false => exact ih (tests + 1)

theorem isDirectory_of_mem_indexFiles (hpath : path ≠ "") {p : String} (hp : p ∈ indexFiles path)
    (hfile : d.isFile p = true) : d.isDirectory path = true := by
  have hnames : ∀ ext ∈ sourceExtensions,
      Path.Slashless ("index" ++ ext) ∧ Path.isAbsolute ("index" ++ ext) = false := by
    unfold Path.Slashless
    decide
  obtain ⟨ext, hext, rfl⟩ := List.mem_map.mp hp
  exact Disk.isDirectory_of_isFile_join hpath (hnames ext hext).1 (hnames ext hext).2 hfile

/-- Where there is no directory, no index file is found. -/
theorem find?_indexFiles_of_not_isDirectory (hpath : path ≠ "") (h : d.isDirectory path = false) :
    (indexFiles path).find? d.isFile = none := by
  rw [List.find?_eq_none]
  intro p hp hfile
  rw [isDirectory_of_mem_indexFiles hpath hp hfile] at h
  cases h

/-- The candidates are the spellings of a path, its index files, and perhaps the path itself. -/
theorem candidates_eq (path : String) : candidates path =
    (directSpellings path ++ indexFiles path).map (fun p => ⟨p, false⟩) ++
      if sourceExtensions.contains (Path.extension path) then [] else [⟨path, true⟩] := by
  unfold candidates directSpellings indexFiles Path.extension
  generalize Path.splitExtension path = parts
  obtain ⟨stem, ext⟩ := parts
  by_cases hts : ext = ".ts"
  · subst hts
    simp [sourceExtensions, swappedExtensions]
  · by_cases htsx : ext = ".tsx"
    · subst htsx
      simp [sourceExtensions, swappedExtensions]
    · by_cases hjs : ext = ".js"
      · subst hjs
        simp [sourceExtensions, swappedExtensions]
      · by_cases hjsx : ext = ".jsx"
        · subst hjsx
          simp [sourceExtensions, swappedExtensions]
        · simp [sourceExtensions, hts, htsx, hjs, hjsx]

/-- **A search finds the first candidate that is a file.** -/
theorem probe_eq_find? (hpath : path ≠ "") :
    (probe d path).found.map (fun p => (⟨p, (probe d path).isAsset⟩ : Candidate)) =
      (candidates path).find? fun x => d.isFile x.path := by
  have hsources (paths : List String) : (paths.map fun p => (⟨p, false⟩ : Candidate)).find? (fun x => d.isFile x.path) =
      (paths.find? d.isFile).map fun p => ⟨p, false⟩ := by
    rw [List.find?_map]
    rfl
  rw [candidates_eq, List.find?_append, hsources, List.find?_append, ← fst_firstFile d 0]
  unfold probe
  rcases firstFile d 0 (directSpellings path) with ⟨_ | p, n⟩
  · -- No spelling is a file, so the index files are next, and they need a directory.
    have hinside : (if d.isDirectory path then firstFile d (n + 1) (indexFiles path) else (none, n + 1)).1 =
        (indexFiles path).find? d.isFile := by
      cases h : d.isDirectory path with
      | true => exact fst_firstFile d (n + 1) (indexFiles path)
      | false => exact (find?_indexFiles_of_not_isDirectory hpath h).symm
    rw [← hinside]
    simp only
    rcases (if d.isDirectory path then firstFile d (n + 1) (indexFiles path) else (none, n + 1)) with ⟨_ | p, n'⟩
    · simp only
      split
      · rfl
      · cases h : d.isFile path with
        | true => simp [h]
        | false => simp [h]
    · rfl
  · rfl

theorem Path.normalize_ne_empty (p : String) : Path.normalize p ≠ "" := by
  unfold Path.normalize
  simp only
  split
  · decide
  · rename_i h
    simpa using h

theorem firstFile_iff {x : Candidate} :
    FirstFile d path x ↔ (candidates path).find? (fun x => d.isFile x.path) = some x := by
  rw [List.find?_eq_some_iff_append, FirstFile]
  simp only [Bool.not_eq_true']

theorem noFile_iff : NoFile d path ↔ (candidates path).find? (fun x => d.isFile x.path) = none := by
  rw [List.find?_eq_none, NoFile]
  simp only [Bool.not_eq_true]

theorem noFile_or_firstFile (d : Disk) (path : String) : NoFile d path ∨ ∃ x, FirstFile d path x := by
  simp only [noFile_iff, firstFile_iff]
  cases (candidates path).find? fun x => d.isFile x.path with
  | none => exact Or.inl rfl
  | some x => exact Or.inr ⟨x, rfl⟩

theorem probe_of_noFile (h : NoFile d path) (hpath : path ≠ "") : (probe d path).found = none := by
  have hfind := probe_eq_find? (d := d) hpath
  rw [noFile_iff.mp h] at hfind
  simpa using hfind

theorem probe_of_firstFile {x : Candidate} (h : FirstFile d path x) (hpath : path ≠ "") :
    (probe d path).found = some x.path ∧ (probe d path).isAsset = x.isAsset := by
  have hfind := probe_eq_find? (d := d) hpath
  rw [firstFile_iff.mp h] at hfind
  generalize probe d path = found at hfind ⊢
  obtain ⟨p, hp, rfl⟩ := Option.map_eq_some_iff.mp hfind
  exact ⟨hp, rfl⟩

end Search

/-! ## Resolutions -/

/-- A target of an alias with the first star, if it has one, replaced by what the star of the key stands for. -/
def Filled (capture target filled : String) : Prop :=
  ('*' ∉ target.toList ∧ filled = target) ∨
    ∃ before after, target = before ++ "*" ++ after ∧ '*' ∉ before.toList ∧ filled = before ++ capture ++ after

/-- The first file of the search for a target of an alias, if it lies outside of installed packages. -/
def Decides (d : Disk) (baseUrl capture target : String) (x : Candidate) : Prop :=
  ∃ filled, Filled capture target filled ∧ FirstFile d (Path.normalize (Path.join baseUrl filled)) x ∧
    inVendorDirectory x.path = false

/-- Where a relative reference points to, seen from the file that imports it. -/
def beside (file reference : String) : String :=
  Path.normalize (Path.join (Path.dirname file) reference)

/-- What becomes of a reference: how it is treated, and the file that it means or the reason why it means none. -/
inductive Resolves (d : Disk) (config : Option CompilerPaths) (reference file : String) :
    Strategy → Except FailureReason String → Prop
  /-- No file is found. -/
  | lost (hrelative : isRelative reference = true) (h : NoFile d (beside file reference)) :
      Resolves d config reference file .relative (.error .relativeFailed)
  /-- The first file lies in installed packages. -/
  | vendor (hrelative : isRelative reference = true) {x : Candidate} (hx : FirstFile d (beside file reference) x)
      (hvendor : inVendorDirectory x.path = true) : Resolves d config reference file .external (.error .vendor)
  /-- The first file is no module. -/
  | asset (hrelative : isRelative reference = true) {x : Candidate} (hx : FirstFile d (beside file reference) x)
      (hvendor : inVendorDirectory x.path = false) (hasset : x.isAsset = true) :
      Resolves d config reference file .external (.error .asset)
  /-- The first file is a module. -/
  | found (hrelative : isRelative reference = true) {x : Candidate} (hx : FirstFile d (beside file reference) x)
      (hvendor : inVendorDirectory x.path = false) (hasset : x.isAsset = false) :
      Resolves d config reference file .relative (.ok (d.real x.path))
  /-- No alias matches. -/
  | external (hrelative : isRelative reference = false)
      (h : ∀ c, config = some c → matchAlias? reference (c.paths.map (·.1)) = none) :
      Resolves d config reference file .external (.error .external)
  /-- The first target that decides leads to a file that is no module. -/
  | aliasedAsset (hrelative : isRelative reference = false) {c : CompilerPaths} (hc : config = some c) {m : AliasMatch}
      (hm : matchAlias? reference (c.paths.map (·.1)) = some m) {before after : List String} {target : String}
      (htargets : c.paths.lookup m.key = some (before ++ target :: after))
      (hbefore : ∀ t ∈ before, ∀ y, ¬ Decides d c.baseUrl m.capture t y) {x : Candidate}
      (hx : Decides d c.baseUrl m.capture target x) (hasset : x.isAsset = true) :
      Resolves d config reference file .external (.error .asset)
  /-- The first target that decides leads to a module. -/
  | aliased (hrelative : isRelative reference = false) {c : CompilerPaths} (hc : config = some c) {m : AliasMatch}
      (hm : matchAlias? reference (c.paths.map (·.1)) = some m) {before after : List String} {target : String}
      (htargets : c.paths.lookup m.key = some (before ++ target :: after))
      (hbefore : ∀ t ∈ before, ∀ y, ¬ Decides d c.baseUrl m.capture t y) {x : Candidate}
      (hx : Decides d c.baseUrl m.capture target x) (hasset : x.isAsset = false) :
      Resolves d config reference file .alias (.ok (d.real x.path))
  /-- No target decides. -/
  | unmapped (hrelative : isRelative reference = false) {c : CompilerPaths} (hc : config = some c) {m : AliasMatch}
      (hm : matchAlias? reference (c.paths.map (·.1)) = some m) {targets : List String}
      (htargets : c.paths.lookup m.key = some targets) (h : ∀ t ∈ targets, ∀ y, ¬ Decides d c.baseUrl m.capture t y) :
      Resolves d config reference file .alias (.error .aliasFailed)

/-- A destination without the wording of failures. -/
def Destination.verdict : Destination → Except FailureReason String
  | .file path => .ok path
  | .failure reason _ => .error reason

/-! ## Answers -/

section Resolution

variable {d : Disk} {config : Option CompilerPaths} {reference file : String}

theorem filled_iff {capture target filled : String} : Filled capture target filled ↔ filled = fillStar target capture := by
  constructor
  · rintro (⟨h, rfl⟩ | ⟨before, after, rfl, h, rfl⟩)
    · rw [fillStar, Text.cut?_eq_none_iff.mpr h]
    · have hcut : Text.cut? '*' (before ++ "*" ++ after) = some (before, after) :=
        Text.cut?_eq_some_iff.mpr ⟨by simp, h⟩
      rw [fillStar, hcut]
  · rintro rfl
    rw [fillStar]
    cases hcut : Text.cut? '*' target with
    | none => exact Or.inl ⟨Text.cut?_eq_none_iff.mp hcut, rfl⟩
    | some parts =>
      obtain ⟨before, after⟩ := parts
      obtain ⟨hwhole, hfree⟩ := Text.cut?_eq_some_iff.mp hcut
      refine Or.inr ⟨before, after, ?_, hfree, rfl⟩
      rw [← String.toList_inj]
      simpa using hwhole

theorem exists_lookup_of_matchAlias? {c : CompilerPaths} {m : AliasMatch}
    (h : matchAlias? reference (c.paths.map (·.1)) = some m) : ∃ targets, c.paths.lookup m.key = some targets := by
  obtain ⟨entry, hentry, hkey⟩ := List.mem_map.mp (matchAlias?_eq_some_iff.mp h).mem
  cases hlookup : c.paths.lookup m.key with
  | some targets => exact ⟨targets, rfl⟩
  | none =>
    have hne := List.lookup_eq_none_iff.mp hlookup entry hentry
    simp [hkey] at hne

section Targets

variable {baseUrl capture target : String}

/-- Either no target decides, or there is a first one that does. -/
theorem exists_first_decides (d : Disk) (baseUrl capture : String) (targets : List String) :
    (∀ t ∈ targets, ∀ y, ¬ Decides d baseUrl capture t y) ∨ ∃ before target after, targets = before ++ target :: after ∧
      (∀ t ∈ before, ∀ y, ¬ Decides d baseUrl capture t y) ∧ ∃ x, Decides d baseUrl capture target x := by
  induction targets with
  | nil => exact Or.inl fun t ht => absurd ht List.not_mem_nil
  | cons first rest ih =>
    by_cases hfirst : ∃ x, Decides d baseUrl capture first x
    · exact Or.inr ⟨[], first, rest, rfl, fun t ht => absurd ht List.not_mem_nil, hfirst⟩
    · have hskip : ∀ y, ¬ Decides d baseUrl capture first y := fun y hy => hfirst ⟨y, hy⟩
      rcases ih with hnone | ⟨before, target, after, rfl, hbefore, hx⟩
      · exact Or.inl (List.forall_mem_cons.mpr ⟨hskip, hnone⟩)
      · exact Or.inr ⟨first :: before, target, after, rfl, List.forall_mem_cons.mpr ⟨hskip, hbefore⟩, hx⟩

theorem decision?_of_not_decides (h : ∀ y, ¬ Decides d baseUrl capture target y) :
    (probe d (Path.normalize (Path.join baseUrl (fillStar target capture)))).decision? d reference = none := by
  have hne := Path.normalize_ne_empty (Path.join baseUrl (fillStar target capture))
  unfold Probe.decision?
  rcases noFile_or_firstFile d (Path.normalize (Path.join baseUrl (fillStar target capture))) with hnone | ⟨x, hx⟩
  · rw [probe_of_noFile hnone hne]
  · have hvendor : inVendorDirectory x.path = true := by
      by_contra hout
      exact h x ⟨fillStar target capture, filled_iff.mpr rfl, hx, by simpa using hout⟩
    rw [(probe_of_firstFile hx hne).1]
    simp only [hvendor, if_true]

theorem decision?_of_decides {x : Candidate} (hx : Decides d baseUrl capture target x) :
    (probe d (Path.normalize (Path.join baseUrl (fillStar target capture)))).decision? d reference =
      some (if x.isAsset then (.external, assetFailure reference) else (.alias, .file (d.real x.path))) := by
  obtain ⟨filled, hfilled, hfirst, hvendor⟩ := hx
  rw [filled_iff.mp hfilled] at hfirst
  obtain ⟨hfound, hasset⟩ := probe_of_firstFile hfirst (Path.normalize_ne_empty _)
  unfold Probe.decision?
  rw [hfound, hasset]
  simp only [hvendor, Bool.false_eq_true, if_false]
  split <;> rfl

theorem resolveTargets_of_none {targets : List String} (h : ∀ t ∈ targets, ∀ y, ¬ Decides d baseUrl capture t y)
    (tests : Nat) : (resolveTargets d baseUrl reference capture tests targets).1 = none := by
  induction targets generalizing tests with
  | nil => rfl
  | cons first rest ih =>
    rw [List.forall_mem_cons] at h
    rw [resolveTargets, decision?_of_not_decides h.1]
    exact ih h.2 _

/-- The first target that decides gives the answer. -/
theorem resolveTargets_of_decides {before after : List String} {x : Candidate}
    (hbefore : ∀ t ∈ before, ∀ y, ¬ Decides d baseUrl capture t y) (hx : Decides d baseUrl capture target x)
    (tests : Nat) : (resolveTargets d baseUrl reference capture tests (before ++ target :: after)).1 =
      some (if x.isAsset then (.external, assetFailure reference) else (.alias, .file (d.real x.path))) := by
  induction before generalizing tests with
  | nil =>
    rw [List.nil_append, resolveTargets, decision?_of_decides hx]
    rfl
  | cons first rest ih =>
    rw [List.forall_mem_cons] at hbefore
    rw [List.cons_append, resolveTargets, decision?_of_not_decides hbefore.1]
    exact ih hbefore.2 _

end Targets

theorem exists_resolves_of_relative (h : isRelative reference = true) :
    ∃ strategy verdict, Resolves d config reference file strategy verdict := by
  rcases noFile_or_firstFile d (beside file reference) with hnone | ⟨x, hx⟩
  · exact ⟨_, _, .lost h hnone⟩
  · cases hvendor : inVendorDirectory x.path with
    | true => exact ⟨_, _, .vendor h hx hvendor⟩
    | false =>
      cases hasset : x.isAsset with
      | true => exact ⟨_, _, .asset h hx hvendor hasset⟩
      | false => exact ⟨_, _, .found h hx hvendor hasset⟩

theorem exists_resolves_of_match (h : isRelative reference = false) {c : CompilerPaths} (hc : config = some c)
    {m : AliasMatch} (hm : matchAlias? reference (c.paths.map (·.1)) = some m) :
    ∃ strategy verdict, Resolves d config reference file strategy verdict := by
  obtain ⟨targets, htargets⟩ := exists_lookup_of_matchAlias? hm
  rcases exists_first_decides d c.baseUrl m.capture targets with hnone | ⟨before, target, after, rfl, hbefore, x, hx⟩
  · exact ⟨_, _, .unmapped h hc hm htargets hnone⟩
  · cases hasset : x.isAsset with
    | true => exact ⟨_, _, .aliasedAsset h hc hm htargets hbefore hx hasset⟩
    | false => exact ⟨_, _, .aliased h hc hm htargets hbefore hx hasset⟩

/-- Something becomes of every reference. -/
theorem exists_resolves (d : Disk) (config : Option CompilerPaths) (reference file : String) :
    ∃ strategy verdict, Resolves d config reference file strategy verdict := by
  cases hrelative : isRelative reference with
  | true => exact exists_resolves_of_relative hrelative
  | false =>
    by_cases h : ∀ c, config = some c → matchAlias? reference (c.paths.map (·.1)) = none
    · exact ⟨_, _, .external hrelative h⟩
    · push Not at h
      obtain ⟨c, hc, hm⟩ := h
      obtain ⟨m, hm⟩ := Option.ne_none_iff_exists'.mp hm
      exact exists_resolves_of_match hrelative hc hm

/-- The answer to a reference under an alias table. -/
def answerUnder (d : Disk) (config : Option CompilerPaths) (reference file : String) : Resolution :=
  if isRelative reference then (resolveRelative d reference file).1 else (resolveAlias d config reference file).1

variable (config) in
theorem answerUnder_of_noFile (hrelative : isRelative reference = true) (h : NoFile d (beside file reference)) :
    ∃ detail, answerUnder d config reference file = ⟨reference, file, .relative, .failure .relativeFailed detail⟩ := by
  have hfound := probe_of_noFile h (Path.normalize_ne_empty _)
  rw [beside] at hfound
  rw [answerUnder, if_pos hrelative, resolveRelative]
  simp only [hfound]
  exact ⟨_, rfl⟩

variable (config) in
theorem answerUnder_of_firstFile (hrelative : isRelative reference = true) {x : Candidate}
    (h : FirstFile d (beside file reference) x) :
    ∃ detail, answerUnder d config reference file =
      if inVendorDirectory x.path then ⟨reference, file, .external, .failure .vendor detail⟩
      else if x.isAsset then ⟨reference, file, .external, assetFailure reference⟩
      else ⟨reference, file, .relative, .file (d.real x.path)⟩ := by
  obtain ⟨hfound, hasset⟩ := probe_of_firstFile h (Path.normalize_ne_empty _)
  rw [beside] at hfound hasset
  rw [answerUnder, if_pos hrelative, resolveRelative]
  simp only [hfound, hasset]
  refine ⟨"Relative path resolved into node_modules", ?_⟩
  split
  · rfl
  · split <;> rfl

theorem answerUnder_of_no_match (hrelative : isRelative reference = false)
    (h : ∀ c, config = some c → matchAlias? reference (c.paths.map (·.1)) = none) :
    answerUnder d config reference file = ⟨reference, file, .external, externalFailure⟩ := by
  rw [answerUnder, if_neg (by simp [hrelative])]
  unfold resolveAlias
  cases config with
  | none => rfl
  | some c => simp only [h c rfl]

variable (d file) in
theorem answerUnder_of_match (hrelative : isRelative reference = false) {c : CompilerPaths} (hc : config = some c)
    {m : AliasMatch} (hm : matchAlias? reference (c.paths.map (·.1)) = some m) {targets : List String}
    (htargets : c.paths.lookup m.key = some targets) :
    ∃ detail, answerUnder d config reference file =
      match (resolveTargets d c.baseUrl reference m.capture 0 targets).1 with
      | some (strategy, destination) => ⟨reference, file, strategy, destination⟩
      | none => ⟨reference, file, .alias, .failure .aliasFailed detail⟩ := by
  rw [answerUnder, if_neg (by simp [hrelative]), hc]
  unfold resolveAlias
  simp only [hm, htargets, Option.getD_some]
  rcases resolveTargets d c.baseUrl reference m.capture 0 targets with ⟨_ | answer, tests⟩
  · exact ⟨_, rfl⟩
  · exact ⟨"", rfl⟩

/-- What becomes of a reference is what the answer says. -/
theorem Resolves.answered {strategy : Strategy} {verdict : Except FailureReason String}
    (h : Resolves d config reference file strategy verdict) :
    ∃ destination, answerUnder d config reference file = ⟨reference, file, strategy, destination⟩ ∧
      destination.verdict = verdict := by
  cases h with
  | lost hrelative hnone =>
    obtain ⟨detail, hanswer⟩ := answerUnder_of_noFile config hrelative hnone
    exact ⟨_, hanswer, rfl⟩
  | vendor hrelative hx hvendor =>
    obtain ⟨detail, hanswer⟩ := answerUnder_of_firstFile config hrelative hx
    rw [if_pos hvendor] at hanswer
    exact ⟨_, hanswer, rfl⟩
  | asset hrelative hx hvendor hasset =>
    obtain ⟨detail, hanswer⟩ := answerUnder_of_firstFile config hrelative hx
    rw [if_neg (by simp [hvendor]), if_pos hasset] at hanswer
    exact ⟨_, hanswer, rfl⟩
  | found hrelative hx hvendor hasset =>
    obtain ⟨detail, hanswer⟩ := answerUnder_of_firstFile config hrelative hx
    rw [if_neg (by simp [hvendor]), if_neg (by simp [hasset])] at hanswer
    exact ⟨_, hanswer, rfl⟩
  | external hrelative hno => exact ⟨_, answerUnder_of_no_match hrelative hno, rfl⟩
  | aliasedAsset hrelative hc hm htargets hbefore hx hasset =>
    obtain ⟨detail, hanswer⟩ := answerUnder_of_match d file hrelative hc hm htargets
    rw [resolveTargets_of_decides hbefore hx, if_pos hasset] at hanswer
    exact ⟨_, hanswer, rfl⟩
  | aliased hrelative hc hm htargets hbefore hx hasset =>
    obtain ⟨detail, hanswer⟩ := answerUnder_of_match d file hrelative hc hm htargets
    rw [resolveTargets_of_decides hbefore hx, if_neg (by simp [hasset])] at hanswer
    exact ⟨_, hanswer, rfl⟩
  | unmapped hrelative hc hm htargets hnone =>
    obtain ⟨detail, hanswer⟩ := answerUnder_of_match d file hrelative hc hm htargets
    rw [resolveTargets_of_none hnone] at hanswer
    exact ⟨_, hanswer, rfl⟩

/-- A new resolver answers from the tree and the alias table. -/
theorem resolve_ofRoot (root : String) (configs : ConfigCache) (d : Disk) (reference file : String) :
    ((Resolver.ofRoot root configs).resolve d reference file).1 =
      answerUnder d (configs.get d (Path.normalize root)).1 reference file := by
  unfold Resolver.resolve Resolver.search answerUnder
  simp only [Resolver.ofRoot, List.lookup_nil]
  split <;> rfl

end Resolution

/-- **Resolution follows its rule.** What becomes of a reference by the rule, under the alias table of the project, is
what a new resolver answers, and nothing else is. -/
theorem resolves_iff_resolve (root : String) (configs : ConfigCache) (d : Disk) (reference file : String)
    (strategy : Strategy) (verdict : Except FailureReason String) :
    Resolves d (configs.get d (Path.normalize root)).1 reference file strategy verdict ↔
      ∃ destination, ((Resolver.ofRoot root configs).resolve d reference file).1 =
        ⟨reference, file, strategy, destination⟩ ∧ destination.verdict = verdict := by
  rw [resolve_ofRoot]
  constructor
  · exact Resolves.answered
  · rintro ⟨destination, hanswer, rfl⟩
    obtain ⟨strategy', verdict', h⟩ := exists_resolves d (configs.get d (Path.normalize root)).1 reference file
    obtain ⟨destination', hanswer', rfl⟩ := h.answered
    rw [hanswer', Resolution.mk.injEq] at hanswer
    obtain ⟨-, -, rfl, rfl⟩ := hanswer
    exact h

/-- A directory with a file, a directory and a module that share a name. -/
def crowdedDisk : Disk :=
  ⟨.directory [("proj", .directory [("a.ts", .file .empty 0), ("x", .directory [("index.ts", .file .empty 0)]),
    ("x.tsx", .file .empty 0), ("y.js", .directory [("index.jsx", .file .empty 0)]), ("y", .file .empty 0)])], "/proj"⟩

-- A module comes before the index file of a directory of its name.
example : ((Resolver.ofRoot "/proj" {}).resolve crowdedDisk "./x.js" "/proj/a.ts").1.path? = some "/proj/x.tsx" := by
  decide +kernel

-- A directory may carry the extension of a source file.
example : ((Resolver.ofRoot "/proj" {}).resolve crowdedDisk "./y.js" "/proj/a.ts").1.path? =
    some "/proj/y.js/index.jsx" := by
  decide +kernel

end ExportAudit
