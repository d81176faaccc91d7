import Mathlib
import ExportAudit.Proofs.RootedSearch

/-!
# Chains of configuration files

A configuration file may extend another one, and so on. Reading it follows a chain of at most ten different files
(`ExtendsChain`) and takes each option from the nearest file that gives it (`NearestWins`), whatever the chain looks like:
it may be circular, end in a file that is not there, or go on for longer (`readCompilerPaths_follows_chain`).

- `followed` are the paths of the chain, cut where it closes and where it is too long; the chain is read exactly if each of
  them can be (`configChain_of_loads`, `configChain_of_fault`).
- The options are collected from the last file to the first, so the first file that gives one has the last word
  (`ChainOptions.baseUrl_ofChain`, `ChainOptions.paths_ofChain`).
- Without a base directory the targets of aliases are seen from the directory of the file with the aliases, unless the path
  of that file has no directory in it: then they are seen from the directory of the first file
  (`relative_aliases_misplaced`). That cannot happen to absolute paths.
-/

namespace ExportAudit

/-! ## What a file says -/

/-- The texts of a list, in order. -/
inductive Texts : List Value → List String → Prop
  | nil : Texts [] []
  | keep (s : String) {items : List Value} {texts : List String} : Texts items texts → Texts (.text s :: items) (s :: texts)
  | drop {v : Value} {items : List Value} {texts : List String} :
      (∀ s, v ≠ .text s) → Texts items texts → Texts (v :: items) texts

/-- The aliases among the entries of an object, in order: those whose value is a list, with the texts in it. -/
inductive Cleaned : List (Value × Value) → List (String × List String) → Prop
  | nil : Cleaned [] []
  | keep (key : String) {targets : List Value} {texts : List String} {entries : List (Value × Value)}
      {table : List (String × List String)} :
      Texts targets texts → Cleaned entries table → Cleaned ((.text key, .list targets) :: entries) ((key, texts) :: table)
  | drop {e : Value × Value} {entries : List (Value × Value)} {table : List (String × List String)} :
      (∀ key targets, e ≠ (.text key, .list targets)) → Cleaned entries table → Cleaned (e :: entries) table

theorem texts_textsOf (items : List Value) : Texts items (textsOf items) := by
  induction items with
  | nil => exact .nil
  | cons v items ih =>
    cases v with
    | text s => exact .keep s ih
    | _ => exact .drop (fun s => by simp) ih

namespace ConfigFile

/-- A file names the file that it extends: by a text, or by the last item of a list. -/
def Names (f : ConfigFile) (spec : String) : Prop :=
  f.entry? "extends" = some (.text spec) ∨
    ∃ items : List Value, f.entry? "extends" = some (.list items) ∧ items.getLast? = some (.text spec)

/-- The options of a file are an object with this value. -/
def Gives (f : ConfigFile) (name : String) (v : Value) : Prop :=
  ∃ options, f.entry? "compilerOptions" = some (.map options) ∧ (Value.map options).field? name = some v

/-- The options of a file have a text as the base directory. -/
def GivesBase (f : ConfigFile) : Prop := ∃ url, f.Gives "baseUrl" (.text url)

/-- The options of a file have an object as the aliases. -/
def GivesAliases (f : ConfigFile) : Prop := ∃ entries, f.Gives "paths" (.map entries)

variable {f : ConfigFile}

theorem extended?_eq_some_iff {spec : String} : f.extended? = some spec ↔ f.Names spec := by
  unfold extended? Names
  cases f.entry? "extends" with
  | none => simp
  | some v =>
    cases v with
    | text s => simp
    | list items =>
      simp only [Option.some.injEq, Value.list.injEq, reduceCtorEq, false_or]
      constructor
      · intro h
        refine ⟨items, rfl, ?_⟩
        split at h
        · rename_i s hlast
          rw [hlast, Option.some.inj h]
        · cases h
      · rintro ⟨_, rfl, hlast⟩
        rw [hlast]
    | _ => simp

theorem field?_options_eq_some_iff {name : String} {v : Value} : f.options.field? name = some v ↔ f.Gives name v := by
  unfold options Gives
  cases f.entry? "compilerOptions" with
  | none => simp [Value.field?]
  | some o =>
    cases o with
    | map entries => simp
    | _ => simp [Value.field?]

theorem baseUrl?_of_gives {url : String} (h : f.Gives "baseUrl" (.text url)) :
    f.baseUrl? = some (Path.normalize (Path.join (Path.dirname f.path) url)) := by
  rw [baseUrl?, field?_options_eq_some_iff.mpr h]

theorem baseUrl?_eq_none_iff : f.baseUrl? = none ↔ ¬ f.GivesBase := by
  constructor
  · rintro h ⟨url, hurl⟩
    rw [baseUrl?_of_gives hurl] at h
    cases h
  · intro h
    unfold baseUrl?
    split
    · rename_i url hurl
      exact absurd ⟨url, field?_options_eq_some_iff.mp hurl⟩ h
    · rfl

theorem exists_cleaned_of_gives {entries : List (Value × Value)} (h : f.Gives "paths" (.map entries)) :
    ∃ table, f.paths? = some table ∧ Cleaned entries table := by
  rw [paths?, field?_options_eq_some_iff.mpr h]
  refine ⟨_, rfl, ?_⟩
  clear h
  induction entries with
  | nil => exact .nil
  | cons e entries ih =>
    rw [List.filterMap_cons]
    split
    · rename_i hnone
      refine .drop (fun key targets he => ?_) ih
      rw [he] at hnone
      cases hnone
    · rename_i a hsome
      split at hsome
      · rw [← Option.some.inj hsome]
        exact .keep _ (texts_textsOf _) ih
      · cases hsome

theorem isSome_paths?_iff : f.paths?.isSome = true ↔ f.GivesAliases := by
  constructor
  · intro h
    unfold paths? at h
    split at h
    · rename_i entries hentries
      exact ⟨entries, field?_options_eq_some_iff.mp hentries⟩
    · cases h
  · rintro ⟨entries, h⟩
    obtain ⟨table, htable, -⟩ := exists_cleaned_of_gives h
    rw [htable, Option.isSome_some]

end ConfigFile

/-! ## The chain -/

/-- One configuration file extends another: it can be read, names a file, and the name leads to that file. -/
def Extends (d : Disk) (root a b : String) : Prop :=
  ∃ entries spec, loadCommented d a = .ok entries ∧ ConfigFile.Names ⟨a, entries⟩ spec ∧
    findExtended? d spec (Path.dirname a) root = some b

/-- The chain of paths that begins at a configuration file. -/
structure ExtendsChain (d : Disk) (root configFile : String) (chain : List String) : Prop where
  begins : chain.head? = some configFile
  linked : chain.IsChain (Extends d root)
  distinct : chain.Nodup
  bounded : chain.length ≤ 10
  /-- It goes on as long as it can: up to ten files, a file that extends none, or one that extends a file before it. -/
  ended : chain.length = 10 ∨ ∀ last ∈ chain.getLast?, ∀ next, Extends d root last next → next ∈ chain

/-- The file that a configuration file extends, if there is one. -/
def nextConfig? (d : Disk) (root path : String) : Option String :=
  (loadCommented d path).toOption.bind fun entries =>
    (ConfigFile.mk path entries).extended?.bind fun spec => findExtended? d spec (Path.dirname path) root

/-- The paths that are followed from `current` on, at most `n` of them and none of `seen`. -/
def followed (d : Disk) (root : String) : Nat → List String → String → List String
  | 0, _, _ => []
  | n + 1, seen, current =>
    if current ∈ seen then []
    else current :: (nextConfig? d root current).elim [] (followed d root n (current :: seen))

section Following

variable {d : Disk} {root current next : String} {seen : List String} {n : Nat}

theorem extends_iff : Extends d root current next ↔ nextConfig? d root current = some next := by
  unfold Extends nextConfig?
  cases hload : loadCommented d current with
  | error fault => simp [Except.toOption]
  | ok entries =>
    simp only [Except.toOption, Option.bind_some, Option.bind_eq_some_iff, ConfigFile.extended?_eq_some_iff,
      Except.ok.injEq, exists_and_left, exists_eq_left']

theorem followed_of_mem (h : current ∈ seen) : followed d root (n + 1) seen current = [] := by
  rw [followed, if_pos h]

theorem followed_of_last (h : current ∉ seen) (hnext : nextConfig? d root current = none) :
    followed d root (n + 1) seen current = [current] := by
  rw [followed, if_neg h, hnext, Option.elim_none]

theorem followed_of_next (h : current ∉ seen) (hnext : nextConfig? d root current = some next) :
    followed d root (n + 1) seen current = current :: followed d root n (current :: seen) next := by
  rw [followed, if_neg h, hnext, Option.elim_some]

theorem followed_eq_nil_iff : followed d root n seen current = [] ↔ n = 0 ∨ current ∈ seen := by
  cases n with
  | zero => simp [followed]
  | succ n => simp [followed]

theorem head_of_mem_head?_followed {c : String} (h : c ∈ (followed d root n seen current).head?) : c = current := by
  cases n with
  | zero => cases h
  | succ n =>
    rw [followed] at h
    split at h
    · cases h
    · exact (Option.some.inj h).symm

/-- The paths differ from those already seen and from one another, each extends the next, and there are not too many. -/
theorem followed_spec (d : Disk) (root : String) (n : Nat) (seen : List String) (current : String) :
    (∀ c ∈ followed d root n seen current, c ∉ seen) ∧ (followed d root n seen current).Nodup ∧
      (followed d root n seen current).IsChain (Extends d root) ∧ (followed d root n seen current).length ≤ n := by
  induction n generalizing seen current with
  | zero => simp [followed]
  | succ n ih =>
    by_cases hseen : current ∈ seen
    · simp [followed_of_mem hseen]
    · cases hnext : nextConfig? d root current with
      | none => simp [followed_of_last hseen hnext, hseen]
      | some next =>
        obtain ⟨hnew, hnodup, hchain, hlength⟩ := ih (current :: seen) next
        rw [followed_of_next hseen hnext]
        refine ⟨?_, ?_, ?_, ?_⟩
        · intro c hc
          rcases List.mem_cons.mp hc with rfl | hc
          · exact hseen
          · exact fun hold => hnew c hc (List.mem_cons_of_mem _ hold)
        · exact List.nodup_cons.mpr ⟨fun hc => hnew current hc List.mem_cons_self, hnodup⟩
        · refine List.isChain_cons.mpr ⟨fun c hc => ?_, hchain⟩
          rw [head_of_mem_head?_followed hc]
          exact extends_iff.mpr hnext
        · rw [List.length_cons]
          omega

/-- The chain is cut short only where it cannot go on, or would come back to a file. -/
theorem followed_ended (n : Nat) (seen : List String) (current : String) :
    (followed d root n seen current).length = n ∨ ∀ last ∈ (followed d root n seen current).getLast?,
      ∀ next, Extends d root last next → next ∈ seen ∨ next ∈ followed d root n seen current := by
  induction n generalizing seen current with
  | zero => exact Or.inl rfl
  | succ n ih =>
    by_cases hseen : current ∈ seen
    · exact Or.inr (by simp [followed_of_mem hseen])
    · cases hnext : nextConfig? d root current with
      | none =>
        refine Or.inr fun last hlast next hextends => ?_
        rw [followed_of_last hseen hnext] at hlast
        obtain rfl : current = last := Option.some.inj hlast
        rw [extends_iff, hnext] at hextends
        cases hextends
      | some next =>
        rw [followed_of_next hseen hnext]
        cases hrest : followed d root n (current :: seen) next with
        | nil =>
          rcases followed_eq_nil_iff.mp hrest with rfl | hclosed
          · exact Or.inl rfl
          · refine Or.inr fun last hlast after hextends => ?_
            obtain rfl : current = last := Option.some.inj hlast
            obtain rfl : next = after := Option.some.inj (hnext.symm.trans (extends_iff.mp hextends))
            exact (List.mem_cons.mp hclosed).symm.imp_right List.mem_singleton.mpr
        | cons c rest =>
          rcases ih (current :: seen) next with hfull | hended
          · exact Or.inl (by rw [List.length_cons, ← hrest, hfull])
          · refine Or.inr fun last hlast after hextends => ?_
            rw [List.getLast?_cons_cons, ← hrest] at hlast
            rcases hended last hlast after hextends with hold | hmem
            · rcases List.mem_cons.mp hold with rfl | hold
              · exact Or.inr List.mem_cons_self
              · exact Or.inl hold
            · exact Or.inr (List.mem_cons_of_mem _ (hrest ▸ hmem))

/-- The paths that are followed from a file on are its chain. -/
theorem extendsChain_followed (d : Disk) (root configFile : String) :
    ExtendsChain d root configFile (followed d root maxChain [] configFile) := by
  obtain ⟨-, hnodup, hchain, hlength⟩ := followed_spec d root maxChain [] configFile
  refine ⟨?_, hchain, hnodup, hlength, ?_⟩
  · rw [maxChain, followed, if_neg List.not_mem_nil, List.head?_cons]
  · refine (followed_ended maxChain [] configFile).imp_right fun hended last hlast next hextends => ?_
    exact (hended last hlast next hextends).resolve_left List.not_mem_nil

/-! ## Reading the chain -/

theorem configChain_of_mem (d : Disk) (root : String) (n : Nat) (h : current ∈ seen) :
    ∃ notes, configChain d root (n + 1) seen current = .ok ([], notes) := by
  rw [configChain, if_pos (by simpa using h)]
  exact ⟨_, rfl⟩

theorem configChain_of_error {fault : ConfigFault} (h : current ∉ seen) (hload : loadCommented d current = .error fault) :
    configChain d root (n + 1) seen current = .error fault := by
  rw [configChain, if_neg (by simpa using h), hload]
  rfl

theorem configChain_of_last {entries : List (Value × Value)} (h : current ∉ seen)
    (hload : loadCommented d current = .ok entries) (hnext : nextConfig? d root current = none) :
    ∃ notes, configChain d root (n + 1) seen current = .ok ([⟨current, entries⟩], notes) := by
  rw [configChain, if_neg (by simpa using h), hload]
  simp only [nextConfig?, hload, Except.toOption, Option.bind_some] at hnext
  simp only [bind, Except.bind, pure, Except.pure]
  cases hspec : (ConfigFile.mk current entries).extended? with
  | none => exact ⟨_, rfl⟩
  | some spec =>
    rw [hspec, Option.bind_some] at hnext
    simp only [hnext]
    exact ⟨_, rfl⟩

theorem configChain_of_next {entries : List (Value × Value)} (h : current ∉ seen)
    (hload : loadCommented d current = .ok entries) (hnext : nextConfig? d root current = some next) :
    configChain d root (n + 1) seen current =
      (configChain d root n (current :: seen) next).map fun read => (⟨current, entries⟩ :: read.1, read.2) := by
  rw [configChain, if_neg (by simpa using h), hload]
  simp only [nextConfig?, hload, Except.toOption, Option.bind_some, Option.bind_eq_some_iff] at hnext
  obtain ⟨spec, hspec, hfound⟩ := hnext
  simp only [bind, Except.bind, pure, Except.pure, hspec, hfound]
  cases configChain d root n (current :: seen) next <;> rfl

/-- If every path can be read, the chain is what is read from them. -/
theorem configChain_of_loads (n : Nat) (seen : List String) (current : String)
    (h : ∀ c ∈ followed d root n seen current, ∃ entries, loadCommented d c = .ok entries) :
    ∃ files notes, configChain d root n seen current = .ok (files, notes) ∧
      files.map (·.path) = followed d root n seen current ∧ ∀ f ∈ files, loadCommented d f.path = .ok f.entries := by
  induction n generalizing seen current with
  | zero => exact ⟨[], [], rfl, rfl, by simp⟩
  | succ n ih =>
    by_cases hseen : current ∈ seen
    · obtain ⟨notes, hread⟩ := configChain_of_mem d root n hseen
      exact ⟨[], notes, hread, by rw [followed_of_mem hseen, List.map_nil], by simp⟩
    · cases hnext : nextConfig? d root current with
      | none =>
        rw [followed_of_last hseen hnext] at h ⊢
        obtain ⟨entries, hload⟩ := h current List.mem_cons_self
        obtain ⟨notes, hread⟩ := configChain_of_last (n := n) hseen hload hnext
        exact ⟨_, notes, hread, rfl, by simpa using hload⟩
      | some next =>
        rw [followed_of_next hseen hnext] at h ⊢
        obtain ⟨entries, hload⟩ := h current List.mem_cons_self
        obtain ⟨files, notes, hread, hpaths, hloaded⟩ := ih _ _ fun c hc => h c (List.mem_cons_of_mem _ hc)
        refine ⟨⟨current, entries⟩ :: files, notes, ?_, ?_, List.forall_mem_cons.mpr ⟨hload, hloaded⟩⟩
        · rw [configChain_of_next hseen hload hnext, hread]
          rfl
        · rw [List.map_cons, hpaths]

/-- If one of them cannot be read, nor can the chain. -/
theorem configChain_of_fault (n : Nat) (seen : List String) (current : String) {c : String} {fault : ConfigFault}
    (hc : c ∈ followed d root n seen current) (hfault : loadCommented d c = .error fault) :
    configChain d root n seen current = .error fault := by
  induction n generalizing seen current with
  | zero => cases hc
  | succ n ih =>
    have hseen : current ∉ seen := fun h => by simp [followed_of_mem h] at hc
    cases hload : loadCommented d current with
    | error fault' =>
      have hnext : nextConfig? d root current = none := by rw [nextConfig?, hload]; rfl
      rw [followed_of_last hseen hnext, List.mem_singleton] at hc
      rw [hc, hload] at hfault
      rw [configChain_of_error hseen hload, Except.error.inj hfault]
    | ok entries =>
      have hne : c ≠ current := fun h => by simp [h, hload] at hfault
      cases hnext : nextConfig? d root current with
      | none =>
        rw [followed_of_last hseen hnext, List.mem_singleton] at hc
        exact absurd hc hne
      | some next =>
        rw [followed_of_next hseen hnext, List.mem_cons] at hc
        rw [configChain_of_next hseen hload hnext, ih _ _ (hc.resolve_left hne)]
        rfl

end Following

/-! ## The table -/

/-- The first of some files with a property. -/
def IsFirst (p : ConfigFile → Prop) (files : List ConfigFile) (f : ConfigFile) : Prop :=
  ∃ before after, files = before ++ f :: after ∧ p f ∧ ∀ g ∈ before, ¬ p g

/-- How the table of a configuration file comes from the files of its chain. -/
structure NearestWins (configFile : String) (files : List ConfigFile) (table : CompilerPaths) : Prop where
  source : table.configFile = configFile
  /-- The base directory is that of the first file with one, seen from the directory of that file. -/
  base : ∀ f url, IsFirst ConfigFile.GivesBase files f → f.Gives "baseUrl" (.text url) →
    table.baseUrl = Path.normalize (Path.join (Path.dirname f.path) url)
  /-- The aliases are those of the first file with some, whichever file gives the base directory. -/
  aliases : ∀ f entries, IsFirst ConfigFile.GivesAliases files f → f.Gives "paths" (.map entries) →
    Cleaned entries table.paths
  noAliases : (∀ f ∈ files, ¬ f.GivesAliases) → table.paths = []
  /-- Without a base directory targets are seen from the directory of the file with the aliases, if its path has one. -/
  aliasDirectory : (∀ f ∈ files, ¬ f.GivesBase) → ∀ f, IsFirst ConfigFile.GivesAliases files f →
    Path.dirname f.path ≠ "" → table.baseUrl = Path.dirname f.path
  /-- Otherwise, and without aliases, they are seen from the directory of the first file. -/
  ownDirectory : (∀ f ∈ files, ¬ f.GivesBase) →
    (∀ f, IsFirst ConfigFile.GivesAliases files f → Path.dirname f.path = "") → table.baseUrl = Path.dirname configFile

section Table

variable {files : List ConfigFile} {f : ConfigFile}

theorem findSome?_baseUrl?_eq_none (h : ∀ f ∈ files, ¬ f.GivesBase) : files.findSome? ConfigFile.baseUrl? = none := by
  rw [List.findSome?_eq_none_iff]
  exact fun f hf => ConfigFile.baseUrl?_eq_none_iff.mpr (h f hf)

theorem findSome?_paths?_eq_none (h : ∀ f ∈ files, ¬ f.GivesAliases) : files.findSome? ConfigFile.paths? = none := by
  rw [List.findSome?_eq_none_iff]
  intro f hf
  rw [← Option.not_isSome_iff_eq_none, ConfigFile.isSome_paths?_iff]
  exact h f hf

theorem find?_isSome_paths?_eq_some_iff :
    files.find? (·.paths?.isSome) = some f ↔ IsFirst ConfigFile.GivesAliases files f := by
  rw [List.find?_eq_some_iff_append]
  constructor
  · rintro ⟨hf, before, after, hfiles, hbefore⟩
    refine ⟨before, after, hfiles, ConfigFile.isSome_paths?_iff.mp hf, fun g hg hgives => ?_⟩
    have hnot := hbefore g hg
    rw [ConfigFile.isSome_paths?_iff.mpr hgives] at hnot
    cases hnot
  · rintro ⟨before, after, hfiles, hf, hbefore⟩
    refine ⟨ConfigFile.isSome_paths?_iff.mpr hf, before, after, hfiles, fun g hg => ?_⟩
    rw [Bool.not_eq_true', ← Bool.not_eq_true, ConfigFile.isSome_paths?_iff]
    exact hbefore g hg

theorem nearestWins_ofChain (configFile : String) (files : List ConfigFile) :
    NearestWins configFile files (CompilerPaths.ofChain configFile files) := by
  constructor
  · rfl
  · rintro f url ⟨before, after, rfl, -, hbefore⟩ hurl
    have hfirst : (before ++ f :: after).findSome? ConfigFile.baseUrl? = f.baseUrl? := by
      rw [List.findSome?_append, findSome?_baseUrl?_eq_none hbefore, Option.none_or, List.findSome?_cons,
        ConfigFile.baseUrl?_of_gives hurl]
    rw [CompilerPaths.ofChain]
    simp only [ChainOptions.baseUrl_ofChain, hfirst, ConfigFile.baseUrl?_of_gives hurl, Option.getD_some]
  · rintro f entries ⟨before, after, rfl, -, hbefore⟩ hentries
    obtain ⟨table, htable, hcleaned⟩ := ConfigFile.exists_cleaned_of_gives hentries
    rw [CompilerPaths.ofChain]
    simp only [ChainOptions.paths_ofChain, List.findSome?_append, findSome?_paths?_eq_none hbefore, Option.none_or,
      List.findSome?_cons, htable, Option.getD_some]
    exact hcleaned
  · intro hnone
    rw [CompilerPaths.ofChain]
    simp only [ChainOptions.paths_ofChain, findSome?_paths?_eq_none hnone, Option.getD_none]
  · intro hbase f hfirst hdirectory
    rw [CompilerPaths.ofChain]
    simp only [ChainOptions.baseUrl_ofChain, ChainOptions.aliasDirectory_ofChain, findSome?_baseUrl?_eq_none hbase,
      find?_isSome_paths?_eq_some_iff.mpr hfirst, Option.map_some, Option.getD_none]
    rw [Option.filter_some, if_pos (bne_iff_ne.mpr hdirectory), Option.getD_some]
  · intro hbase hempty
    rw [CompilerPaths.ofChain]
    simp only [ChainOptions.baseUrl_ofChain, ChainOptions.aliasDirectory_ofChain, findSome?_baseUrl?_eq_none hbase,
      Option.getD_none]
    cases hfind : files.find? (·.paths?.isSome) with
    | none => rfl
    | some f =>
      rw [Option.map_some, hempty f (find?_isSome_paths?_eq_some_iff.mp hfind)]
      rfl

end Table

/-- **Reading a configuration file follows its chain, and the nearest file wins.** The paths of the chain have a
directory in them if the file and the root are absolute. -/
theorem readCompilerPaths_follows_chain (d : Disk) (configFile root : String) :
    ∃ chain, ExtendsChain d root configFile chain ∧
      (∀ c ∈ chain, ∀ fault, loadCommented d c = .error fault → readCompilerPaths d configFile root = .error fault) ∧
      ((∀ c ∈ chain, ∃ entries, loadCommented d c = .ok entries) →
        ∃ files table notes, readCompilerPaths d configFile root = .ok (table, notes) ∧ files.map (·.path) = chain ∧
          (∀ f ∈ files, loadCommented d f.path = .ok f.entries) ∧ NearestWins configFile files table ∧
          (Path.isAbsolute configFile = true → Path.isAbsolute root = true → ∀ f ∈ files, Path.dirname f.path ≠ "")) := by
  refine ⟨_, extendsChain_followed d root configFile, fun c hc fault hfault => ?_, fun hloads => ?_⟩
  · rw [readCompilerPaths, configChain_of_fault maxChain [] configFile hc hfault]
    rfl
  · obtain ⟨files, notes, hread, hpaths, hloaded⟩ := configChain_of_loads maxChain [] configFile hloads
    refine ⟨files, _, _, by rw [readCompilerPaths, hread]; rfl, hpaths, hloaded, nearestWins_ofChain configFile files, ?_⟩
    intro hfile hroot f hf
    have habsolute := isAbsolute_of_mem_configChain hroot hfile hread f hf
    exact Path.ne_empty_of_isAbsolute (Path.isAbsolute_dirname habsolute)

/-! ## A path without a directory -/

theorem loadCommented_of_text {d : Disk} {path : String} {bytes : ByteArray} {text : List Char}
    {entries : List (Value × Value)} (hread : d.read path = .ok bytes) (hdecode : Text.decode? bytes = some text)
    (hvalue : commentedValue? text = some (.map entries)) : loadCommented d path = .ok entries := by
  rw [loadCommented, hread]
  simp only [bind, Except.bind, Except.mapError, hdecode, hvalue]

/-- The text of a file that extends one in the directory above. -/
def extendingText : String := "\x7b\"extends\": \"../base.json\"\x7d"

/-- The text of a file with aliases and no base directory. -/
def aliasText : String := "\x7b\"compilerOptions\": \x7b\"paths\": \x7b\"@/*\": [\"*\"]\x7d\x7d\x7d"

/-- A project in `sub`, seen from the directory above it, where the aliases are. -/
def relativeDisk : Disk :=
  ⟨.directory [("proj", .directory
    [("base.json", .file aliasText.toUTF8 0),
     ("sub", .directory [("tsconfig.json", .file extendingText.toUTF8 0)])])], "/proj"⟩

def extendingFile : ConfigFile := ⟨"sub/tsconfig.json", [(.text "extends", .text "../base.json")]⟩

def aliasFile : ConfigFile :=
  ⟨"base.json", [(.text "compilerOptions", .map [(.text "paths", .map [(.text "@/*", .list [.text "*"])])])]⟩

theorem load_extendingFile : loadCommented relativeDisk "sub/tsconfig.json" = .ok extendingFile.entries := by
  have hread : relativeDisk.read "sub/tsconfig.json" = .ok extendingText.toUTF8 := rfl
  have hdecode : Text.decode? extendingText.toUTF8 = some extendingText.toList := by cbv
  exact loadCommented_of_text hread hdecode (by cbv)

theorem load_aliasFile : loadCommented relativeDisk "base.json" = .ok aliasFile.entries := by
  have hread : relativeDisk.read "base.json" = .ok aliasText.toUTF8 := rfl
  have hdecode : Text.decode? aliasText.toUTF8 = some aliasText.toList := by cbv
  exact loadCommented_of_text hread hdecode (by cbv)

theorem nextConfig?_extendingFile : nextConfig? relativeDisk "sub" "sub/tsconfig.json" = some "base.json" := by
  have hname : ConfigFile.extended? ⟨"sub/tsconfig.json", extendingFile.entries⟩ = some "../base.json" := rfl
  rw [nextConfig?, load_extendingFile]
  simp only [Except.toOption, Option.bind_some, hname]
  decide +kernel

theorem nextConfig?_aliasFile : nextConfig? relativeDisk "sub" "base.json" = none := by
  rw [nextConfig?, load_aliasFile]
  rfl

/-- **Aliases of a file in the working directory are seen from elsewhere**: the path `base.json` has no directory in it. -/
theorem relative_aliases_misplaced : ¬ ∀ (d : Disk) (configFile root : String) (files : List ConfigFile)
    (table : CompilerPaths) (notes : List Note), ExtendsChain d root configFile (files.map (·.path)) →
      (∀ f ∈ files, loadCommented d f.path = .ok f.entries) →
      readCompilerPaths d configFile root = .ok (table, notes) → (∀ f ∈ files, ¬ f.GivesBase) →
      ∀ f, IsFirst ConfigFile.GivesAliases files f → table.baseUrl = Path.dirname f.path := by
  intro h
  have hne : "sub/tsconfig.json" ∉ ([] : List String) := List.not_mem_nil
  have hne' : "base.json" ∉ ["sub/tsconfig.json"] := by decide
  have hchain : ExtendsChain relativeDisk "sub" "sub/tsconfig.json" ["sub/tsconfig.json", "base.json"] := by
    have hfollowed := extendsChain_followed relativeDisk "sub" "sub/tsconfig.json"
    rwa [maxChain, followed_of_next hne nextConfig?_extendingFile, followed_of_last hne' nextConfig?_aliasFile]
      at hfollowed
  obtain ⟨notes, hlast⟩ := configChain_of_last (n := 8) hne' load_aliasFile nextConfig?_aliasFile
  have hread :
      configChain relativeDisk "sub" maxChain [] "sub/tsconfig.json" = .ok ([extendingFile, aliasFile], notes) := by
    rw [maxChain, configChain_of_next hne load_extendingFile nextConfig?_extendingFile, hlast]
    rfl
  have hbase : ∀ f ∈ [extendingFile, aliasFile], ¬ f.GivesBase := by
    simp only [List.forall_mem_cons, List.not_mem_nil, false_implies, implies_true, and_true]
    exact ⟨ConfigFile.baseUrl?_eq_none_iff.mp rfl, ConfigFile.baseUrl?_eq_none_iff.mp rfl⟩
  have hfirst : IsFirst ConfigFile.GivesAliases [extendingFile, aliasFile] aliasFile :=
    find?_isSome_paths?_eq_some_iff.mp rfl
  have hdirectory := h relativeDisk "sub/tsconfig.json" "sub" [extendingFile, aliasFile] _ _
    hchain (by simpa using ⟨load_extendingFile, load_aliasFile⟩) (by rw [readCompilerPaths, hread]; rfl) hbase
    aliasFile hfirst
  revert hdirectory
  decide +kernel

end ExportAudit
