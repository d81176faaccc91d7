import Mathlib
import ExportAudit.Extraction
import ExportAudit.Proofs.Classification
import ExportAudit.Proofs.ReaderResults

/-!
# Exported functions are exports

Exports and exported functions are read off the same statements by different rules: which declarations count, where the
name is looked for, what makes a default. Facts name the file that they are read from (`file_of_mem_exports`,
`file_of_mem_imports`), and every function that an export statement declares has an export of its name
(`exists_export_of_mem_functionsOf`), given that a value is exported with the word `default` only (`Tree.MarkedExports`).

So every server action and every hook of such a tree means one of its exports, and the rules that look for it find it
(`Reaches`, `FileFacts.CallablesReach`). The trees of texts are such trees (`Source.markedExports_parse`,
`callables_reach_exports`).
-/

namespace ExportAudit

open Source (Tree Kind)

variable {file : String} {isDefault : Bool} {line : Nat} {t decl : Tree} {e : Export}

/-! ## The files of facts -/

theorem file_namedExports (h : e ∈ namedExports file isDefault line decl) : e.file = file := by
  unfold namedExports at h
  grind

theorem file_plainExports (h : e ∈ plainExports file isDefault line decl) : e.file = file := by
  unfold plainExports at h
  split at h
  · obtain ⟨⟨name, d⟩, -, rfl⟩ := List.mem_map.mp h
    rfl
  · split at h
    · exact file_namedExports h
    · cases h

theorem file_declarationExports (h : e ∈ declarationExports file isDefault line decl) : e.file = file := by
  unfold declarationExports at h
  split at h
  · split at h
    · exact file_plainExports h
    · cases h
  · exact file_plainExports h

theorem file_clauseExports (h : e ∈ clauseExports file line t) : e.file = file := by
  unfold clauseExports at h
  split at h
  · split at h
    · rw [List.mem_singleton.mp h]
    · cases h
  · obtain ⟨spec, -, hspec⟩ := List.mem_filterMap.mp h
    unfold specifierExport? at hspec
    split at hspec
    · obtain ⟨name, -, rfl⟩ := Option.map_eq_some_iff.mp hspec
      rfl
    · cases hspec
  · cases h

theorem file_exportsOf (h : e ∈ exportsOf file t) : e.file = file := by
  unfold exportsOf at h
  split at h
  · exact file_declarationExports h
  · rw [List.mem_singleton.mp h]
  · obtain ⟨part, -, hpart⟩ := List.mem_flatMap.mp h
    exact file_clauseExports hpart

/-- An export names the file it is read from. -/
theorem file_of_mem_exports {tree : Tree} (h : e ∈ (FileFacts.ofTree file tree).exports) : e.file = file := by
  obtain ⟨own, hown, rfl⟩ := List.mem_map.mp h
  obtain ⟨statement, -, hstatement⟩ := List.mem_flatMap.mp hown
  exact (file_exportsOf hstatement : own.file = file)

theorem file_addSpecifier (i : Import) (spec : Tree) : (i.addSpecifier spec).file = i.file := by
  unfold Import.addSpecifier
  split <;> rfl

theorem file_addClausePart (i : Import) (part : Tree) : (i.addClausePart part).file = i.file := by
  unfold Import.addClausePart
  split
  · rfl
  · split <;> rfl
  · induction part.children using List.reverseRecOn with
    | nil => rfl
    | append_singleton specs spec ih => rw [List.foldl_append, List.foldl_cons, List.foldl_nil, file_addSpecifier, ih]
  · rfl

/-- An import names the file it is read from. -/
theorem file_of_mem_imports {tree : Tree} {i : Import} (h : i ∈ (FileFacts.ofTree file tree).imports) : i.file = file := by
  obtain ⟨statement, -, hstatement⟩ := List.mem_filterMap.mp h
  unfold importOf? at hstatement
  split at hstatement
  · cases hstatement
  · split at hstatement
    · rw [← Option.some.inj hstatement]
    · rename_i clause _
      rw [← Option.some.inj hstatement]
      induction clause.children using List.reverseRecOn with
      | nil => rfl
      | append_singleton parts part ih =>
        rw [List.foldl_append, List.foldl_cons, List.foldl_nil, file_addClausePart, ih]

/-! ## Functions and exports -/

/-- An export that a name in its file means: one of that name, or a default with that local name. -/
def Export.BearsName (e : Export) (name : String) : Prop :=
  e.isDefault = false ∧ e.name = name ∨ e.isDefault = true ∧ e.localName = some name

theorem not_variables_of_function {k : Kind} (h : isFunctionDeclaration k = true) :
    k ≠ .ambientDeclaration ∧ isVariables k = false ∧ isNamedDeclaration k = true ∧ isTypeDeclaration k = false := by
  rcases (by simpa [isFunctionDeclaration] using h : k = .functionDeclaration ∨ k = .generatorDeclaration) with rfl | rfl
  all_goals decide

theorem ne_ambient_of_variables {k : Kind} (h : isVariables k = true) : k ≠ .ambientDeclaration := by
  rintro rfl
  cases h

theorem valueName?_of_function {value : Tree} (h : isFunctionValue value.kind = true) :
    valueName? value = value.nameText? := by
  have hkind : value.kind ≠ .identifier := by
    intro heq
    rw [heq] at h
    cases h
  rw [valueName?, if_neg (by simpa using hkind), if_pos (by simp [h])]

/-- A declared function is exported under its name, or as the default. -/
theorem exists_export_of_function (hkind : isFunctionDeclaration decl.kind = true) {name : String}
    (hname : decl.nameText? = some name) (file : String) (isDefault : Bool) (line : Nat) :
    ∃ e ∈ declarationExports file isDefault line decl, e.BearsName name := by
  obtain ⟨hambient, hvariables, hnamed, htype⟩ := not_variables_of_function hkind
  obtain ⟨child, hchild, rfl⟩ := Option.map_eq_some_iff.mp hname
  rw [declarationExports, if_neg (by simpa using hambient), plainExports, if_neg (by simp [hvariables]), if_pos hnamed,
    namedExports, hchild]
  cases isDefault with
  | false => exact ⟨_, List.mem_singleton_self _, Or.inl ⟨rfl, rfl⟩⟩
  | true =>
    simp only [Bool.not_true, Bool.false_eq_true, if_false, htype]
    exact ⟨_, List.mem_singleton_self _, Or.inr ⟨rfl, rfl⟩⟩

/-- A variable that is no pattern is exported under its name. -/
theorem exists_export_of_variable (hkind : isVariables decl.kind = true) {name d : Tree}
    (hmem : (name, d) ∈ variableNames decl) (file : String) (isDefault : Bool) (line : Nat) :
    ∃ e ∈ declarationExports file isDefault line decl, e.BearsName name.text := by
  rw [declarationExports, if_neg (by simpa using ne_ambient_of_variables hkind), plainExports, if_pos hkind]
  exact ⟨_, List.mem_map_of_mem hmem, Or.inl ⟨rfl, rfl⟩⟩

/-- Every function that an export statement declares has an export of its name. -/
theorem exists_export_of_mem_functionsOf (hmarked : t.Marked) {f : ExportedFunction} (hf : f ∈ functionsOf t)
    (file : String) : ∃ e ∈ exportsOf file t, e.BearsName f.name := by
  unfold functionsOf at hf
  cases hdecl : t.child? .declaration with
  | some decl =>
    have hform : exportForm t = .declaration (t.childOfKind? .defaultMark).isSome decl := by
      rw [exportForm, hdecl]
    rw [hdecl] at hf
    rw [exportsOf, hform]
    dsimp only at hf ⊢
    split at hf
    · rename_i hkind
      obtain ⟨name, hname, rfl⟩ := List.mem_map.mp hf
      exact exists_export_of_function hkind (Option.mem_toList.mp hname) file _ _
    · split at hf
      · rename_i hkind
        obtain ⟨⟨name, d⟩, hmem, hvalue⟩ := List.mem_filterMap.mp hf
        obtain ⟨value, -, rfl⟩ := Option.map_eq_some_iff.mp hvalue
        exact exists_export_of_variable hkind hmem file _ _
      · cases hf
  | none =>
    rw [hdecl] at hf
    cases hvalue : (t.child? .value).filter (isFunctionValue ·.kind) with
    | none => simp [hvalue] at hf
    | some value =>
      obtain ⟨hchild, hkind⟩ := Option.filter_eq_some_iff.mp hvalue
      -- without a declaration the value is that of a default, which takes the name of the function
      have hdefault := hmarked hdecl (by simp [hchild])
      have hform : exportForm t = .defaultValue (some value) := by
        rw [exportForm, hdecl, ← hchild]
        simp [hdefault]
      simp only [hvalue] at hf
      obtain ⟨name, hname, rfl⟩ := List.mem_map.mp hf
      rw [exportsOf, hform]
      refine ⟨_, List.mem_singleton_self _, Or.inr ⟨rfl, ?_⟩⟩
      rw [Option.bind_some, valueName?_of_function hkind, Option.mem_toList.mp hname]

/-- Every server action and hook of a file is read off one of its functions. -/
theorem exists_function_of_callable {tree : Tree} {c : Callable}
    (hc : c ∈ (FileFacts.ofTree file tree).actions ++ (FileFacts.ofTree file tree).hooks) :
    c.file = file ∧ ∃ statement ∈ tree.children, statement.kind = .exportStatement ∧
      ∃ f ∈ functionsOf statement, f.name = c.name := by
  have hfunction : ∀ f ∈ (tree.children.filter (·.kind == .exportStatement)).flatMap functionsOf,
      ∃ statement ∈ tree.children, statement.kind = .exportStatement ∧ f ∈ functionsOf statement := by
    intro f hf
    obtain ⟨statement, hstatement, hf⟩ := List.mem_flatMap.mp hf
    obtain ⟨hmem, hkind⟩ := List.mem_filter.mp hstatement
    exact ⟨statement, hmem, by simpa using hkind, hf⟩
  rcases List.mem_append.mp hc with hc | hc
  all_goals
    obtain ⟨f, hf, rfl⟩ := List.mem_map.mp hc
    obtain ⟨statement, hmem, hkind, hf⟩ := hfunction f (List.mem_filter.mp hf).1
    exact ⟨rfl, statement, hmem, hkind, f, hf, rfl⟩

/-- The name of a server action or hook is that of an export of its file. -/
theorem exists_export_of_callable {tree : Tree} (hmarked : tree.MarkedExports) {c : Callable}
    (hc : c ∈ (FileFacts.ofTree file tree).actions ++ (FileFacts.ofTree file tree).hooks) :
    ∃ e ∈ (FileFacts.ofTree file tree).exports, e.BearsName c.name := by
  obtain ⟨-, statement, hmem, hkind, f, hf, hname⟩ := exists_function_of_callable hc
  obtain ⟨e, he, hbears⟩ := exists_export_of_mem_functionsOf (hmarked statement hmem hkind) hf file
  have hexporting : e ∈ (tree.children.filter (·.kind == .exportStatement)).flatMap (exportsOf file) :=
    List.mem_flatMap.mpr ⟨statement, List.mem_filter.mpr ⟨hmem, by simp [hkind]⟩, he⟩
  exact ⟨_, List.mem_map_of_mem hexporting, hname ▸ hbears⟩

/-! ## Rules that look for exports -/

section Reaching

variable {exports : List Export} {path name : String}

/-- The rules for actions and hooks find an export for a name in a file, and attach to it what they have to. -/
structure Reaches (exports : List Export) (path name : String) : Prop where
  found : ∃ e, Finds exports path name e ∧ e.file = Path.normalize path ∧ e.BearsName name
  action : ∀ line usages count, ∃ e ∈ (Rule.applyAction ⟨exports, count⟩ ⟨name, path, line, usages⟩).exports,
    e.file = Path.normalize path ∧ e.BearsName name ∧ Site.framework ∈ e.usedBy ∧ ∀ u ∈ usages, u.site ∈ e.usedBy
  hook : ∀ line usages count, ∃ e ∈ (Rule.applyHook ⟨exports, count⟩ ⟨name, path, line, usages⟩).exports,
    e.file = Path.normalize path ∧ e.BearsName name ∧ ∀ u ∈ usages, u.site ∈ e.usedBy

theorem exists_finds (he : e ∈ exports) (hfile : e.file = Path.normalize path) (hname : e.BearsName name) :
    ∃ x, Finds exports path name x := by
  unfold Finds findExport?
  dsimp only
  cases hnamed : exports.find? fun e => e.file == Path.normalize path && !e.isDefault && e.name == name with
  | some x =>
    obtain ⟨k, hk, hx⟩ := find?_eq_some_iff_findIdx?.mp hnamed
    exact ⟨x, k, by rw [hk], hx⟩
  | none =>
    rw [List.find?_eq_none] at hnamed
    rw [List.findIdx?_eq_none_iff.mpr fun x hx => by simpa using hnamed x hx]
    have hdefault : (exports.find? fun e => e.file == Path.normalize path && e.isDefault &&
        e.localName == some name).isSome = true := by
      rw [List.find?_isSome]
      refine ⟨e, he, ?_⟩
      rcases hname with ⟨hno, rfl⟩ | ⟨hyes, hlocal⟩
      · simpa [hfile, hno] using hnamed e he
      · simp [hfile, hyes, hlocal]
    obtain ⟨x, hx⟩ := Option.isSome_iff_exists.mp hdefault
    exact ⟨x, find?_eq_some_iff_findIdx?.mp hx⟩

theorem bearsName_of_finds (h : Finds exports path name e) : e.file = Path.normalize path ∧ e.BearsName name := by
  obtain ⟨k, hk, he⟩ := h
  have hholds : ∀ p : Export → Bool, exports.findIdx? p = some k → p e = true := fun p hp =>
    List.find?_some (find?_eq_some_iff_findIdx?.mpr ⟨k, hp, he⟩)
  unfold findExport? at hk
  dsimp only at hk
  split at hk
  · rename_i i hi
    have hnamed := hholds _ (hi.trans hk)
    simp only [Bool.and_eq_true, beq_iff_eq, Bool.not_eq_true'] at hnamed
    exact ⟨hnamed.1.1, Or.inl ⟨hnamed.1.2, hnamed.2⟩⟩
  · have hdefault := hholds _ hk
    simp only [Bool.and_eq_true, beq_iff_eq] at hdefault
    exact ⟨hdefault.1.1, Or.inr ⟨hdefault.1.2, hdefault.2⟩⟩

/-- Attaching keeps an export in its place, with the sites that its position gets. -/
theorem exists_attached {k : Nat} (he : exports[k]? = some e) (marks : List (Nat × Site)) :
    ∃ x ∈ attachAll exports marks, x = { e with usedBy := x.usedBy } ∧ ∀ s, (k, s) ∈ marks → s ∈ x.usedBy := by
  have hx : (attachAll exports marks)[k]? = some (e.addUsages (sitesAt marks k)) := by
    rw [getElem?_attachAll, he, Option.map_some]
  refine ⟨_, List.mem_of_getElem? hx, by rw [Export.addUsages_eq], fun s hs => ?_⟩
  exact Export.mem_usedBy_addUsages.mpr (Or.inr (mem_sitesAt.mpr hs))

/-- The rules reach every name that an export of the file bears. -/
theorem reaches_of_bearsName (he : e ∈ exports) (hfile : e.file = Path.normalize path) (hname : e.BearsName name) :
    Reaches exports path name := by
  obtain ⟨found, k, hk, hfound⟩ := exists_finds he hfile hname
  have hfinds : Finds exports path name found := ⟨k, hk, hfound⟩
  obtain ⟨hfile', hname'⟩ := bearsName_of_finds hfinds
  refine ⟨⟨found, hfinds, hfile', hname'⟩, fun line usages count => ?_, fun line usages count => ?_⟩
  · obtain ⟨x, hx, heq, hsites⟩ := exists_attached hfound (actionMarks ⟨name, path, line, usages⟩ exports)
    rw [exports_applyAction]
    refine ⟨x, hx, ?_⟩
    rw [actionMarks, hk] at hsites
    rw [heq]
    exact ⟨hfile', hname', hsites _ (by simp), fun u hu => hsites _ (by simpa using Or.inr ⟨u, hu, rfl⟩)⟩
  · obtain ⟨x, hx, heq, hsites⟩ := exists_attached hfound (hookMarks ⟨name, path, line, usages⟩ exports)
    rw [exports_applyHook]
    refine ⟨x, hx, ?_⟩
    rw [hookMarks, hk] at hsites
    rw [heq]
    exact ⟨hfile', hname', fun u hu => hsites _ (by simpa using ⟨u, hu, rfl⟩)⟩

end Reaching

/-- The server actions and hooks of facts are of the file and have the names of exports that are read with them; and in
every list that holds these exports under the normal form of a path, the rules for actions and hooks reach one that bears
the name. (An index keeps one export of each key, so of several defaults of a file it holds the first.) -/
def FileFacts.CallablesReach (file : String) (facts : FileFacts) : Prop :=
  ∀ c ∈ facts.actions ++ facts.hooks,
    c.file = file ∧ (∃ e ∈ facts.exports, e.file = file ∧ e.BearsName c.name) ∧
      ∀ path exports, (∀ e ∈ facts.exports, { e with file := Path.normalize path } ∈ exports) → Reaches exports path c.name

theorem callablesReach_ofTree (file : String) {tree : Tree} (hmarked : tree.MarkedExports) :
    (FileFacts.ofTree file tree).CallablesReach file := by
  intro c hc
  obtain ⟨e, he, hname⟩ := exists_export_of_callable hmarked hc
  refine ⟨(exists_function_of_callable hc).1, ⟨e, he, file_of_mem_exports he, hname⟩, fun path exports hexports => ?_⟩
  exact reaches_of_bearsName (hexports e he) rfl hname

/-- **Server actions and hooks are exports**, in every tree that exports values with the word `default` only, whatever it
was read by; and so in every text. -/
theorem callables_reach_exports (file : String) :
    (∀ tree : Tree, tree.MarkedExports → (FileFacts.ofTree file tree).CallablesReach file) ∧
      ∀ text, (FileFacts.ofText file text).CallablesReach file :=
  ⟨fun _ => callablesReach_ofTree file, fun text => callablesReach_ofTree file (Source.markedExports_parse _ text)⟩

/-- A module with a hook that is its default export and an action among its variables. -/
def feedFacts : FileFacts :=
  FileFacts.ofText "/proj/feed.ts"
    "'use server'; export default async function* useFeed() {} export const save = async () => {}, limit = 3".toList

/-- A tree that exports a named function value as the default, with the parts that are looked at. -/
def hookTree : Tree :=
  .node .program none 1 "" [.node .exportStatement none 1 ""
    [.node .defaultMark none 1 "default" [], .node .functionExpression (some .value) 1 ""
      [.node .identifier (some .name) 1 "useFeed" []]]]

theorem callables_reach_exports_feed : (∀ name ∈ ["useFeed", "save"], ∃ c ∈ feedFacts.actions ++ feedFacts.hooks,
    c.name = name) ∧ (∀ exports, (∀ e ∈ feedFacts.exports, { e with file := Path.normalize "/proj/feed.ts" } ∈ exports) →
      ∀ name ∈ ["useFeed", "save"], Reaches exports "/proj/feed.ts" name) ∧
    hookTree.MarkedExports ∧ ∃ e ∈ (FileFacts.ofTree "/proj/feed.ts" hookTree).exports, e.BearsName "useFeed" := by
  have hread : ∀ name ∈ ["useFeed", "save"], ∃ c ∈ feedFacts.actions ++ feedFacts.hooks, c.name = name := by
    decide +kernel
  have hmarked : hookTree.MarkedExports := by
    intro statement hmem _
    obtain rfl := List.mem_singleton.mp hmem
    exact fun _ _ => rfl
  have hhook : ⟨"useFeed", "/proj/feed.ts", 1, []⟩ ∈ (FileFacts.ofTree "/proj/feed.ts" hookTree).actions ++
      (FileFacts.ofTree "/proj/feed.ts" hookTree).hooks := by decide +kernel
  refine ⟨hread, fun exports hexports name hname => ?_, hmarked, ?_⟩
  · obtain ⟨c, hc, rfl⟩ := hread name hname
    exact ((callables_reach_exports _).2 _ c hc).2.2 "/proj/feed.ts" exports hexports
  · obtain ⟨e, he, -, hname⟩ := ((callables_reach_exports _).1 hookTree hmarked _ hhook).2.1
    exact ⟨e, he, hname⟩

end ExportAudit
