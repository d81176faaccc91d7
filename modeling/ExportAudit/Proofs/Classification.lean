import Mathlib
import ExportAudit.Proofs.Partition

/-!
# Why an export carries a usage

`Cause` lists the reasons for which an export carries a site: the fact carried it, an import binds the export, a
convention of the framework covers it (`Rule.Covers`), or a run-time usage was handed to it. `usedBy_iff_cause` says
that the exports of a result carry the sites that have a cause and no others. Conventions about trees of routes ask for
the longest root that a file lies under (`LongestRoot`), which is the one that is looked up (`routeTreeRoot?_eq_some_iff`).

Each part of an analysis attaches sites at positions; the lemmas here turn membership in these lists into causes:
`mem_importMarks` and `boundPosition?_iff` for imports, `mem_handlers` and `mem_reached` for routes, `mem_marks` for
rules. A position stands for the export there because the keys of retained exports differ.
-/

namespace ExportAudit

/-! ## The root of a file -/

section Roots

variable {parts roots : List String} {root root' : String}

/-- A path lies under a root. -/
def LiesUnder (parts : List String) (root : String) : Prop :=
  (root ++ "/").toList <+: (Text.join "/" parts).toList

instance (parts : List String) (root : String) : Decidable (LiesUnder parts root) :=
  inferInstanceAs (Decidable ((root ++ "/").toList <+: (Text.join "/" parts).toList))

/-- The longest of some roots that a path lies under. -/
structure LongestRoot (roots parts : List String) (root : String) : Prop where
  mem : root ∈ roots
  under : LiesUnder parts root
  longest : ∀ other ∈ roots, LiesUnder parts other → other.length ≤ root.length

theorem startsWith_iff_liesUnder : Text.startsWith (Text.join "/" parts) (root ++ "/") = true ↔ LiesUnder parts root := by
  unfold Text.startsWith LiesUnder
  exact List.isPrefixOf_iff_prefix

/-- Roots of one path are equal if they have the same length. -/
theorem LiesUnder.eq_of_length (h : LiesUnder parts root) (h' : LiesUnder parts root')
    (hlength : root.length = root'.length) : root = root' := by
  have hsame : (root ++ "/").toList.length = (root' ++ "/").toList.length := by
    rw [String.length_toList, String.length_toList, String.length_append, String.length_append, hlength]
  have heq := (List.prefix_of_prefix_length_le h h' hsame.le).eq_of_length hsame
  rw [String.toList_append, String.toList_append, List.append_left_inj] at heq
  exact String.toList_inj.mp heq

theorem LongestRoot.unique (h : LongestRoot roots parts root) (h' : LongestRoot roots parts root') : root = root' :=
  h.under.eq_of_length h'.under
    (le_antisymm (h'.longest root h.mem h.under) (h.longest root' h'.mem h'.under))

/-- The root that is found is the longest one. -/
theorem longestRoot_of_routeTreeRoot? (h : routeTreeRoot? parts roots = some root) : LongestRoot roots parts root := by
  unfold routeTreeRoot? at h
  obtain ⟨hunder, before, after, hsorted, hbefore⟩ := List.find?_eq_some_iff_append.mp h
  have horder : (roots.mergeSort fun a b => decide (b.length ≤ a.length)).Pairwise fun a b =>
      OrderDual.toDual a.length ≤ OrderDual.toDual b.length :=
    pairwise_mergeSort_rank (fun a b => by simp) roots
  have hmem (other : String) : other ∈ roots ↔ other ∈ before ++ root :: after := by
    rw [← hsorted, List.mem_mergeSort]
  rw [hsorted] at horder
  refine ⟨(hmem root).2 (by simp), startsWith_iff_liesUnder.1 hunder, fun other hother hother' => ?_⟩
  rcases List.mem_append.mp ((hmem other).1 hother) with hother | hother
  · have hno := hbefore other hother
    rw [startsWith_iff_liesUnder.2 hother'] at hno
    cases hno
  · rcases List.mem_cons.mp hother with rfl | hother
    · exact le_rfl
    · exact List.rel_of_pairwise_cons (List.pairwise_append.mp horder).2.1 hother

theorem exists_routeTreeRoot? (hmem : root ∈ roots) (hunder : LiesUnder parts root) :
    ∃ found, routeTreeRoot? parts roots = some found := by
  rw [← Option.isSome_iff_exists]
  unfold routeTreeRoot?
  rw [List.find?_isSome]
  exact ⟨root, List.mem_mergeSort.mpr hmem, startsWith_iff_liesUnder.2 hunder⟩

/-- **The root of a file** is the longest one that it lies under. -/
theorem routeTreeRoot?_eq_some_iff : routeTreeRoot? parts roots = some root ↔ LongestRoot roots parts root := by
  refine ⟨longestRoot_of_routeTreeRoot?, fun h => ?_⟩
  obtain ⟨found, hfound⟩ := exists_routeTreeRoot? h.mem h.under
  rw [hfound, (longestRoot_of_routeTreeRoot? hfound).unique h]

end Roots

/-! ## Conventions and causes -/

/-- The export that an imported name means among those of a file: the first one that answers to it. -/
def Means (kept : List Export) (file name : String) (e : Export) : Prop :=
  ∃ k, matchExport? (kept.filter (·.file == file)) name = some k ∧ (kept.filter (·.file == file))[k]? = some e

/-- The export that the name of a declaration means in a file. -/
def Finds (kept : List Export) (file name : String) (e : Export) : Prop :=
  ∃ k, findExport? kept file name = some k ∧ kept[k]? = some e

/-- An export that handles a method of a route. The methods are those that the route lists, or all of them for a route
handler that lists none. -/
structure Route.HandledBy (r : Route) (e : Export) : Prop where
  file : e.file = Path.normalize r.file
  named : e.isDefault = false
  method : e.name ∈ httpMethods
  listed : match r.methods with
    | some methods => e.name ∈ methods
    | none => r.isApi = true

/-- A usage of a route is handed to the handler of its method, or to all handlers if none has its method. -/
def Route.Hands (kept : List Export) (r : Route) (u : DynamicUsage) (e : Export) : Prop :=
  r.HandledBy e ∧ (u.method = some e.name ∨ ∀ other ∈ kept, r.HandledBy other → u.method ≠ some other.name)

/-- The exports that a rule marks as used by the framework. -/
def Rule.Covers (c : LivenessContext) (kept : List Export) (e : Export) : Rule → Prop
  | .routeHandlers => ∃ r ∈ c.routes, r.HandledBy e
  | .serverActions => ∃ a ∈ c.actions, Finds kept a.file a.name e
  | .hookUsage => False
  | .pageComponents stems roots => e.isDefault = true ∧ ∃ root, LongestRoot roots (c.parts e.file) root ∧
      (Text.endsWith root "pages" = true ∨ Path.stem e.file ∈ stems)
  | .specialExports names roots => (∃ root, LongestRoot roots (c.parts e.file) root) ∧
      e.isDefault = false ∧ e.name ∈ names
  | .actionsDirectory names => ∃ directory ∈ (c.parts e.file).dropLast, directory ∈ names
  | .middleware stems => ((c.parts e.file).dropLast = [] ∨ (c.parts e.file).dropLast = ["src"]) ∧
      Path.stem e.file ∈ stems

/-- The run-time usages that a rule hands to an export. -/
def Rule.HandsOn (c : LivenessContext) (kept : List Export) (e : Export) (s : Site) : Rule → Prop
  | .routeHandlers => ∃ r ∈ c.routes, ∃ u ∈ r.usedBy, r.Hands kept u e ∧ s = u.site
  | .serverActions => ∃ a ∈ c.actions, ∃ u ∈ a.usedBy, Finds kept a.file a.name e ∧ s = u.site
  | .hookUsage => ∃ h ∈ c.hooks, ∃ u ∈ h.usedBy, Finds kept h.file h.name e ∧ s = u.site
  | _ => False

/-- The site of an import. -/
def Import.site (d : Disk) (i : Import) : Site := ⟨d.real i.file, i.line⟩

/-- The reference of an import leads to a file, for a resolver that remembers nothing. -/
def Import.LeadsTo (d : Disk) (resolver : Resolver) (i : Import) (file : String) : Prop :=
  (resolver.reset.resolve d i.reference (d.real i.file)).1.destination = .file file

/-- The reasons for which a retained export carries a site. -/
inductive Cause (d : Disk) (resolver : Resolver) (rules : List Rule) (c : LivenessContext) (imports : List Import)
    (kept : List Export) (e : Export) : Site → Prop
  /-- The fact carried it. -/
  | carried {s : Site} (h : s ∈ e.usedBy) : Cause d resolver rules c imports kept e s
  /-- An import binds the whole module. -/
  | wholeModule {i : Import} (hi : i ∈ imports) (hfile : i.LeadsTo d resolver e.file)
      (hname : ∃ name, i.namespaceName = some name ∧ name ≠ "") : Cause d resolver rules c imports kept e (i.site d)
  /-- An import binds a name that means the export. -/
  | boundName {i : Import} (hi : i ∈ imports) (hfile : i.LeadsTo d resolver e.file) {bound : String}
      (hbound : bound ∈ i.names) (hmeans : Means kept e.file (i.lookupName bound) e) :
      Cause d resolver rules c imports kept e (i.site d)
  /-- A convention of the framework covers the export. -/
  | convention {r : Rule} (hr : r ∈ rules) (hcovers : r.Covers c kept e) :
      Cause d resolver rules c imports kept e Site.framework
  /-- A rule hands on a run-time usage. -/
  | handed {r : Rule} {s : Site} (hr : r ∈ rules) (hhands : r.HandsOn c kept e s) :
      Cause d resolver rules c imports kept e s

/-! ## Positions -/

section Positions

variable {α : Type} {l : List α} {p : α → Bool} {a : α} {j : Nat}

/-- The first element of a class, by its position. -/
theorem find?_eq_some_iff_findIdx? :
    l.find? p = some a ↔ ∃ k, l.findIdx? p = some k ∧ l[k]? = some a := by
  rw [List.find?_eq_bind_findIdx?_getElem?, Option.bind_eq_some_iff]

/-- In a list without repetition the position of the first element of a class is that of the element. -/
theorem findIdx?_eq_some_iff_find? (hnd : l.Nodup) (hj : l[j]? = some a) :
    l.findIdx? p = some j ↔ l.find? p = some a := by
  rw [find?_eq_some_iff_findIdx?]
  constructor
  · exact fun h => ⟨j, h, hj⟩
  · rintro ⟨k, hk, ha⟩
    have hlt : k < l.length := (List.getElem?_eq_some_iff.mp ha).1
    rw [hk, (List.getElem?_inj hlt hnd).mp (ha.trans hj.symm)]

end Positions

section Retained

variable {d : Disk} {exports : List Export} {e : Export} {j : Nat}

theorem nodup_indexExports (d : Disk) (exports : List Export) : (indexExports d exports).Nodup :=
  (nodup_keys_indexExports d exports).of_map

/-- A name binds the position of the export that it means. -/
theorem boundPosition?_iff (hj : (indexExports d exports)[j]? = some e) (file name : String) :
    boundPosition? file name (indexExports d exports) = some j ↔ Means (indexExports d exports) file name e := by
  unfold boundPosition? Means matchExport?
  rw [findIdx?_eq_some_iff_find? (nodup_indexExports d exports) hj, ← find?_eq_some_iff_findIdx?, List.find?_filter]
  simp [Bool.beq_eq_decide_eq]

theorem Means.file_eq {kept : List Export} {file name : String} (h : Means kept file name e) : e.file = file := by
  obtain ⟨k, -, hk⟩ := h
  simpa using (List.mem_filter.mp (List.mem_of_getElem? hk)).2

/-- A position is found for a name exactly when the export there is found. -/
theorem findExport?_iff (hj : (indexExports d exports)[j]? = some e) (file name : String) :
    findExport? (indexExports d exports) file name = some j ↔ Finds (indexExports d exports) file name e := by
  constructor
  · exact fun h => ⟨j, h, hj⟩
  · rintro ⟨k, hk, he⟩
    rw [hk, position_eq_of_key_eq he hj rfl]

/-- The named export of a file is unique. -/
theorem findExport?_of_named (hj : (indexExports d exports)[j]? = some e) (hnamed : e.isDefault = false)
    {file : String} (hfile : e.file = Path.normalize file) :
    findExport? (indexExports d exports) file e.name = some j := by
  have hfirst : (indexExports d exports).findIdx?
      (fun x => x.file == Path.normalize file && !x.isDefault && x.name == e.name) = some j := by
    rw [findIdx?_eq_some_iff_find? (nodup_indexExports d exports) hj]
    cases hfind : (indexExports d exports).find?
        (fun x => x.file == Path.normalize file && !x.isDefault && x.name == e.name) with
    | none =>
      have hno := List.find?_eq_none.mp hfind e (List.mem_of_getElem? hj)
      simp [hfile, hnamed] at hno
    | some x =>
      have hx : (x.file = Path.normalize file ∧ x.isDefault = false) ∧ x.name = e.name := by
        simpa using List.find?_some hfind
      obtain ⟨k, hk⟩ := List.getElem?_of_mem (List.mem_of_find?_eq_some hfind)
      have hkey : x.key = e.key := by
        unfold Export.key
        rw [hx.1.1, hx.1.2, hx.2, hfile, hnamed]
      rw [position_eq_of_key_eq hk hj hkey, hj] at hk
      exact hk.symm
  unfold findExport?
  simp only
  rw [hfirst]

theorem named_of_findExport? {kept : List Export} {file name : String} (h : findExport? kept file name = some j)
    (hj : kept[j]? = some e) (hnamed : e.isDefault = false) : e.file = Path.normalize file ∧ e.name = name := by
  unfold findExport? at h
  simp only at h
  split at h
  · rename_i k hk
    obtain rfl := Option.some.inj h
    have hp := List.find?_some (find?_eq_some_iff_findIdx?.2 ⟨_, hk, hj⟩)
    simp only [Bool.and_eq_true, beq_iff_eq] at hp
    exact ⟨hp.1.1, hp.2⟩
  · have hp := List.find?_some (find?_eq_some_iff_findIdx?.2 ⟨_, h, hj⟩)
    simp [hnamed] at hp

end Retained

/-! ## Imports -/

theorem mem_importMarks {file : String} {site s : Site} {i : Import} {es : List Export} {j : Nat} :
    (j, s) ∈ importMarks file site i es ↔ s = site ∧
      (i.namespace?.isSome = true ∧ (∃ e, es[j]? = some e ∧ e.file = file) ∨
        ∃ bound ∈ i.names, boundPosition? file (i.lookupName bound) es = some j) := by
  have hall : (j, s) ∈ (if i.namespace?.isSome then (positions (·.file == file) es).map (·, site) else []) ↔
      s = site ∧ i.namespace?.isSome = true ∧ ∃ e, es[j]? = some e ∧ e.file = file := by
    by_cases h : i.namespace?.isSome = true
    · rw [if_pos h, mem_map_positions]
      simp [h]
    · simp [h]
  have hnames : ((j, s) ∈ (i.names.map i.lookupName).flatMap fun name =>
      (boundPosition? file name es).toList.map (·, site)) ↔
      s = site ∧ ∃ bound ∈ i.names, boundPosition? file (i.lookupName bound) es = some j := by
    simp only [List.mem_flatMap, List.mem_map, Option.mem_toList, Prod.mk.injEq]
    constructor
    · rintro ⟨_, ⟨bound, hbound, rfl⟩, k, hk, rfl, rfl⟩
      exact ⟨rfl, bound, hbound, hk⟩
    · rintro ⟨rfl, bound, hbound, hk⟩
      exact ⟨_, ⟨bound, hbound, rfl⟩, j, hk, rfl, rfl⟩
  rw [importMarks, List.mem_append, hall, hnames, ← and_or_left]

theorem Import.namespace?_isSome {i : Import} :
    i.namespace?.isSome = true ↔ ∃ name, i.namespaceName = some name ∧ name ≠ "" := by
  unfold Import.namespace?
  cases i.namespaceName with
  | none => simp
  | some name => simp [Option.filter]

/-! ## Routes -/

section Routes

variable {d : Disk} {exports : List Export} {e : Export} {j : Nat}

theorem mem_routeMethods {r : Route} {m : String} :
    m ∈ Rule.routeMethods r ↔ m ∈ httpMethods ∧
      match r.methods with
      | some methods => m ∈ methods
      | none => r.isApi = true := by
  unfold Rule.routeMethods
  rw [List.mem_filter, List.contains_iff_mem, and_comm]
  cases r.methods with
  | some methods => rfl
  | none =>
    rw [Option.getD_none]
    cases r.isApi with
    | true => simp
    | false => simp

/-- The handlers of a route stand at the positions of the exports that handle it. -/
theorem mem_handlers (hj : (indexExports d exports)[j]? = some e) (r : Route) :
    j ∈ Rule.handlers (indexExports d exports) r ↔ r.HandledBy e := by
  simp only [Rule.handlers, List.mem_filterMap, Option.filter_eq_some_iff]
  constructor
  · rintro ⟨m, hm, hfind, hdefault⟩
    have hnamed : e.isDefault = false := by simpa [hj] using hdefault
    obtain ⟨hfile, rfl⟩ := named_of_findExport? hfind hj hnamed
    exact ⟨hfile, hnamed, (mem_routeMethods.1 hm).1, (mem_routeMethods.1 hm).2⟩
  · intro h
    refine ⟨e.name, mem_routeMethods.2 ⟨h.method, h.listed⟩, findExport?_of_named hj h.named h.file, ?_⟩
    simp [hj, h.named]

theorem exists_of_mem_handlers {kept : List Export} {r : Route} (h : j ∈ Rule.handlers kept r) :
    ∃ e, kept[j]? = some e := by
  simp only [Rule.handlers, List.mem_filterMap, Option.filter_eq_some_iff] at h
  obtain ⟨m, -, -, hdefault⟩ := h
  cases he : kept[j]? with
  | none => simp [he] at hdefault
  | some e => exact ⟨e, rfl⟩

theorem mem_reached {kept : List Export} {hs : List Nat} {u : DynamicUsage} :
    j ∈ Rule.reached kept hs u ↔ j ∈ hs ∧
      (kept[j]?.map (·.name) = u.method ∨ ∀ k ∈ hs, kept[k]?.map (·.name) ≠ u.method) := by
  unfold Rule.reached
  split
  · rename_i hnil
    have hno : ∀ k ∈ hs, kept[k]?.map (·.name) ≠ u.method := by
      intro k hk heq
      exact List.filter_eq_nil_iff.mp hnil k hk (by simpa using heq)
    exact ⟨fun hj => ⟨hj, Or.inr hno⟩, And.left⟩
  · rename_i hne
    rw [List.mem_filter, beq_iff_eq]
    constructor
    · exact fun ⟨hj, heq⟩ => ⟨hj, Or.inl heq⟩
    · rintro ⟨hj, heq | hno⟩
      · exact ⟨hj, heq⟩
      · refine absurd (List.filter_eq_nil_iff.mpr fun k hk => ?_) hne
        simpa using hno k hk

/-- A usage of a route reaches the positions of the exports that it is handed to. -/
theorem mem_reached_handlers (hj : (indexExports d exports)[j]? = some e) (r : Route) (u : DynamicUsage) :
    j ∈ Rule.reached (indexExports d exports) (Rule.handlers (indexExports d exports) r) u ↔
      r.Hands (indexExports d exports) u e := by
  rw [mem_reached, mem_handlers hj, Route.Hands]
  refine and_congr_right fun _ => or_congr ?_ ?_
  · rw [hj, Option.map_some]
    exact eq_comm
  · constructor
    · intro h other hother hhandled
      obtain ⟨k, hk⟩ := List.getElem?_of_mem hother
      have := h k ((mem_handlers hk r).2 hhandled)
      rw [hk, Option.map_some] at this
      exact this.symm
    · intro h k hk heq
      obtain ⟨other, hother⟩ := exists_of_mem_handlers hk
      rw [hother, Option.map_some] at heq
      exact h other (List.mem_of_getElem? hother) ((mem_handlers hother r).1 hk) heq.symm

end Routes

/-! ## Rules -/

section Rules

variable {d : Disk} {exports : List Export} {e : Export} {j : Nat} {s : Site} (c : LivenessContext)

theorem mem_routeMarks (hj : (indexExports d exports)[j]? = some e) (r : Route) :
    (j, s) ∈ routeMarks r (indexExports d exports) ↔ s = Site.framework ∧ r.HandledBy e ∨
      ∃ u ∈ r.usedBy, r.Hands (indexExports d exports) u e ∧ s = u.site := by
  simp only [routeMarks, List.mem_append, List.mem_flatMap, List.mem_map, Prod.mk.injEq]
  refine or_congr ⟨?_, ?_⟩ (exists_congr fun u => and_congr_right fun _ => ⟨?_, ?_⟩)
  · rintro ⟨_, hk, rfl, rfl⟩
    exact ⟨rfl, (mem_handlers hj r).1 hk⟩
  · rintro ⟨rfl, hk⟩
    exact ⟨j, (mem_handlers hj r).2 hk, rfl, rfl⟩
  · rintro ⟨_, hk, rfl, rfl⟩
    exact ⟨(mem_reached_handlers hj r u).1 hk, rfl⟩
  · rintro ⟨hk, rfl⟩
    exact ⟨j, (mem_reached_handlers hj r u).2 hk, rfl, rfl⟩

theorem mem_hookMarks (hj : (indexExports d exports)[j]? = some e) (h : Hook) :
    (j, s) ∈ hookMarks h (indexExports d exports) ↔
      ∃ u ∈ h.usedBy, Finds (indexExports d exports) h.file h.name e ∧ s = u.site := by
  simp only [hookMarks, List.mem_flatMap, List.mem_map, Option.mem_toList, Prod.mk.injEq]
  constructor
  · rintro ⟨_, hk, u, hu, rfl, rfl⟩
    exact ⟨u, hu, (findExport?_iff hj _ _).1 hk, rfl⟩
  · rintro ⟨u, hu, hk, rfl⟩
    exact ⟨j, (findExport?_iff hj _ _).2 hk, u, hu, rfl, rfl⟩

theorem mem_actionMarks (hj : (indexExports d exports)[j]? = some e) (a : ServerAction) :
    (j, s) ∈ actionMarks a (indexExports d exports) ↔
      s = Site.framework ∧ Finds (indexExports d exports) a.file a.name e ∨
      ∃ u ∈ a.usedBy, Finds (indexExports d exports) a.file a.name e ∧ s = u.site := by
  rw [← mem_hookMarks hj]
  simp only [actionMarks, hookMarks, List.mem_flatMap, List.mem_cons, Option.mem_toList, Prod.mk.injEq]
  constructor
  · rintro ⟨k, hk, ⟨rfl, rfl⟩ | hu⟩
    · exact Or.inl ⟨rfl, (findExport?_iff hj _ _).1 hk⟩
    · exact Or.inr ⟨k, hk, hu⟩
  · rintro (⟨rfl, hk⟩ | ⟨k, hk, hu⟩)
    · exact ⟨j, (findExport?_iff hj _ _).2 hk, Or.inl ⟨rfl, rfl⟩⟩
    · exact ⟨k, hk, Or.inr hu⟩

theorem isPage_iff (kept : List Export) (stems roots : List String) :
    Rule.isPage c stems roots e = true ↔ (Rule.pageComponents stems roots).Covers c kept e := by
  simp only [Rule.Covers, ← routeTreeRoot?_eq_some_iff]
  unfold Rule.isPage
  split <;> rename_i h <;> simp [h]

theorem isSpecial_iff (kept : List Export) (names roots : List String) :
    Rule.isSpecial c names roots e = true ↔ (Rule.specialExports names roots).Covers c kept e := by
  simp [Rule.isSpecial, Rule.Covers, Option.isSome_iff_exists, routeTreeRoot?_eq_some_iff, and_assoc]

theorem inActionsDirectory_iff (kept : List Export) (names : List String) :
    Rule.inActionsDirectory c names e = true ↔ (Rule.actionsDirectory names).Covers c kept e := by
  simp [Rule.inActionsDirectory, Rule.Covers]

theorem isEntry_iff (kept : List Export) (stems : List String) :
    Rule.isEntry c stems e = true ↔ (Rule.middleware stems).Covers c kept e := by
  simp [Rule.isEntry, Rule.Covers]

/-- What a rule attaches at a position: the framework if it covers the export there, and the usages it hands on. -/
theorem mem_marks (hj : (indexExports d exports)[j]? = some e) (r : Rule) :
    (j, s) ∈ r.marks c (indexExports d exports) ↔ s = Site.framework ∧ r.Covers c (indexExports d exports) e ∨
      r.HandsOn c (indexExports d exports) e s := by
  have hclass (p : Export → Bool) : (j, s) ∈ (positions p (indexExports d exports)).map (·, Site.framework) ↔
      s = Site.framework ∧ p e = true := by
    rw [mem_map_positions, hj]
    simp
  cases r with
  | routeHandlers =>
    simp only [Rule.marks, Rule.Covers, Rule.HandsOn, List.mem_flatMap, mem_routeMarks hj]
    grind
  | serverActions =>
    simp only [Rule.marks, Rule.Covers, Rule.HandsOn, List.mem_flatMap, mem_actionMarks hj]
    grind
  | hookUsage =>
    simp only [Rule.marks, Rule.Covers, Rule.HandsOn, List.mem_flatMap, mem_hookMarks hj]
    grind
  | pageComponents stems roots =>
    rw [Rule.marks, hclass, isPage_iff c (indexExports d exports)]
    simp [Rule.HandsOn]
  | specialExports names roots =>
    rw [Rule.marks, hclass, isSpecial_iff c (indexExports d exports)]
    simp [Rule.HandsOn]
  | actionsDirectory names =>
    rw [Rule.marks, hclass, inActionsDirectory_iff c (indexExports d exports)]
    simp [Rule.HandsOn]
  | middleware stems =>
    rw [Rule.marks, hclass, isEntry_iff c (indexExports d exports)]
    simp [Rule.HandsOn]

end Rules

/-! ## Results -/

section Results

variable {d : Disk} {root : String} {rules : List Rule} {facts : ProjectFacts} {resolver : Resolver}
  {result : AnalysisResult} {e : Export} {j : Nat} {s : Site}

theorem leadsTo_iff {i : Import} {file : String} : i.LeadsTo d resolver file ↔
    (resolver.answer d i.reference (d.real i.file)).destination = .file file := by
  rw [Import.LeadsTo, (Resolver.recalls_reset d resolver).resolve_eq_answer (d.normalize_real _), Resolver.answer_reset]

/-- What an import attaches at a position. -/
theorem mem_resolvedMarks (hj : (indexExports d facts.exports)[j]? = some e) (i : Import) :
    (j, s) ∈ resolvedMarks d resolver i (indexExports d facts.exports) ↔ s = i.site d ∧ i.LeadsTo d resolver e.file ∧
      ((∃ name, i.namespaceName = some name ∧ name ≠ "") ∨
        ∃ bound ∈ i.names, Means (indexExports d facts.exports) e.file (i.lookupName bound) e) := by
  rw [leadsTo_iff]
  unfold resolvedMarks
  split
  · rename_i file hfile
    rw [mem_importMarks, Import.namespace?_isSome, hfile]
    simp only [hj, Option.some.injEq, exists_eq_left', boundPosition?_iff hj, Destination.file.injEq]
    refine and_congr_right fun _ => ⟨?_, ?_⟩
    · rintro (⟨hname, rfl⟩ | ⟨bound, hbound, hmeans⟩)
      · exact ⟨rfl, Or.inl hname⟩
      · obtain rfl := hmeans.file_eq
        exact ⟨rfl, Or.inr ⟨bound, hbound, hmeans⟩⟩
    · rintro ⟨rfl, hname | hmeans⟩
      · exact Or.inl ⟨hname, rfl⟩
      · exact Or.inr hmeans
  · rename_i reason detail hfailure
    simp [hfailure]

/-- The sites that an export carries or gets are those with a cause. -/
theorem mem_attachedMarks_iff_cause (hj : (indexExports d facts.exports)[j]? = some e) (c : LivenessContext) :
    s ∈ e.usedBy ∨ (j, s) ∈ attachedMarks d rules facts resolver c ↔
      Cause d resolver rules c facts.imports (indexExports d facts.exports) e s := by
  simp only [attachedMarks, List.mem_append, List.mem_flatMap, mem_resolvedMarks hj, mem_marks c hj]
  constructor
  · rintro (h | ⟨i, hi, rfl, hfile, hname | ⟨bound, hbound, hmeans⟩⟩ | ⟨r, hr, ⟨rfl, hcovers⟩ | hhands⟩)
    · exact .carried h
    · exact .wholeModule hi hfile hname
    · exact .boundName hi hfile hbound hmeans
    · exact .convention hr hcovers
    · exact .handed hr hhands
  · intro h
    cases h with
    | carried h => exact Or.inl h
    | @wholeModule i hi hfile hname => exact Or.inr (Or.inl ⟨i, hi, rfl, hfile, Or.inl hname⟩)
    | @boundName i hi hfile bound hbound hmeans =>
      exact Or.inr (Or.inl ⟨i, hi, rfl, hfile, Or.inr ⟨bound, hbound, hmeans⟩⟩)
    | @convention r hr hcovers => exact Or.inr (Or.inr ⟨r, hr, Or.inl ⟨rfl, hcovers⟩⟩)
    | @handed r _ hr hhands => exact Or.inr (Or.inr ⟨r, hr, Or.inr hhands⟩)

/-- **Exact classification.** An export of a result is a retained fact that carries the sites with a cause and no
others; every retained fact has its export in the result. The routes, actions and hooks are those of the result, to
which the run-time usages have been attached. -/
theorem usedBy_iff_cause (settings : Option LivenessSettings)
    (h : (analyze d root (rulesOf settings) facts resolver).1 = .ok result) :
    (∃ n, (usageTargets d facts).attach (canonicalUsages d facts) =
      .ok (⟨result.routes, result.hooks, result.actions⟩, n)) ∧
    (∀ e ∈ indexExports d facts.exports, ∃ x ∈ result.used ++ result.unused, x.key = e.key) ∧
    ∀ x ∈ result.used ++ result.unused, ∃ e ∈ indexExports d facts.exports, x = { e with usedBy := x.usedBy } ∧
      ∀ s, s ∈ x.usedBy ↔ Cause d resolver (rulesOf settings) (result.context d) facts.imports
        (indexExports d facts.exports) e s := by
  refine ⟨?_, fun e he => ?_, fun x hx => ?_⟩
  · obtain ⟨b, t, n, -, hattach, rfl⟩ := exists_of_analyze_eq_ok h
    exact ⟨n, hattach⟩
  · have hkey := (keys_result_perm h).mem_iff.mpr (List.mem_map_of_mem he)
    exact List.mem_map.mp hkey
  · obtain ⟨j, e, hj, hxe, hsites⟩ := exists_of_mem_result h hx
    exact ⟨e, List.mem_of_getElem? hj, hxe, fun s => (hsites s).trans (mem_attachedMarks_iff_cause hj _)⟩

end Results

/-- A tree with a file of actions and a file beside the directory. -/
def savingDisk : Disk :=
  ⟨.directory [("proj", .directory [("form.ts", .file .empty 0),
    ("actions", .directory [("save.ts", .file .empty 0)])])], "/proj"⟩

/-- An export that carries a usage, is imported under another name and lies in a directory of actions. -/
def savingFacts : ProjectFacts :=
  { exports := [{ name := "save", file := "/proj/actions/save.ts", line := 1, usedBy := [⟨"/proj/test.ts", 3⟩] }]
    imports := [{ file := "/proj/form.ts", reference := "./actions/save", line := 2, names := ["store"],
                  aliases := [("store", "save")] }] }

/-- The export carries all three sites. -/
theorem usedBy_iff_cause_saving : ∃ result,
    (analyze savingDisk "/proj" (rulesOf none) savingFacts (.ofRoot "/proj" {})).1 = .ok result ∧
      ∃ x ∈ result.used ++ result.unused, x.name = "save" ∧ Site.framework ∈ x.usedBy ∧
        ⟨"/proj/test.ts", 3⟩ ∈ x.usedBy ∧ ⟨"/proj/form.ts", 2⟩ ∈ x.usedBy := by
  obtain ⟨result, h⟩ :=
    (exists_analyze_eq_ok_iff savingDisk "/proj" (rulesOf none) savingFacts (.ofRoot "/proj" {})).mpr ⟨_, rfl⟩
  obtain ⟨-, hall, hcause⟩ := usedBy_iff_cause none h
  have hkept : indexExports savingDisk savingFacts.exports = savingFacts.exports := by decide +kernel
  have hparts : (result.context savingDisk).parts "/proj/actions/save.ts" = ["actions", "save.ts"] := by
    unfold LivenessContext.parts AnalysisResult.context
    rw [root_result h]
    show Path.segments (Text.replaceChar '\\' '/' (Path.relativeTo "/proj" "/proj" "/proj/actions/save.ts")) = _
    decide +kernel
  rw [hkept] at hall hcause
  obtain ⟨x, hx, -⟩ := hall _ List.mem_cons_self
  obtain ⟨e, he, hxe, hsites⟩ := hcause x hx
  obtain rfl := List.mem_singleton.mp he
  refine ⟨result, h, x, hx, ?_, (hsites _).mpr ?_, (hsites _).mpr ?_, (hsites _).mpr ?_⟩
  · rw [hxe]
  · refine Cause.convention (r := .actionsDirectory ["actions"]) (by decide) ?_
    exact ⟨"actions", by rw [hparts]; exact List.mem_cons_self, List.mem_cons_self⟩
  · exact Cause.carried List.mem_cons_self
  · have hsite : (⟨"/proj/form.ts", 2⟩ : Site) = Import.site savingDisk
        { file := "/proj/form.ts", reference := "./actions/save", line := 2, names := ["store"],
          aliases := [("store", "save")] } := by decide +kernel
    rw [hsite]
    refine Cause.boundName List.mem_cons_self ?_ List.mem_cons_self ⟨0, ?_, rfl⟩
    · unfold Import.LeadsTo
      decide +kernel
    · decide +kernel

end ExportAudit
