import Mathlib
import ExportAudit.Proofs.RespelledCopies
import ExportAudit.Proofs.RuleOrder

/-!
# References gathered by interfaces

Attaching type references to interfaces (`attachReferences`) appends to each interface the new sites of the references to
its name, each once and in the order of their first occurrence (`Interface.newSites`), and counts what it appends
(`Aggregates`). So a second pass over the same references finds nothing new.

An analysis then sorts the sites and keys the interfaces by file, name and line. Keys are told apart by these three
(`Interface.place_eq_of_key_eq`), so every declaration has an entry, and every entry is a declaration with what it has
gathered (`ListsInterfaces`).
-/

namespace ExportAudit

/-! ## One interface -/

section Sites

variable {sites ss : List Site}

/-- Attaching sites in turn appends the new ones, each once and in the order of their first occurrence. -/
theorem Site.foldl_attach_eq : ss.foldl Site.attach sites = sites ++ (ss.filter (· ∉ sites)).eraseDups := by
  induction ss generalizing sites with
  | nil => simp
  | cons s ss ih =>
    rw [List.foldl_cons, ih]
    by_cases h : s ∈ sites
    · have hsame : Site.attach sites s = sites := by simp [Site.attach, h]
      rw [hsame, List.filter_cons_of_neg (by simpa using h)]
    · have hmore : Site.attach sites s = sites ++ [s] := by simp [Site.attach, h]
      have hrest : ss.filter (· ∉ sites ++ [s]) = (ss.filter (· ∉ sites)).filter fun t => !t == s := by
        rw [List.filter_filter]
        refine List.filter_congr fun t _ => ?_
        by_cases ht : t = s <;> simp [ht]
      rw [hmore, hrest, List.filter_cons_of_pos (by simpa using h), List.eraseDups_cons, List.append_assoc,
        List.singleton_append]

theorem Site.nodup_foldl_attach_nil : (ss.foldl Site.attach []).Nodup := by
  rw [List.nodup_iff_count_le_one]
  intro s
  rw [Site.count_foldl_attach, if_neg List.not_mem_nil]
  split <;> omega

/-- The order of sites: by file, then by line. -/
def Site.Before (s t : Site) : Prop :=
  s.file < t.file ∨ s.file = t.file ∧ s.line < t.line

/-- Different sites are sorted strictly. -/
theorem Site.pairwise_before_mergeSort (h : sites.Nodup) : (sites.mergeSort Site.le).Pairwise Site.Before := by
  have hordered := pairwise_mergeSort_rank Site.le_iff sites
  have hdistinct : (sites.mergeSort Site.le).Nodup := (List.mergeSort_perm sites _).nodup_iff.mpr h
  refine hordered.imp₂ (fun s t hle hne => ?_) hdistinct
  have hlt := lt_of_le_of_ne hle fun heq => hne (Site.file_line_injective heq)
  rwa [Prod.Lex.toLex_lt_toLex] at hlt

end Sites

/-- The sites of the references to the name of an interface that it does not carry yet, each once and in the order of
their first occurrence. -/
def Interface.newSites (references : List TypeReference) (i : Interface) : List Site :=
  ((sitesOf references i.name).filter (· ∉ i.usedBy)).eraseDups

theorem Interface.attach_eq (references : List TypeReference) (i : Interface) :
    i.attach references = { i with usedBy := i.usedBy ++ i.newSites references } := by
  rw [Interface.attach, Site.foldl_attach_eq]
  rfl

theorem Interface.newSites_eq_nil {references : List TypeReference} {i : Interface}
    (h : ∀ r ∈ references, r.name ≠ i.name) : i.newSites references = [] := by
  have hnone : references.filter (·.name == i.name) = [] :=
    List.filter_eq_nil_iff.mpr fun r hr => by simpa using h r hr
  simp [newSites, sitesOf, hnone]

/-- An interface that has gathered references has nothing to gather from them. -/
theorem Interface.attach_attach (references : List TypeReference) (i : Interface) :
    (i.attach references).attach references = i.attach references := by
  have hcarried : ∀ s ∈ sitesOf references i.name, s ∈ (i.attach references).usedBy :=
    fun s hs => Site.mem_foldl_attach.mpr (Or.inr hs)
  have hsame := Site.foldl_attach_of_subset hcarried
  exact congrArg (fun sites => { i with usedBy := sites }) hsame

/-! ## All interfaces -/

/-- The number of sites that interfaces carry. -/
def countSites (interfaces : List Interface) : Nat :=
  (interfaces.map (·.usedBy.length)).sum

/-- What attaching references comes to: every interface keeps its sites and gets the new ones of the references to its
name; one to which nothing refers stays as it is; the count is the growth of all lists together; and doing it again adds
nothing. -/
structure Aggregates (before : List Interface) (references : List TypeReference) (after : List Interface) (n : Nat) :
    Prop where
  usedBy : after = before.map fun i => { i with usedBy := i.usedBy ++ i.newSites references }
  untouched : ∀ (k : Nat) (i : Interface), before[k]? = some i → (∀ r ∈ references, r.name ≠ i.name) → after[k]? = some i
  growth : countSites after = countSites before + n
  again : attachReferences after references = (after, 0)

section Run

variable (interfaces : List Interface) (references : List TypeReference)

theorem Interface.length_attachOne (r : TypeReference) (i : Interface) :
    (i.attachOne r).1.usedBy.length = i.usedBy.length + if (i.attachOne r).2 = true then 1 else 0 := by
  unfold Interface.attachOne
  split
  · simp
  · rfl

/-- A reference adds as many sites as it counts. -/
theorem countSites_attachReference (r : TypeReference) :
    countSites (attachReference interfaces r).1 = countSites interfaces + (attachReference interfaces r).2 := by
  unfold countSites attachReference
  induction interfaces with
  | nil => rfl
  | cons i interfaces ih =>
    have hone := i.length_attachOne r
    simp only [List.map_cons, List.sum_cons, List.countP_cons] at ih ⊢
    omega

theorem countSites_attachReferences : countSites (attachReferences interfaces references).1 =
    countSites interfaces + (attachReferences interfaces references).2 := by
  induction references generalizing interfaces with
  | nil => rfl
  | cons r rest ih =>
    have hone := countSites_attachReference interfaces r
    have hrest := ih (attachReference interfaces r).1
    simp only [attachReferences]
    omega

theorem aggregates_attachReferences :
    Aggregates interfaces references (attachReferences interfaces references).1
      (attachReferences interfaces references).2 := by
  have hafter := fst_attachReferences interfaces references
  have hagain : (attachReferences (attachReferences interfaces references).1 references).1 =
      (attachReferences interfaces references).1 := by
    rw [fst_attachReferences, hafter, List.map_map]
    exact List.map_congr_left fun i _ => i.attach_attach references
  refine ⟨?_, ?_, countSites_attachReferences interfaces references, ?_⟩
  · rw [hafter]
    exact List.map_congr_left fun i _ => i.attach_eq references
  · intro k i hi hnames
    rw [hafter, List.getElem?_map, hi, Option.map_some, Interface.attach_eq, Interface.newSites_eq_nil hnames,
      List.append_nil]
  · -- The second pass leaves the lists as they are, so its count, being their growth, is zero.
    have hcount := countSites_attachReferences (attachReferences interfaces references).1 references
    rw [hagain] at hcount
    exact Prod.ext hagain (by omega)

end Run

/-! ## Entries by key -/

section Keys

variable {α : Type} (key : α → String) {a b : α} {kept items : List α}

theorem mem_putByKey (h : b ∈ putByKey key a kept) : b = a ∨ b ∈ kept := by
  induction kept with
  | nil => exact Or.inl (List.mem_singleton.mp h)
  | cons c rest ih =>
    rw [putByKey] at h
    split at h
    · exact (List.mem_cons.mp h).imp_right (List.mem_cons_of_mem c)
    · rcases List.mem_cons.mp h with rfl | h
      · exact Or.inr List.mem_cons_self
      · exact (ih h).imp_right (List.mem_cons_of_mem c)

/-- An item that is put is there, and the keys that were there stay. -/
theorem exists_key_putByKey (h : b = a ∨ b ∈ kept) : ∃ c ∈ putByKey key a kept, key c = key b := by
  induction kept with
  | nil =>
    rcases h with rfl | h
    · exact ⟨b, List.mem_singleton_self b, rfl⟩
    · exact absurd h List.not_mem_nil
  | cons c rest ih =>
    rw [putByKey]
    by_cases hkey : key c = key a
    · rw [if_pos (by simpa using hkey)]
      rcases h with rfl | h
      · exact ⟨b, List.mem_cons_self, rfl⟩
      · rcases List.mem_cons.mp h with rfl | h
        · exact ⟨a, List.mem_cons_self, hkey.symm⟩
        · exact ⟨b, List.mem_cons_of_mem a h, rfl⟩
    · rw [if_neg (by simpa using hkey)]
      by_cases hc : b = c
      · exact ⟨c, List.mem_cons_self, by rw [hc]⟩
      · obtain ⟨e, he, hkey⟩ := ih (h.imp_right fun h => (List.mem_cons.mp h).resolve_left hc)
        exact ⟨e, List.mem_cons_of_mem c he, hkey⟩

theorem lastByKey_concat : lastByKey key (items ++ [a]) = putByKey key a (lastByKey key items) :=
  List.foldl_append

theorem mem_of_mem_lastByKey (h : a ∈ lastByKey key items) : a ∈ items := by
  induction items using List.reverseRecOn with
  | nil => exact h
  | append_singleton items b ih =>
    rw [lastByKey_concat key] at h
    rcases mem_putByKey key h with rfl | h
    · simp
    · exact List.mem_append_left _ (ih h)

theorem exists_key_lastByKey (h : a ∈ items) : ∃ b ∈ lastByKey key items, key b = key a := by
  induction items using List.reverseRecOn with
  | nil => exact absurd h List.not_mem_nil
  | append_singleton items b ih =>
    rw [lastByKey_concat key]
    rcases List.mem_append.mp h with h | h
    · obtain ⟨c, hc, hkey⟩ := ih h
      obtain ⟨e, he, hkey'⟩ := exists_key_putByKey key (a := b) (Or.inr hc)
      exact ⟨e, he, hkey'.trans hkey⟩
    · exact exists_key_putByKey key (Or.inl (List.mem_singleton.mp h))

end Keys

theorem separator_not_mem_toString (n : Nat) : '|' ∉ (toString n).toList := by
  rw [Nat.toString_eq_repr, Nat.repr, String.toList_ofList]
  intro h
  exact absurd (Nat.isDigit_of_mem_toDigits (by decide) (by decide) h) (by decide)

/-- Interfaces whose names do not hold the separator have one key only if they stand at one place under one name. -/
theorem Interface.place_eq_of_key_eq {i j : Interface} (h : i.key = j.key) (hi : '|' ∉ i.name.toList)
    (hj : '|' ∉ j.name.toList) : Path.normalize i.file = Path.normalize j.file ∧ i.name = j.name ∧ i.line = j.line := by
  have hkey (i : Interface) : i.key.toList =
      ((Path.normalize i.file).toList ++ '|' :: i.name.toList) ++ '|' :: (toString i.line).toList := by
    simp [Interface.key]
  have hcut := congrArg String.toList h
  rw [hkey, hkey] at hcut
  obtain ⟨hfront, hline⟩ := eq_of_append_cons_eq (separator_not_mem_toString _) (separator_not_mem_toString _) hcut
  obtain ⟨hfile, hname⟩ := eq_of_append_cons_eq hi hj hfront
  exact ⟨String.toList_inj.mp hfile, String.toList_inj.mp hname, Nat.repr_inj.mp (String.toList_inj.mp hline)⟩

/-! ## The interfaces of a result -/

/-- The type references of a project, told of the canonical paths of their files. -/
def canonicalReferences (d : Disk) (facts : ProjectFacts) : List TypeReference :=
  facts.typeReferences.map fun r => { r with site := ⟨d.real r.site.file, r.site.line⟩ }

/-- A declaration at the end of an analysis: at its canonical file, with the references to its name, in order. -/
def Interface.ended (d : Disk) (facts : ProjectFacts) (i : Interface) : Interface where
  name := i.name
  file := d.real i.file
  line := i.line
  usedBy := (i.usedBy ++ i.newSites (canonicalReferences d facts)).mergeSort Site.le

/-- Whether an entry is that of a declaration. -/
def Interface.EntryOf (d : Disk) (x i : Interface) : Prop :=
  x.file = d.real i.file ∧ x.name = i.name ∧ x.line = i.line

/-- The entries that the interfaces of a project must have: each declaration has one, and each is a declaration as it
ended. Declarations of one name that start without usages end with the same sites in strict order, and so do their
entries, unless a declaration of the same key did not start so. -/
structure ListsInterfaces (d : Disk) (facts : ProjectFacts) (entries : List Interface) : Prop where
  entry : ∀ i ∈ facts.interfaces, ∃ x ∈ entries, x.EntryOf d i
  declared : ∀ x ∈ entries, ∃ i ∈ facts.interfaces, x = i.ended d facts
  alike : ∀ i ∈ facts.interfaces, ∀ j ∈ facts.interfaces, i.name = j.name → i.usedBy = [] → j.usedBy = [] →
    (i.ended d facts).usedBy = (j.ended d facts).usedBy ∧ (i.ended d facts).usedBy.Pairwise Site.Before
  shown : ∀ x ∈ entries, ∀ y ∈ entries, x.name = y.name →
    (∀ i ∈ facts.interfaces, x.EntryOf d i ∨ y.EntryOf d i → i.usedBy = []) →
    x.usedBy = y.usedBy ∧ x.usedBy.Pairwise Site.Before

section Result

variable {d : Disk} {facts : ProjectFacts} {i j : Interface}

theorem Interface.entryOf_ended : (i.ended d facts).EntryOf d i :=
  ⟨rfl, rfl, rfl⟩

theorem usedInterfaces_eq_lastByKey : usedInterfaces d facts =
    lastByKey Interface.key ((facts.interfaces.map (Interface.ended d facts)).mergeSort Interface.le) := by
  unfold usedInterfaces
  simp only [fst_attachReferences, List.map_map]
  congr 2
  refine List.map_congr_left fun i _ => ?_
  rw [Function.comp_apply, Function.comp_apply, Interface.attach_eq]
  rfl

theorem mem_ended_of_mem_usedInterfaces {x : Interface} (h : x ∈ usedInterfaces d facts) :
    ∃ i ∈ facts.interfaces, x = i.ended d facts := by
  rw [usedInterfaces_eq_lastByKey] at h
  obtain ⟨i, hi, rfl⟩ := List.mem_map.mp (List.mem_mergeSort.mp (mem_of_mem_lastByKey _ h))
  exact ⟨i, hi, rfl⟩

/-- Every declaration has an entry at its place. -/
theorem exists_entryOf (hnames : ∀ i ∈ facts.interfaces, '|' ∉ i.name.toList) (hi : i ∈ facts.interfaces) :
    ∃ x ∈ usedInterfaces d facts, x.EntryOf d i := by
  have hmem : i.ended d facts ∈ (facts.interfaces.map (Interface.ended d facts)).mergeSort Interface.le :=
    List.mem_mergeSort.mpr (List.mem_map_of_mem hi)
  obtain ⟨x, hx, hkey⟩ := exists_key_lastByKey Interface.key hmem
  rw [← usedInterfaces_eq_lastByKey] at hx
  obtain ⟨j, hj, rfl⟩ := mem_ended_of_mem_usedInterfaces hx
  obtain ⟨hfile, hname, hline⟩ := Interface.place_eq_of_key_eq hkey (hnames j hj) (hnames i hi)
  refine ⟨_, hx, ?_, hname, hline⟩
  rwa [Interface.ended, Interface.ended, d.normalize_real, d.normalize_real] at hfile

theorem Interface.usedBy_ended_eq (hname : i.name = j.name) (hi : i.usedBy = []) (hj : j.usedBy = []) :
    (i.ended d facts).usedBy = (j.ended d facts).usedBy := by
  simp only [Interface.ended, Interface.newSites, hname, hi, hj]

theorem Interface.pairwise_usedBy_ended (hi : i.usedBy = []) : (i.ended d facts).usedBy.Pairwise Site.Before := by
  refine Site.pairwise_before_mergeSort ?_
  rw [Interface.newSites, hi, ← Site.foldl_attach_eq]
  exact Site.nodup_foldl_attach_nil

theorem listsInterfaces_usedInterfaces (hnames : ∀ i ∈ facts.interfaces, '|' ∉ i.name.toList) :
    ListsInterfaces d facts (usedInterfaces d facts) where
  entry _ hi := exists_entryOf hnames hi
  declared _ hx := mem_ended_of_mem_usedInterfaces hx
  alike _ _ _ _ hname hi hj := ⟨Interface.usedBy_ended_eq hname hi hj, Interface.pairwise_usedBy_ended hi⟩
  shown x hx y hy hname hempty := by
    obtain ⟨i, hi, rfl⟩ := mem_ended_of_mem_usedInterfaces hx
    obtain ⟨j, hj, rfl⟩ := mem_ended_of_mem_usedInterfaces hy
    have hi' := hempty i hi (Or.inl Interface.entryOf_ended)
    have hj' := hempty j hj (Or.inr Interface.entryOf_ended)
    exact ⟨Interface.usedBy_ended_eq hname hi' hj', Interface.pairwise_usedBy_ended hi'⟩

end Result

/-- **Interfaces gather the references to their names**, each site once, and all of them are in the result. -/
theorem references_aggregated :
    (∀ interfaces references, Aggregates interfaces references (attachReferences interfaces references).1
      (attachReferences interfaces references).2) ∧
    ∀ {d : Disk} {root : String} {rules : List Rule} {facts : ProjectFacts} {resolver : Resolver}
      {result : AnalysisResult}, (analyze d root rules facts resolver).1 = .ok result →
      (∀ i ∈ facts.interfaces, '|' ∉ i.name.toList) → ListsInterfaces d facts result.interfaces := by
  refine ⟨aggregates_attachReferences, ?_⟩
  intro d root rules facts resolver result h hnames
  obtain ⟨b, t, n, -, -, rfl⟩ := exists_of_analyze_eq_ok h
  exact listsInterfaces_usedInterfaces hnames

/-- Three declarations of one name, two of them in one file that is seen under two paths, and one of another name that
has a usage from the start; two references are the same once the link is followed. -/
def shapeFacts : ProjectFacts :=
  { interfaces :=
      [{ name := "Shape", file := "/proj/a.ts", line := 1 }, { name := "Shape", file := "/proj/copy.ts", line := 7 },
        { name := "Shape", file := "/proj/b.ts", line := 2 },
        { name := "Point", file := "/proj/b.ts", line := 4, usedBy := [⟨"/proj/c.ts", 1⟩] }]
    typeReferences :=
      [⟨"Shape", ⟨"/proj/copy.ts", 9⟩⟩, ⟨"Point", ⟨"/proj/c.ts", 1⟩⟩, ⟨"Shape", ⟨"/proj/a.ts", 9⟩⟩,
        ⟨"Shape", ⟨"/proj/a.ts", 3⟩⟩] }

/-- Each of the three declarations gets two sites, and all of them have entries. -/
theorem references_aggregated_shapes :
    ∃ interfaces result, interfaces = shapeFacts.interfaces.map (Located.canonical linkedDisk) ∧
      (attachReferences interfaces (canonicalReferences linkedDisk shapeFacts)).2 = 6 ∧
      Aggregates interfaces (canonicalReferences linkedDisk shapeFacts)
        (attachReferences interfaces (canonicalReferences linkedDisk shapeFacts)).1
        (attachReferences interfaces (canonicalReferences linkedDisk shapeFacts)).2 ∧
      (analyze linkedDisk "/proj" (rulesOf none) shapeFacts (.ofRoot "/proj" {})).1 = .ok result ∧
      (∀ i ∈ shapeFacts.interfaces, '|' ∉ i.name.toList) ∧ ListsInterfaces linkedDisk shapeFacts result.interfaces := by
  have hcount : (attachReferences (shapeFacts.interfaces.map (Located.canonical linkedDisk))
      (canonicalReferences linkedDisk shapeFacts)).2 = 6 := by decide +kernel
  have hnames : ∀ i ∈ shapeFacts.interfaces, '|' ∉ i.name.toList := by decide
  obtain ⟨result, h⟩ :=
    (exists_analyze_eq_ok_iff linkedDisk "/proj" (rulesOf none) shapeFacts (.ofRoot "/proj" {})).mpr ⟨_, rfl⟩
  exact ⟨_, result, rfl, hcount, references_aggregated.1 _ _, h, hnames, references_aggregated.2 h hnames⟩

end ExportAudit
