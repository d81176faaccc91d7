import Mathlib
import ExportAudit.Proofs.Reachability

/-!
# The cycles of a graph

An elementary cycle goes through no file twice, and it does not matter where it begins (`Elementary`, a property of
`Cycle String`). Whatever enumerates the elementary cycles of a graph, each once and from any of its files on
(`Enumerates`), `listed` lists `limit` of them, or all if there are fewer, each once and written from its smallest file on
(`Enumerates.listsCycles`). The search for cycles is such an enumeration (`Proper.enumerates_simpleCycles`).

- Taking the first items of a generator takes the first of all its items (`Generator.take_eq`);
- turning a list without repetition to its smallest file keeps the cycle (`coe_fromSmallest`) and gives the one way in
  which the cycle is written (`written_fromSmallest`, `Written.eq_of_coe_eq`);
- the search closes a path in all the ways in which it can be closed (`mem_closings`), each of them once
  (`nodup_closings`), so it finds every cycle that is written from its smallest file on (`mem_allCycles_iff`), and what
  it leaves out are the files that import themselves (`written_withoutLoops_iff`).
-/

namespace ExportAudit

/-! ## Generators -/

namespace Generator

variable {α β : Type}

/-- All items, in the order in which they are found. -/
def toList : Generator α → List α
  | .done => []
  | .next a rest => a :: (rest ()).toList

@[simp]
theorem toList_single (a : α) : (single a).toList = [a] := rfl

@[simp]
theorem toList_append (g : Generator α) (more : Unit → Generator α) :
    (g.append more).toList = g.toList ++ (more ()).toList := by
  induction g with
  | done => rfl
  | next a rest ih => rw [append, toList, ih, toList, List.cons_append]

@[simp]
theorem toList_each (l : List β) (find : β → Generator α) : (each l find).toList = l.flatMap fun b => (find b).toList := by
  induction l with
  | nil => rfl
  | cons b l ih => rw [each, toList_append, ih, List.flatMap_cons]

/-- The first items of a generator are the first of all its items. -/
theorem take_eq (n : Nat) (g : Generator α) : g.take n = g.toList.take n := by
  fun_induction take n g with
  | case1 => rfl
  | case2 => simp [toList]
  | case3 => simp [toList]
  | case4 n a rest ih => rw [ih, toList, List.take_succ_cons]

end Generator

namespace ImportGraph

/-! ## Elementary cycles -/

/-- A cycle of imports that goes through no file twice. A file that imports itself is one. -/
structure Elementary (g : ImportGraph) (c : Cycle String) : Prop where
  ne_nil : c ≠ Cycle.nil
  nodup : c.Nodup
  chain : c.Chain fun a b => (a, b) ∈ g.pairs

/-- A cycle written from its smallest file on. -/
structure Written (g : ImportGraph) (first : String) (rest : List String) : Prop where
  nodup : (first :: rest).Nodup
  chain : (first :: (rest ++ [first])).IsChain fun a b => (a, b) ∈ g.pairs
  least : ∀ f ∈ rest, first < f

section Written

variable {g : ImportGraph} {first first' : String} {rest rest' : List String}

theorem Written.elementary (h : g.Written first rest) : g.Elementary ((first :: rest : List String) : Cycle String) where
  ne_nil := by simp
  nodup := Cycle.nodup_coe_iff.mpr h.nodup
  chain := (Cycle.chain_coe_cons _ _ _).mpr h.chain

theorem Written.least_mem (h : g.Written first rest) {f : String} (hf : f ∈ first :: rest) : first ≤ f := by
  rcases List.mem_cons.mp hf with rfl | hf
  · exact le_rfl
  · exact (h.least f hf).le

/-- A list without repetition has only one rotation that begins with a given item. -/
theorem eq_of_isRotated_of_nodup {α : Type} {a : α} {l l' : List α} (hnodup : (a :: l).Nodup)
    (h : (a :: l).IsRotated (a :: l')) : l = l' := by
  obtain ⟨n, hn, hrotate⟩ := List.isRotated_iff_mod.mp h
  rcases hn.lt_or_eq with hlt | rfl
  · have hhead : (a :: l)[n] = (a :: l)[0] := by
      have hrotated := List.head?_rotate hlt
      rw [hrotate, List.head?_cons, List.getElem?_eq_getElem hlt] at hrotated
      exact (Option.some.inj hrotated).symm
    obtain rfl := hnodup.getElem_inj_iff.mp hhead
    rw [List.rotate_zero] at hrotate
    exact (List.cons.inj hrotate).2
  · rw [List.rotate_length] at hrotate
    exact (List.cons.inj hrotate).2

/-- A cycle has a smallest file only once, so it is written from there in one way. -/
theorem Written.eq_of_coe_eq (h : g.Written first rest) (h' : g.Written first' rest')
    (heq : ((first :: rest : List String) : Cycle String) = (first' :: rest' : List String)) :
    first :: rest = first' :: rest' := by
  have hrotated := Cycle.coe_eq_coe.mp heq
  have hfirst : first = first' :=
    le_antisymm (h.least_mem (hrotated.mem_iff.mpr List.mem_cons_self))
      (h'.least_mem (hrotated.mem_iff.mp List.mem_cons_self))
  subst hfirst
  rw [eq_of_isRotated_of_nodup h.nodup hrotated]

/-- Keeping the smaller file ends with the smallest one. -/
theorem foldl_smaller (first : String) (rest : List String) :
    rest.foldl smaller first ∈ first :: rest ∧ ∀ f ∈ first :: rest, rest.foldl smaller first ≤ f := by
  induction rest generalizing first with
  | nil => simp
  | cons next rest ih =>
    obtain ⟨hmem, hleast⟩ := ih (smaller first next)
    have hfirst := hleast _ List.mem_cons_self
    rw [List.foldl_cons]
    unfold smaller at hmem hleast hfirst ⊢
    split at hmem <;> rename_i hlt
    · rw [if_pos hlt] at hleast hfirst ⊢
      refine ⟨List.mem_cons_of_mem _ hmem, List.forall_mem_cons.mpr ⟨hfirst.trans hlt.le, hleast⟩⟩
    · rw [if_neg hlt] at hleast hfirst ⊢
      obtain ⟨-, hrest⟩ := List.forall_mem_cons.mp hleast
      refine ⟨?_, List.forall_mem_cons.mpr ⟨hfirst, List.forall_mem_cons.mpr ⟨hfirst.trans (not_lt.mp hlt), hrest⟩⟩⟩
      rcases List.mem_cons.mp hmem with heq | hmem
      · exact List.mem_cons.mpr (Or.inl heq)
      · exact List.mem_cons_of_mem _ (List.mem_cons_of_mem _ hmem)

/-- A cycle stays the same when it is turned to its smallest file. -/
theorem coe_fromSmallest (l : List String) : (fromSmallest l : Cycle String) = l := by
  cases l with
  | nil => rfl
  | cons first rest =>
    rw [fromSmallest, Cycle.coe_eq_coe]
    refine List.isRotated_append.trans ?_
    rw [List.take_append_drop]

theorem fromSmallest_cons (first : String) (rest : List String) :
    ∃ others, fromSmallest (first :: rest) = rest.foldl smaller first :: others := by
  have hlt : (first :: rest).idxOf (rest.foldl smaller first) < (first :: rest).length :=
    List.idxOf_lt_length_iff.mpr (foldl_smaller first rest).1
  rw [fromSmallest, List.drop_eq_getElem_cons hlt, List.getElem_idxOf, List.cons_append]
  exact ⟨_, rfl⟩

/-- An elementary cycle that is turned to its smallest file is written from there on. -/
theorem written_fromSmallest {l : List String} (h : g.Elementary (l : Cycle String)) :
    ∃ first rest, fromSmallest l = first :: rest ∧ g.Written first rest := by
  cases l with
  | nil => exact absurd rfl h.ne_nil
  | cons a l =>
    have hcoe := coe_fromSmallest (a :: l)
    obtain ⟨rest, hcons⟩ := fromSmallest_cons a l
    rw [hcons] at hcoe ⊢
    have hsame := hcoe.symm ▸ h
    have hnodup := Cycle.nodup_coe_iff.mp hsame.nodup
    refine ⟨_, rest, rfl, hnodup, (Cycle.chain_coe_cons _ _ _).mp hsame.chain, fun f hf => ?_⟩
    have hmem : f ∈ a :: l := (Cycle.coe_eq_coe.mp hcoe).mem_iff.mp (List.mem_cons_of_mem _ hf)
    exact lt_of_le_of_ne ((foldl_smaller a l).2 f hmem) fun heq => (List.nodup_cons.mp hnodup).1 (heq ▸ hf)

/-- Every elementary cycle can be written from its smallest file on. -/
theorem exists_written {c : Cycle String} (h : g.Elementary c) :
    ∃ first rest, g.Written first rest ∧ ((first :: rest : List String) : Cycle String) = c := by
  induction c using Quotient.inductionOn' with
  | h l =>
    obtain ⟨first, rest, hcons, hwritten⟩ := written_fromSmallest h
    exact ⟨first, rest, hwritten, hcons ▸ coe_fromSmallest l⟩

end Written

/-! ## The search -/

/-- The cycles that a path can be closed to, its last file first. -/
def closings (g : ImportGraph) (start : String) (allowed : List String) : Nat → List String → List (List String)
  | 0, _ => []
  | n + 1, path => (g.dependencies (path.headD start)).flatMap fun next =>
      if next == start then [path.reverse]
      else if allowed.contains next && !path.contains next then closings g start allowed n (next :: path)
      else []

/-- The files on the cycles whose smallest file is `start`. -/
def aboveAncestors (g : ImportGraph) (start : String) : List String :=
  g.ancestors (fun f => decide (start < f)) start

/-- The cycles whose smallest file is `start`. -/
def closingsFrom (g : ImportGraph) (start : String) : List (List String) :=
  g.closings start (g.aboveAncestors start) (g.aboveAncestors start).length [start]

/-- All cycles, by their smallest files. -/
def allCycles (g : ImportGraph) : List (List String) :=
  (sortTexts g.files).flatMap g.closingsFrom

section Search

variable {g : ImportGraph} {start last : String} {allowed before : List String} {n : Nat}

theorem toList_closePath (n : Nat) (path : List String) :
    (g.closePath start allowed n path).toList = g.closings start allowed n path := by
  induction n generalizing path with
  | zero => rfl
  | succ n ih =>
    rw [closePath, closings, Generator.toList_each]
    congr 1
    funext next
    split
    · rw [Generator.toList_single]
    · split
      · exact ih _
      · rfl

theorem toList_cyclesFrom (g : ImportGraph) (start : String) : (g.cyclesFrom start).toList = g.closingsFrom start :=
  toList_closePath _ [start]

/-- **A path is closed in all the ways in which it can be closed.** -/
theorem mem_closings {c : List String} : c ∈ g.closings start allowed n (last :: before) ↔
    ∃ rest, c = (last :: before).reverse ++ rest ∧ rest.length < n ∧ rest.Nodup ∧
      (last :: (rest ++ [start])).IsChain (fun a b => (a, b) ∈ g.pairs) ∧
      ∀ f ∈ rest, f ∈ allowed ∧ f ≠ start ∧ f ∉ last :: before := by
  induction n generalizing last before with
  | zero => simp [closings]
  | succ n ih =>
    rw [closings, List.mem_flatMap]
    simp only [List.headD_cons, mem_dependencies_iff]
    constructor
    · rintro ⟨next, hedge, hc⟩
      by_cases hstart : next = start
      · rw [if_pos (by simpa using hstart), List.mem_singleton] at hc
        exact ⟨[], by simp [hc], by simp, by simp, by simpa [hstart] using hedge, by simp⟩
      · rw [if_neg (by simpa using hstart)] at hc
        by_cases hnext : next ∈ allowed ∧ next ∉ last :: before
        · rw [if_pos (by simpa using hnext), ih] at hc
          obtain ⟨rest, rfl, hlength, hnodup, hchain, hrest⟩ := hc
          refine ⟨next :: rest, by simp, by simp only [List.length_cons]; omega, ?_, ?_, ?_⟩
          · exact List.nodup_cons.mpr ⟨fun hmem => (hrest next hmem).2.2 List.mem_cons_self, hnodup⟩
          · exact List.isChain_cons_cons.mpr ⟨hedge, hchain⟩
          · refine List.forall_mem_cons.mpr ⟨⟨hnext.1, hstart, hnext.2⟩, fun f hf => ?_⟩
            obtain ⟨hallowed, hne, hnew⟩ := hrest f hf
            exact ⟨hallowed, hne, fun hmem => hnew (List.mem_cons_of_mem _ hmem)⟩
        · rw [if_neg (by simpa using hnext)] at hc
          cases hc
    · rintro ⟨rest, rfl, hlength, hnodup, hchain, hrest⟩
      cases rest with
      | nil => exact ⟨start, by simpa using hchain, by simp⟩
      | cons next rest =>
        obtain ⟨hedge, hchain⟩ := List.isChain_cons_cons.mp hchain
        obtain ⟨hnext, hrest⟩ := List.forall_mem_cons.mp hrest
        obtain ⟨hfresh, hnodup⟩ := List.nodup_cons.mp hnodup
        refine ⟨next, hedge, ?_⟩
        rw [if_neg (by simpa using hnext.2.1), if_pos (by simpa using And.intro hnext.1 hnext.2.2), ih]
        refine ⟨rest, by simp, by simpa using hlength, hnodup, hchain, fun f hf => ?_⟩
        obtain ⟨hallowed, hne, hnew⟩ := hrest f hf
        refine ⟨hallowed, hne, fun hmem => ?_⟩
        rcases List.mem_cons.mp hmem with rfl | hmem
        · exact hfresh hf
        · exact hnew hmem

/-- What follows a path in a cycle that it is closed to tells how the path goes on. -/
theorem next_of_mem_closings {next : String} {files : List String}
    (h : files ∈ if next == start then [(last :: before).reverse]
      else if allowed.contains next && !(last :: before).contains next then
        g.closings start allowed n (next :: last :: before)
      else []) :
    files[before.length + 1]? = if next = start then none else some next := by
  by_cases hstart : next = start
  · rw [if_pos (by simpa using hstart), List.mem_singleton] at h
    simp [h, hstart]
  · rw [if_neg (by simpa using hstart)] at h
    split at h
    · obtain ⟨rest, rfl, -⟩ := mem_closings.mp h
      have hcut : (next :: last :: before).reverse ++ rest = (last :: before).reverse ++ next :: rest := by simp
      rw [hcut, List.getElem?_append_right (by simp), if_neg hstart]
      simp
    · cases h

/-- A path is closed in no way twice: two ways differ where they go on differently. -/
theorem nodup_closings (h : g.Proper) (n : Nat) (last : String) (before : List String) :
    (g.closings start allowed n (last :: before)).Nodup := by
  induction n generalizing last before with
  | zero => exact List.nodup_nil
  | succ n ih =>
    rw [closings, List.nodup_flatMap]
    constructor
    · intro next _
      split
      · exact List.nodup_singleton _
      · split
        · exact ih next (last :: before)
        · exact List.nodup_nil
    · refine (h.pairwise_dependencies _).imp fun {next next'} hlt c hc hc' => ?_
      have hnext := next_of_mem_closings hc
      rw [next_of_mem_closings hc'] at hnext
      by_cases hstart : next = start
      · have hstart' : next' ≠ start := fun heq => hlt.ne (hstart.trans heq.symm)
        simp [hstart, hstart'] at hnext
      · by_cases hstart' : next' = start
        · simp [hstart, hstart'] at hnext
        · rw [if_neg hstart, if_neg hstart'] at hnext
          exact hlt.ne (Option.some.inj hnext).symm

end Search

/-! ## All cycles -/

section All

variable {g : ImportGraph} {start : String}

theorem start_mem_aboveAncestors (g : ImportGraph) (start : String) : start ∈ g.aboveAncestors start :=
  mem_ancestors_iff.mpr .refl

theorem lt_of_mem_aboveAncestors {f : String} (h : f ∈ g.aboveAncestors start) (hne : f ≠ start) : start < f := by
  rcases (mem_ancestors_iff.mp h).eq_or with heq | hlt
  · exact absurd heq hne
  · exact of_decide_eq_true hlt

/-- The files of a chain to the smallest file of a cycle lead there. -/
theorem mem_aboveAncestors_of_chain {rest : List String} {first : String}
    (hchain : (rest ++ [first]).IsChain fun a b => (a, b) ∈ g.pairs) (hleast : ∀ f ∈ rest, first < f) :
    ∀ f ∈ rest, f ∈ g.aboveAncestors first := by
  induction rest with
  | nil => simp
  | cons x rest ih =>
    obtain ⟨hx, hleast⟩ := List.forall_mem_cons.mp hleast
    rw [List.cons_append] at hchain
    have hrest := ih hchain.tail hleast
    refine List.forall_mem_cons.mpr ⟨?_, hrest⟩
    have hstep (b : String) (hedge : (x, b) ∈ g.pairs) : g.Step (fun f => decide (first < f)) x b :=
      ⟨decide_eq_true hx, hedge⟩
    cases rest with
    | nil =>
      have hedge : (x, first) ∈ g.pairs := by simpa using hchain
      exact mem_ancestors_iff.mpr (.single (hstep first hedge))
    | cons y rest =>
      have hedge : (x, y) ∈ g.pairs := (List.isChain_cons_cons.mp hchain).1
      exact mem_ancestors_iff.mpr (.head (hstep y hedge) (mem_ancestors_iff.mp (hrest y List.mem_cons_self)))

theorem mem_closingsFrom_iff {c : List String} :
    c ∈ g.closingsFrom start ↔ ∃ rest, c = start :: rest ∧ g.Written start rest := by
  rw [closingsFrom, mem_closings]
  constructor
  · rintro ⟨rest, rfl, -, hnodup, hchain, hrest⟩
    refine ⟨rest, rfl, List.nodup_cons.mpr ⟨fun hmem => (hrest start hmem).2.1 rfl, hnodup⟩, hchain, fun f hf => ?_⟩
    obtain ⟨hallowed, hne, -⟩ := hrest f hf
    exact lt_of_mem_aboveAncestors hallowed hne
  · rintro ⟨rest, rfl, h⟩
    have hallowed := mem_aboveAncestors_of_chain h.chain.tail h.least
    have hlength : (start :: rest).length ≤ (g.aboveAncestors start).length :=
      (List.subperm_of_subset h.nodup
        (List.cons_subset.mpr ⟨start_mem_aboveAncestors g start, hallowed⟩)).length_le
    refine ⟨rest, rfl, by simpa using hlength, (List.nodup_cons.mp h.nodup).2, h.chain, fun f hf => ?_⟩
    have hne := (h.least f hf).ne'
    exact ⟨hallowed f hf, hne, by simpa using hne⟩

/-- The first file of a cycle imports another, or itself. -/
theorem Written.exists_pair {first : String} {rest : List String} (h : g.Written first rest) :
    ∃ b, (first, b) ∈ g.pairs := by
  have hchain := h.chain
  cases rest with
  | nil => exact ⟨first, by simpa using hchain⟩
  | cons y rest => exact ⟨y, (List.isChain_cons_cons.mp hchain).1⟩

/-- **The search finds the cycles that are written from their smallest files on, and nothing else.** -/
theorem mem_allCycles_iff (hends : ∀ a b, (a, b) ∈ g.pairs → a ∈ g.files) {c : List String} :
    c ∈ g.allCycles ↔ ∃ first rest, c = first :: rest ∧ g.Written first rest := by
  rw [allCycles, List.mem_flatMap]
  simp only [(sortTexts_perm _).mem_iff, mem_closingsFrom_iff]
  constructor
  · rintro ⟨first, -, rest, rfl, h⟩
    exact ⟨first, rest, rfl, h⟩
  · rintro ⟨first, rest, rfl, h⟩
    obtain ⟨b, hpair⟩ := h.exists_pair
    exact ⟨first, hends first b hpair, rest, rfl, h⟩

theorem nodup_allCycles (h : g.Proper) : g.allCycles.Nodup := by
  rw [allCycles, List.nodup_flatMap]
  refine ⟨fun start _ => nodup_closings h _ start [], ?_⟩
  refine (pairwise_lt_sortTexts h.files).imp fun hlt c hc hc' => ?_
  obtain ⟨rest, rfl, -⟩ := mem_closingsFrom_iff.mp hc
  obtain ⟨rest', heq, -⟩ := mem_closingsFrom_iff.mp hc'
  exact hlt.ne (List.cons.inj heq).1

end All

/-! ## Files that import themselves -/

section Loops

variable {g : ImportGraph}

theorem mem_pairs_withoutLoops {a b : String} : (a, b) ∈ g.withoutLoops.pairs ↔ (a, b) ∈ g.pairs ∧ a ≠ b := by
  simp only [pairs, withoutLoops, List.mem_map, List.mem_filter, bne_iff_ne, Prod.mk.injEq]
  constructor
  · rintro ⟨e, ⟨he, hne⟩, rfl, rfl⟩
    exact ⟨⟨e, he, rfl, rfl⟩, hne⟩
  · rintro ⟨⟨e, he, rfl, rfl⟩, hne⟩
    exact ⟨e, ⟨he, hne⟩, rfl, rfl⟩

theorem Proper.withoutLoops (h : g.Proper) : g.withoutLoops.Proper where
  files := h.files
  pairs := h.pairs.sublist (List.filter_sublist.map _)

/-- A file alone is a cycle if it imports itself. -/
theorem written_nil_iff {file : String} : g.Written file [] ↔ (file, file) ∈ g.pairs := by
  constructor
  · intro h
    simpa using h.chain
  · intro h
    exact ⟨by simp, by simpa using h, by simp⟩

/-- The cycles that need no import of a file by itself are those through several files. -/
theorem written_withoutLoops_iff {first : String} {rest : List String} :
    g.withoutLoops.Written first rest ↔ g.Written first rest ∧ rest ≠ [] := by
  constructor
  · intro h
    refine ⟨⟨h.nodup, h.chain.imp fun a b hpair => (mem_pairs_withoutLoops.mp hpair).1, h.least⟩, ?_⟩
    rintro rfl
    exact (mem_pairs_withoutLoops.mp (written_nil_iff.mp h)).2 rfl
  · rintro ⟨h, hne⟩
    refine ⟨h.nodup, ?_, h.least⟩
    have hdiffer : (first :: rest ++ [first]).IsChain (· ≠ ·) := by
      refine List.isChain_append.mpr ⟨h.nodup.isChain, List.isChain_singleton _, ?_⟩
      intro last hlast head hhead
      rw [List.getLast?_cons_of_ne_nil hne] at hlast
      obtain rfl : first = head := by simpa using hhead
      exact (h.least last (List.mem_of_getLast? hlast)).ne'
    exact List.isChain_iff_getElem.mpr fun i hi =>
      mem_pairs_withoutLoops.mpr ⟨h.chain.getElem i hi, hdiffer.getElem i hi⟩

theorem mem_allCycles_withoutLoops_iff (hends : ∀ a b, (a, b) ∈ g.pairs → a ∈ g.files) {c : List String} :
    c ∈ g.withoutLoops.allCycles ↔ ∃ first rest, c = first :: rest ∧ g.Written first rest ∧ rest ≠ [] := by
  rw [mem_allCycles_iff (g := g.withoutLoops) fun a b hpair => hends a b (mem_pairs_withoutLoops.mp hpair).1]
  simp only [written_withoutLoops_iff]

theorem toList_simpleCycles (g : ImportGraph) :
    g.simpleCycles.toList =
      (g.files.filter fun f => (g.edge? f f).isSome).map (fun f => [f]) ++ g.withoutLoops.allCycles := by
  rw [simpleCycles, Generator.toList_append, Generator.toList_each, Generator.toList_each, allCycles,
    List.map_eq_flatMap]
  congr 2
  funext start
  exact toList_cyclesFrom _ start

/-- **The search finds the cycles that are written from their smallest files on, and nothing else.** -/
theorem mem_toList_simpleCycles_iff (hends : ∀ a b, (a, b) ∈ g.pairs → a ∈ g.files) {c : List String} :
    c ∈ g.simpleCycles.toList ↔ ∃ first rest, c = first :: rest ∧ g.Written first rest := by
  rw [toList_simpleCycles, List.mem_append, mem_allCycles_withoutLoops_iff hends]
  simp only [List.mem_map, List.mem_filter, ← mem_pairs_iff]
  constructor
  · rintro (⟨file, ⟨-, hpair⟩, rfl⟩ | ⟨first, rest, rfl, hwritten, -⟩)
    · exact ⟨file, [], rfl, written_nil_iff.mpr hpair⟩
    · exact ⟨first, rest, rfl, hwritten⟩
  · rintro ⟨first, rest, rfl, hwritten⟩
    by_cases hnil : rest = []
    · subst hnil
      have hpair := written_nil_iff.mp hwritten
      exact Or.inl ⟨first, ⟨hends _ _ hpair, hpair⟩, rfl⟩
    · exact Or.inr ⟨first, rest, rfl, hwritten, hnil⟩

theorem nodup_toList_simpleCycles (h : g.Proper) (hends : ∀ a b, (a, b) ∈ g.pairs → a ∈ g.files) :
    g.simpleCycles.toList.Nodup := by
  rw [toList_simpleCycles]
  refine ((h.files.filter _).map fun a b heq => (List.cons.inj heq).1).append (nodup_allCycles h.withoutLoops) ?_
  intro c hself hc
  obtain ⟨file, -, rfl⟩ := List.mem_map.mp hself
  obtain ⟨first, rest, heq, -, hne⟩ := (mem_allCycles_withoutLoops_iff hends).mp hc
  exact hne (List.cons.inj heq).2.symm

end Loops

/-! ## Enumerations -/

/-- Lists of files in which each elementary cycle stands once, from any of its files on. -/
structure Enumerates (g : ImportGraph) (all : List (List String)) : Prop where
  nodup : (all.map Cycle.ofList).Nodup
  mem_iff : ∀ c, c ∈ all.map Cycle.ofList ↔ g.Elementary c

/-- **The search enumerates the elementary cycles.** -/
theorem Proper.enumerates_simpleCycles {g : ImportGraph} (h : g.Proper)
    (hends : ∀ a b, (a, b) ∈ g.pairs → a ∈ g.files) : g.Enumerates g.simpleCycles.toList := by
  constructor
  · refine List.Nodup.map_on (fun c hc c' hc' heq => ?_) (nodup_toList_simpleCycles h hends)
    obtain ⟨first, rest, rfl, hw⟩ := (mem_toList_simpleCycles_iff hends).mp hc
    obtain ⟨first', rest', rfl, hw'⟩ := (mem_toList_simpleCycles_iff hends).mp hc'
    exact hw.eq_of_coe_eq hw' heq
  · intro c
    rw [List.mem_map]
    constructor
    · rintro ⟨l, hl, rfl⟩
      obtain ⟨first, rest, rfl, hw⟩ := (mem_toList_simpleCycles_iff hends).mp hl
      exact hw.elementary
    · intro hc
      obtain ⟨first, rest, hw, rfl⟩ := exists_written hc
      exact ⟨_, (mem_toList_simpleCycles_iff hends).mpr ⟨first, rest, rfl, hw⟩, rfl⟩

section Enumerates

variable {g : ImportGraph} {all : List (List String)}

theorem Enumerates.setOf_elementary_eq (h : g.Enumerates all) :
    {c | g.Elementary c} = ((all.map Cycle.ofList).toFinset : Set (Cycle String)) := by
  ext c
  rw [Set.mem_ofPred_eq, Finset.mem_coe, List.mem_toFinset, h.mem_iff]

/-- There are as many elementary cycles as are enumerated. -/
theorem Enumerates.ncard_elementary (h : g.Enumerates all) : {c | g.Elementary c}.ncard = all.length := by
  rw [h.setOf_elementary_eq, Set.ncard_coe_finset, List.toFinset_card_of_nodup h.nodup, List.length_map]

theorem Enumerates.elementary (h : g.Enumerates all) {l : List String} (hl : l ∈ all) :
    g.Elementary (l : Cycle String) :=
  (h.mem_iff _).mp (List.mem_map_of_mem hl)

end Enumerates

/-- Lists are compared item by item. -/
theorem listLe_iff (c c' : List String) : listLe c c' = true ↔ c ≤ c' := by
  have hlex (c c' : List String) : listLe c c' = true ↔ ¬ List.Lex (· < ·) c' c := by
    fun_induction listLe c c' with
    | case1 c' => simp
    | case2 a c => simp
    | case3 a c b c' heq ih =>
      obtain rfl := beq_iff_eq.mp heq
      rw [ih, List.cons_lex_cons_iff]
      simp
    | case4 a c b c' hne =>
      have hab : a ≠ b := by simpa using hne
      rw [List.cons_lex_cons_iff, decide_eq_true_eq]
      simp [hab.symm, lt_iff_le_and_ne, hab]
  have hlt : c' < c ↔ List.Lex (· < ·) c' c := Iff.rfl
  rw [hlex, ← hlt, not_lt]

/-! ## The listing -/

/-- What it means that lists of files list the cycles of a graph, up to a limit. -/
structure ListsCycles (g : ImportGraph) (limit : Nat) (found : List (List String)) : Prop where
  /-- There are finitely many elementary cycles. -/
  finite : {c | g.Elementary c}.Finite
  /-- As many of them are listed as the limit allows. -/
  length : found.length = min limit {c | g.Elementary c}.ncard
  /-- Each list is an elementary cycle, written from its smallest file on. -/
  written : ∀ c ∈ found, ∃ first rest, c = first :: rest ∧ g.Written first rest
  /-- No list occurs twice, and no cycle is listed in two ways. -/
  nodup : found.Nodup ∧ (found.map Cycle.ofList).Nodup
  sorted : found.Pairwise (· ≤ ·)
  /-- If the limit allows it, every elementary cycle is listed. -/
  complete : {c | g.Elementary c}.ncard ≤ limit → ∀ c, g.Elementary c → ∃! l, l ∈ found ∧ (l : Cycle String) = c

theorem map_coe_fromSmallest (all : List (List String)) :
    (all.map fromSmallest).map Cycle.ofList = all.map Cycle.ofList := by
  rw [List.map_map]
  exact List.map_congr_left fun l _ => coe_fromSmallest l

/-- **The cycles of an enumeration are listed.** -/
theorem Enumerates.listsCycles {g : ImportGraph} {enumeration : Generator (List String)}
    (h : g.Enumerates enumeration.toList) (limit : Nat) : g.ListsCycles limit (listed enumeration limit) := by
  have hperm : (listed enumeration limit).Perm ((enumeration.toList.take limit).map fromSmallest) := by
    rw [listed, Generator.take_eq]
    exact List.mergeSort_perm _ _
  have hcoe : ((listed enumeration limit).map Cycle.ofList).Perm ((enumeration.toList.take limit).map Cycle.ofList) := by
    rw [← map_coe_fromSmallest (enumeration.toList.take limit)]
    exact hperm.map _
  have hnodup : ((listed enumeration limit).map Cycle.ofList).Nodup := by
    rw [hcoe.nodup_iff, List.map_take]
    exact h.nodup.sublist (List.take_sublist _ _)
  constructor
  · rw [h.setOf_elementary_eq]
    exact Finset.finite_toSet _
  · rw [hperm.length_eq, List.length_map, List.length_take, h.ncard_elementary]
  · intro c hc
    obtain ⟨l, hl, rfl⟩ := List.mem_map.mp (hperm.mem_iff.mp hc)
    exact written_fromSmallest (h.elementary (List.mem_of_mem_take hl))
  · exact ⟨hnodup.of_map _, hnodup⟩
  · exact pairwise_mergeSort_rank listLe_iff _
  · intro hfits c hc
    rw [h.ncard_elementary] at hfits
    rw [List.take_of_length_le hfits] at hcoe
    obtain ⟨l, hl, rfl⟩ := List.mem_map.mp (hcoe.mem_iff.mpr ((h.mem_iff c).mpr hc))
    refine ⟨l, ⟨hl, rfl⟩, ?_⟩
    rintro l' ⟨hl', heq⟩
    exact List.inj_on_of_nodup_map hnodup hl' hl heq

theorem enumerates_grown (changes : List Change) : (grown changes).Enumerates (grown changes).simpleCycles.toList := by
  refine (proper_grown changes).enumerates_simpleCycles fun a b hpair => ?_
  obtain ⟨line, reference, hcall⟩ := mem_filterMap_pair?.mp (mem_pairs_grown.mp hpair)
  exact mem_files_grown.mpr (List.mem_flatMap.mpr ⟨_, hcall, by simp [Change.files]⟩)

/-- **The cycles of a graph are listed**, whatever enumerates them; the search does. -/
theorem grown_lists_cycles (changes : List Change) :
    (∀ (enumeration : Generator (List String)) (limit : Nat), (grown changes).Enumerates enumeration.toList →
      (grown changes).ListsCycles limit (listed enumeration limit)) ∧
    (grown changes).Enumerates (grown changes).simpleCycles.toList ∧
    ∀ limit : Int,
      (∃ found, (grown changes).cycles? limit = .ok found ∧ (grown changes).ListsCycles limit.toNat found) ↔
        0 ≤ limit ∧ limit ≤ greatestLimit := by
  have hsearch := enumerates_grown changes
  refine ⟨fun enumeration limit h => h.listsCycles limit, hsearch, fun limit => ?_⟩
  rw [cycles?]
  constructor
  · rintro ⟨found, hfound, -⟩
    by_contra hrange
    rw [if_neg hrange] at hfound
    cases hfound
  · intro hrange
    rw [if_pos hrange]
    exact ⟨_, rfl, hsearch.listsCycles limit.toNat⟩

/-- Two files that import each other, and one that imports itself. -/
def pairAndLoop : List Change :=
  [.addImport "/a" "/b" 1 "./b", .addImport "/b" "/a" 1 "./a", .addImport "/c" "/c" 1 "./c"]

/-- Their cycles, one of them from its greater file on. -/
def pairAndLoopTurned : Generator (List String) :=
  .next ["/c"] fun _ => .single ["/b", "/a"]

/-- With a limit of one the first cycle of the enumeration is kept, whichever is smaller, and the other is turned. -/
theorem grown_lists_cycles_turned :
    (grown pairAndLoop).Enumerates pairAndLoopTurned.toList ∧
    listed pairAndLoopTurned 1 = [["/c"]] ∧ (grown pairAndLoop).ListsCycles 1 [["/c"]] ∧
    listed pairAndLoopTurned 2 = [["/a", "/b"], ["/c"]] ∧ (grown pairAndLoop).ListsCycles 2 [["/a", "/b"], ["/c"]] := by
  have hsearch : (grown pairAndLoop).simpleCycles.toList = [["/c"], ["/a", "/b"]] := by cbv
  have hturned : pairAndLoopTurned.toList.map Cycle.ofList = [["/c"], ["/a", "/b"]].map Cycle.ofList := by decide
  have henumerates : (grown pairAndLoop).Enumerates pairAndLoopTurned.toList := by
    obtain ⟨hnodup, hmem⟩ := hsearch ▸ enumerates_grown pairAndLoop
    rw [← hturned] at hnodup hmem
    exact ⟨hnodup, hmem⟩
  have hone : listed pairAndLoopTurned 1 = [["/c"]] := by cbv
  have htwo : listed pairAndLoopTurned 2 = [["/a", "/b"], ["/c"]] := by cbv
  have hlists := (grown_lists_cycles pairAndLoop).1 pairAndLoopTurned
  exact ⟨henumerates, hone, hone ▸ hlists 1 henumerates, htwo, htwo ▸ hlists 2 henumerates⟩

end ImportGraph

end ExportAudit
