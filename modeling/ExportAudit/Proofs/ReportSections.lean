import Mathlib
import ExportAudit.Report
import ExportAudit.Proofs.Cutting
import ExportAudit.Proofs.Settling

/-!
# The sections of the report of used exports

The report of used exports has a section for each file that declares one, with a block for each export of it. What the
sections have to hold is said by `Report.Arranges`, without regard to how they are made: nothing is lost or repeated, each
section is about its own file, and everything is in order. There is one such arrangement (`arranges_iff`): sorting by file
and name puts the exports of a file side by side, and so cutting wherever the file changes leaves one section for each.
`usedExports_arranged` says that the report is its title and the lines of these sections.
-/

namespace ExportAudit.Report

/-! ## Arrangements -/

/-- A file and the exports that are listed under it. -/
structure FileSection where
  file : String
  exports : List Export

/-- What follows the name of a default export: its local name, if it has one. -/
def defaultRemark (e : Export) : String :=
  if e.isDefault = false then ""
  else if e.localName.getD "" = "" then " (default)"
  else " (default: " ++ e.localName.getD "" ++ ")"

/-- The line of a usage: the convention of the framework, or the file and the line of the site. -/
def siteLine (display : Display) (s : Site) : String :=
  if s.file = "<framework>" then "- Used by framework convention\n"
  else "- Used in: `" ++ display s.file ++ "` (Line " ++ toString s.line ++ ")\n"

/-- The lines of the block of an export: its heading, its usages in order, and an empty line. -/
def blockLines (display : Display) (e : Export) : List String :=
  ("### Export: `" ++ e.name ++ defaultRemark e ++ "` (Line " ++ toString e.line ++ ")\n") ::
    e.usedBy.map (siteLine display) ++ ["\n"]

/-- The lines of a section: its heading and the blocks of its exports. -/
def FileSection.lines (display : Display) (s : FileSection) : List String :=
  ("## File: `" ++ display s.file ++ "`\n") :: s.exports.flatMap (blockLines display)

/-- Sections that list the exports. -/
structure Arranges (used : List Export) (sections : List FileSection) : Prop where
  /-- Every export is listed as often as it is there. -/
  perm : (sections.flatMap (·.exports)).Perm used
  /-- Every section lists something, and nothing of another file. -/
  own : ∀ s ∈ sections, s.exports ≠ [] ∧ ∀ e ∈ s.exports, e.file = s.file
  /-- No file has two sections, and the files come in order. -/
  files : sections.Pairwise fun a b => a.file < b.file
  /-- The exports of a file come in the order of their names. -/
  names : ∀ s ∈ sections, s.exports.Pairwise fun a b => a.name ≤ b.name
  /-- Exports of one file and name keep their order. -/
  ties : ∀ file name, (sections.flatMap (·.exports)).filter (fun e => e.file = file ∧ e.name = name) =
    used.filter fun e => e.file = file ∧ e.name = name

/-- The section of exports of one file. -/
def FileSection.ofGroup (group : List Export) : FileSection :=
  ⟨(group.head?.map (·.file)).getD "", group⟩

variable {used : List Export} {sections : List FileSection} {s : FileSection} {group : List Export} {e : Export}

/-- Where an export stands among the used ones. -/
def listedRank (e : Export) : String ×ₗ String :=
  toLex (e.file, e.name)

theorem listedRank_le_iff (a b : Export) :
    thenLe (·.file) (fun a b => decide (a.name ≤ b.name)) a b = true ↔ listedRank a ≤ listedRank b :=
  thenLe_iff_toLex Export.file Export.name (fun _ _ => decide_eq_true_iff) a b

theorem listedRank_eq_iff (e : Export) (file name : String) :
    listedRank e = toLex (file, name) ↔ e.file = file ∧ e.name = name := by
  rw [listedRank, toLex_inj, Prod.mk.injEq]

theorem flatten_byFile (used : List Export) :
    (byFile used).flatten = used.mergeSort (thenLe (·.file) fun a b => decide (a.name ≤ b.name)) :=
  List.flatten_splitBy _ _

theorem pairwise_flatten_byFile (used : List Export) :
    (byFile used).flatten.Pairwise fun a b => listedRank a ≤ listedRank b := by
  rw [flatten_byFile]
  exact pairwise_mergeSort_rank listedRank_le_iff used

/-! ## The sections that are made -/

theorem file_eq_of_mem_byFile (hgroup : group ∈ byFile used) {a b : Export} (ha : a ∈ group) (hb : b ∈ group) :
    a.file = b.file := by
  have hchain : (group.map Export.file).IsChain (· = ·) := by
    rw [List.isChain_map]
    exact (List.isChain_of_mem_splitBy hgroup).imp fun a b h => eq_of_beq h
  exact hchain.pairwise.forall_of_forall (fun _ _ => rfl) (List.mem_map_of_mem ha) (List.mem_map_of_mem hb)

theorem file_ofGroup (hgroup : group ∈ byFile used) (he : e ∈ group) : e.file = (FileSection.ofGroup group).file := by
  cases group with
  | nil => cases he
  | cons first rest => exact file_eq_of_mem_byFile hgroup he List.mem_cons_self

/-- The files of the groups increase: where one group ends the file changes, and no later file is smaller. -/
theorem pairwise_file_byFile (used : List Export) :
    (byFile used).Pairwise fun a b => (FileSection.ofGroup a).file < (FileSection.ofGroup b).file := by
  have hle := (List.pairwise_flatten.mp (pairwise_flatten_byFile used)).2.isChain
  have hne : (byFile used).IsChain _ := List.isChain_getLast_head_splitBy _ _
  have hlt : (byFile used).IsChain fun a b => (FileSection.ofGroup a).file < (FileSection.ofGroup b).file := by
    rw [List.isChain_iff_getElem] at hle hne ⊢
    intro i hi
    obtain ⟨hlast, hhead, hchange⟩ := hne i hi
    have hranks := hle i hi _ (List.getLast_mem hlast) _ (List.head_mem hhead)
    have hfiles := (Prod.Lex.toLex_le_toLex.mp hranks).imp_right And.left
    rw [← file_ofGroup (List.getElem_mem _) (List.getLast_mem hlast),
      ← file_ofGroup (List.getElem_mem _) (List.head_mem hhead)]
    exact hfiles.resolve_right (ne_of_beq_false hchange)
  exact List.pairwise_map.mp ((List.isChain_map _).mpr hlt).pairwise

theorem flatMap_exports_ofGroup (groups : List (List Export)) :
    (groups.map FileSection.ofGroup).flatMap (·.exports) = groups.flatten := by
  rw [List.flatMap_map]
  exact List.flatMap_id'

theorem arranges_byFile (used : List Export) : Arranges used ((byFile used).map FileSection.ofGroup) where
  perm := by
    rw [flatMap_exports_ofGroup, flatten_byFile]
    exact List.mergeSort_perm _ _
  own := by
    intro s hs
    obtain ⟨group, hgroup, rfl⟩ := List.mem_map.mp hs
    exact ⟨List.ne_nil_of_mem_splitBy hgroup, fun e he => file_ofGroup hgroup he⟩
  files := List.pairwise_map.mpr (pairwise_file_byFile used)
  names := by
    intro s hs
    obtain ⟨group, hgroup, rfl⟩ := List.mem_map.mp hs
    have hsorted := (List.pairwise_flatten.mp (pairwise_flatten_byFile used)).1 group hgroup
    refine hsorted.imp_of_mem fun {a b} ha hb hranks => ?_
    have hfile := file_eq_of_mem_byFile hgroup ha hb
    exact ((Prod.Lex.toLex_le_toLex.mp hranks).resolve_left (by simp [hfile])).2
  ties file name := by
    have hfilter := filter_mergeSort_rank listedRank_le_iff used (toLex (file, name))
    simp only [listedRank_eq_iff] at hfilter
    rw [flatMap_exports_ofGroup, flatten_byFile, hfilter]

/-! ## There is no other arrangement -/

namespace Arranges

theorem ofGroup_exports (h : Arranges used sections) (hs : s ∈ sections) : FileSection.ofGroup s.exports = s := by
  obtain ⟨hne, hfile⟩ := h.own s hs
  obtain ⟨file, exports⟩ := s
  cases exports with
  | nil => exact absurd rfl hne
  | cons first rest => exact congrArg (FileSection.mk · _) (hfile first List.mem_cons_self)

theorem pairwise_rank (h : Arranges used sections) :
    (sections.map (·.exports)).flatten.Pairwise fun a b => listedRank a ≤ listedRank b := by
  rw [List.pairwise_flatten, List.forall_mem_map, List.pairwise_map]
  constructor
  · intro s hs
    refine (h.names s hs).imp_of_mem fun {a b} ha hb hname => Prod.Lex.toLex_le_toLex.mpr (Or.inr ⟨?_, hname⟩)
    rw [(h.own s hs).2 a ha, (h.own s hs).2 b hb]
  · refine h.files.imp_of_mem fun {s t} hs ht hlt a ha b hb => Prod.Lex.toLex_le_toLex.mpr (Or.inl ?_)
    rwa [(h.own s hs).2 a ha, (h.own t ht).2 b hb]

/-- The exports, one section after another, are sorted, and sorting leaves no choice. -/
theorem flatten_eq (h : Arranges used sections) : (sections.map (·.exports)).flatten = (byFile used).flatten := by
  refine eq_of_pairwise_rank h.pairwise_rank (pairwise_flatten_byFile used) fun rank => ?_
  have hties := (h.ties (ofLex rank).1 (ofLex rank).2).trans
    ((arranges_byFile used).ties (ofLex rank).1 (ofLex rank).2).symm
  rw [flatMap_exports_ofGroup] at hties
  simpa only [← listedRank_eq_iff, Prod.mk.eta, toLex_ofLex, List.flatMap_def] using hties

/-- The sections are cut where the file changes. -/
theorem splitBy_eq (h : Arranges used sections) :
    (sections.map (·.exports)).flatten.splitBy (fun a b => a.file == b.file) = sections.map (·.exports) := by
  refine List.splitBy_eq_iff.mpr ⟨rfl, ?_, ?_, ?_⟩
  · rw [List.mem_map]
    rintro ⟨s, hs, hnil⟩
    exact (h.own s hs).1 hnil
  · rw [List.forall_mem_map]
    intro s hs
    refine List.Pairwise.isChain (List.pairwise_of_forall_mem_list fun a ha b hb => ?_)
    simp [(h.own s hs).2 a ha, (h.own s hs).2 b hb]
  · rw [List.isChain_map]
    refine h.files.isChain.imp_of_mem_imp fun s t hs ht hlt => ?_
    refine ⟨(h.own s hs).1, (h.own t ht).1, beq_false_of_ne ?_⟩
    rw [(h.own s hs).2 _ (List.getLast_mem _), (h.own t ht).2 _ (List.head_mem _)]
    exact hlt.ne

end Arranges

/-- The sections that are made are the only arrangement. -/
theorem arranges_iff : Arranges used sections ↔ sections = (byFile used).map FileSection.ofGroup := by
  constructor
  · intro h
    have hgroups : sections.map (·.exports) = byFile used := by
      rw [← h.splitBy_eq, h.flatten_eq, flatten_byFile, byFile]
    rw [← hgroups, List.map_map]
    exact ((List.map_congr_left fun s hs => h.ofGroup_exports hs).trans (List.map_id sections)).symm
  · rintro rfl
    exact arranges_byFile used

/-! ## The text -/

theorem join_cons (part : String) (rest : List String) : Text.join "" (part :: rest) = part ++ Text.join "" rest := by
  rw [String.ext_iff, toList_join_empty, String.toList_append, toList_join_empty]
  rfl

theorem join_append (before after : List String) :
    Text.join "" (before ++ after) = Text.join "" before ++ Text.join "" after := by
  rw [String.ext_iff, toList_join_empty, String.toList_append, toList_join_empty, toList_join_empty]
  simp

/-- Texts written one after another are their lines written one after another. -/
theorem join_flatMap {α : Type} (lines : α → List String) (items : List α) :
    Text.join "" (items.flatMap lines) = Text.join "" (items.map fun a => Text.join "" (lines a)) := by
  induction items with
  | nil => rfl
  | cons a items ih => rw [List.flatMap_cons, join_append, ih, List.map_cons, join_cons]

theorem displayName_eq (e : Export) : e.displayName = e.name ++ defaultRemark e := by
  unfold Export.displayName defaultRemark
  cases hdefault : e.isDefault with
  | false => simp
  | true =>
    cases hlocal : e.localName with
    | none => simp
    | some l => by_cases hempty : l = "" <;> simp [hempty, String.append_assoc]

theorem usageLine_eq (display : Display) (s : Site) : usageLine display s = siteLine display s := by
  have hsite : "- Used in: " ++ code (display s.file) ++ " " ++ lineMark s.line ++ "\n" =
      "- Used in: `" ++ display s.file ++ "` (Line " ++ toString s.line ++ ")\n" := by
    rw [String.ext_iff]
    simp [code, lineMark]
  unfold usageLine siteLine
  rw [hsite]
  simp [Site.isFramework, Site.framework]

theorem exportBlock_eq (display : Display) (e : Export) : exportBlock display e = Text.join "" (blockLines display e) := by
  have hend : Text.join "" ["\n"] = "\n" := by decide
  have hheading : "### Export: " ++ code e.displayName ++ " " ++ lineMark e.line ++ "\n" =
      "### Export: `" ++ e.name ++ defaultRemark e ++ "` (Line " ++ toString e.line ++ ")\n" := by
    rw [displayName_eq, String.ext_iff]
    simp [code, lineMark]
  unfold exportBlock
  rw [hheading, blockLines, List.cons_append, join_cons, join_append, hend, String.append_assoc,
    funext (usageLine_eq display)]

theorem fileSection_eq (display : Display) (group : List Export) :
    fileSection display group = Text.join "" ((FileSection.ofGroup group).lines display) := by
  have hheading (file : String) : "## File: " ++ code (display file) ++ "\n" = "## File: `" ++ display file ++ "`\n" := by
    rw [String.ext_iff]
    simp [code]
  unfold fileSection
  rw [hheading, FileSection.lines, join_cons, join_flatMap, funext (exportBlock_eq display)]
  rfl

theorem usedExports_eq (display : Display) {r : AnalysisResult} (h : r.used ≠ []) :
    usedExports display r = "# ✅ Used Exports\n\n" ++ Text.join "" ((byFile r.used).map (fileSection display)) := by
  have hfull : ¬ r.used.isEmpty = true := by simpa using h
  unfold usedExports
  congr 1
  exact if_neg hfull

/-- **The report of used exports loses and repeats nothing.** It is the title followed by the lines of the sections that
list the used exports. -/
theorem usedExports_arranged (display : Display) (r : AnalysisResult) (h : r.used ≠ []) :
    ∃! sections, Arranges r.used sections ∧
      usedExports display r = "# ✅ Used Exports\n\n" ++ Text.join "" (sections.flatMap (FileSection.lines display)) := by
  refine ⟨(byFile r.used).map FileSection.ofGroup, ⟨arranges_byFile r.used, ?_⟩, fun sections hsections =>
    arranges_iff.mp hsections.1⟩
  rw [usedExports_eq display h, join_flatMap, List.map_map, funext (fileSection_eq display), Function.comp_def]

def libB : Export :=
  ⟨"b", "/proj/lib.ts", 4, false, none, none, [Site.framework]⟩

def pageHome : Export :=
  ⟨"default", "/proj/app/page.tsx", 1, true, some "Home", none, [⟨"/proj/lib.ts", 9⟩, ⟨"/proj/app/nav.tsx", 2⟩]⟩

def libA : Export :=
  ⟨"a", "/proj/lib.ts", 7, false, none, none, [⟨"/proj/app/page.tsx", 1⟩]⟩

/-- Exports of two files by turns, one of them used twice. -/
def mixedResult : AnalysisResult where
  root := "/proj"
  used := [libB, pageHome, libA]

theorem byFile_mixedResult : byFile mixedResult.used = [[pageHome], [libA, libB]] := by
  let le : Export → Export → Bool := thenLe (·.file) fun a b => decide (a.name ≤ b.name)
  have hfiles : le libB pageHome = false ∧ le pageHome libA = true := by decide +kernel
  have hnames : le libB libA = false := by decide +kernel
  have hsorted : mixedResult.used.mergeSort le = [pageHome, libA, libB] := by
    simp [mixedResult, List.mergeSort, List.MergeSort.Internal.splitInTwo, hfiles, hnames]
  rw [byFile, hsorted]
  decide +kernel

theorem usedExports_arranged_mixed : mixedResult.used ≠ [] ∧
    (∃! sections, Arranges mixedResult.used sections ∧ usedExports (Path.display "/" "/proj") mixedResult =
      "# ✅ Used Exports\n\n" ++ Text.join "" (sections.flatMap (FileSection.lines (Path.display "/" "/proj")))) ∧
    ∃ sections, Arranges mixedResult.used sections ∧ sections.flatMap (FileSection.lines (Path.display "/" "/proj")) =
      ["## File: `app/page.tsx`\n",
       "### Export: `default (default: Home)` (Line 1)\n",
       "- Used in: `lib.ts` (Line 9)\n", "- Used in: `app/nav.tsx` (Line 2)\n", "\n",
       "## File: `lib.ts`\n",
       "### Export: `a` (Line 7)\n", "- Used in: `app/page.tsx` (Line 1)\n", "\n",
       "### Export: `b` (Line 4)\n", "- Used by framework convention\n", "\n"] := by
  have hused : mixedResult.used ≠ [] := by decide
  refine ⟨hused, usedExports_arranged _ mixedResult hused, [.ofGroup [pageHome], .ofGroup [libA, libB]], ?_,
    by decide +kernel⟩
  rw [arranges_iff, byFile_mixedResult]
  rfl

end ExportAudit.Report
