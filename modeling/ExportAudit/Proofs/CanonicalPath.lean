import Mathlib
import ExportAudit.FileTree

/-!
# Canonical paths are in normal form

A canonical place has segments of which none is empty, `.` or `..` or holds a slash (`plain_of_realPlace`), and a slash
with such segments behind it is its own normal form (`normalize_rooted`). Where a circular link is met a path from the root
is told instead (`regular_realPlace`), and its normal form is in normal form (`normalize_normalize`). Hence every canonical
path is (`normalize_real`).
-/

namespace ExportAudit

/-! ## Segments -/

namespace Path

/-- A segment as splitting a path gives it: it holds no slash. -/
def Slashless (s : String) : Prop := '/' ∉ s.toList

/-- A segment that a normal form keeps. -/
structure Plain (s : String) : Prop where
  slashless : Slashless s
  ne_empty : s ≠ ""
  ne_dot : s ≠ "."
  ne_dots : s ≠ ".."

/-- No part of a split list holds the separator. -/
theorem not_mem_of_mem_splitOn {sep : Char} {cs part : List Char} (h : part ∈ cs.splitOn sep) : sep ∉ part := by
  induction cs generalizing part with
  | nil =>
    rw [List.splitOn_nil, List.mem_singleton] at h
    simp [h]
  | cons c cs ih =>
    rw [List.splitOn_cons_eq_if_modifyHead] at h
    split at h
    · rcases List.mem_cons.mp h with rfl | h
      · simp
      · exact ih h
    · rename_i hc
      cases hs : cs.splitOn sep with
      | nil => simp [hs] at h
      | cons first others =>
        rw [hs] at h ih
        rcases List.mem_cons.mp h with rfl | h
        · rw [List.mem_cons, not_or]
          exact ⟨fun e => hc (by simp [e]), ih List.mem_cons_self⟩
        · exact ih (List.mem_cons_of_mem _ h)

theorem slashless_of_mem_segments {p s : String} (h : s ∈ segments p) : Slashless s := by
  obtain ⟨part, hpart, rfl⟩ := List.mem_map.mp h
  rw [Slashless, String.toList_ofList]
  exact not_mem_of_mem_splitOn hpart

/-! ## Collapsing -/

theorem plain_of_mem_push {stack : List String} {segment s : String} (hstack : ∀ s ∈ stack, Plain s)
    (hseg : Slashless segment) (h : s ∈ push true stack segment) : Plain s := by
  unfold push at h
  split at h
  · exact hstack s h
  · rename_i hblank
    split at h
    · cases stack with
      | nil => cases h
      | cons top rest =>
        have htop := (hstack top List.mem_cons_self).ne_dots
        simp only [beq_iff_eq, htop, if_false] at h
        exact hstack s (List.mem_cons_of_mem _ h)
    · rename_i hdots
      rcases List.mem_cons.mp h with rfl | h
      · simp only [Bool.or_eq_true, beq_iff_eq, not_or] at hblank hdots
        exact ⟨hseg, hblank.1, hblank.2, hdots⟩
      · exact hstack s h

theorem plain_of_mem_collapse {parts : List String} (hparts : ∀ s ∈ parts, Slashless s) {s : String}
    (h : s ∈ collapse true parts) : Plain s := by
  have hfold : ∀ (parts stack : List String), (∀ s ∈ parts, Slashless s) → (∀ s ∈ stack, Plain s) →
      ∀ s ∈ parts.foldl (push true) stack, Plain s := by
    intro parts
    induction parts with
    | nil => exact fun stack _ hstack => hstack
    | cons part parts ih =>
      intro stack hparts hstack
      apply ih _ fun s hs => hparts s (List.mem_cons_of_mem _ hs)
      exact fun s hs => plain_of_mem_push hstack (hparts part List.mem_cons_self) hs
  exact hfold parts [] hparts (by simp) s (List.mem_reverse.mp h)

theorem push_of_plain {s : String} (hs : Plain s) (rooted : Bool) (stack : List String) :
    push rooted stack s = s :: stack := by
  simp [push, hs.ne_empty, hs.ne_dot, hs.ne_dots]

/-- Segments that a normal form keeps are all kept. -/
theorem collapse_of_plain {parts : List String} (h : ∀ s ∈ parts, Plain s) (rooted : Bool) :
    collapse rooted parts = parts := by
  have hfold : ∀ (parts stack : List String), (∀ s ∈ parts, Plain s) →
      parts.foldl (push rooted) stack = parts.reverse ++ stack := by
    intro parts
    induction parts with
    | nil => exact fun _ _ => rfl
    | cons part parts ih =>
      intro stack h
      rw [List.foldl_cons, push_of_plain (h part List.mem_cons_self),
        ih _ fun s hs => h s (List.mem_cons_of_mem _ hs), List.reverse_cons, List.append_assoc]
      rfl
  rw [collapse, hfold parts [] h, List.append_nil, List.reverse_reverse]

/-! ## Paths from the root -/

theorem toList_rooted (parts : List String) :
    ("/" ++ Text.join "/" parts).toList = '/' :: ['/'].intercalate (parts.map String.toList) := by
  simp [Text.join]

theorem segments_rooted {parts : List String} (h : ∀ s ∈ parts, Plain s) (hne : parts ≠ []) :
    segments ("/" ++ Text.join "/" parts) = "" :: parts := by
  have hcut : '/' :: ['/'].intercalate (parts.map String.toList) =
      ['/'].intercalate ([] :: parts.map String.toList) := by
    rw [List.intercalate_cons_of_ne_nil (by simpa using hne)]
    rfl
  have hsplit : (['/'].intercalate ([] :: parts.map String.toList)).splitOn '/' = [] :: parts.map String.toList := by
    apply List.splitOn_intercalate
    · intro l hl
      rcases List.mem_cons.mp hl with rfl | hl
      · simp
      · obtain ⟨s, hs, rfl⟩ := List.mem_map.mp hl
        exact (h s hs).slashless
    · exact List.cons_ne_nil _ _
  rw [segments, Text.splitOn, toList_rooted, hcut, hsplit, List.map_cons, List.map_map]
  simp [Function.comp_def]

theorem isAbsolute_slash_append (p : String) : isAbsolute ("/" ++ p) = true := by
  simp [isAbsolute, Text.startsWith]

/-- Behind a slash, a segment that a normal form keeps begins with none. -/
theorem startsWith_doubleSlash_rooted {parts : List String} (h : ∀ s ∈ parts, Plain s) :
    Text.startsWith ("/" ++ Text.join "/" parts) "//" = false := by
  rw [Text.startsWith, toList_rooted]
  cases parts with
  | nil => decide
  | cons s rest =>
    have hs := h s List.mem_cons_self
    have hcs : s.toList ≠ [] := by simpa using hs.ne_empty
    obtain ⟨c, cs, hcons⟩ := List.exists_cons_of_ne_nil hcs
    have hc : c ≠ '/' := fun e => hs.slashless (by rw [hcons, e]; exact List.mem_cons_self)
    have hhead : ∃ more, ['/'].intercalate ((s :: rest).map String.toList) = c :: more := by
      cases rest with
      | nil => exact ⟨cs, by simp [hcons]⟩
      | cons t rest =>
        rw [List.map_cons, List.intercalate_cons_of_ne_nil (by simp), hcons]
        exact ⟨_, rfl⟩
    obtain ⟨more, hmore⟩ := hhead
    rw [hmore]
    simpa [List.isPrefixOf] using hc.symm

theorem rootMark_rooted {parts : List String} (h : ∀ s ∈ parts, Plain s) :
    rootMark ("/" ++ Text.join "/" parts) = "/" := by
  simp [rootMark, isAbsolute_slash_append, startsWith_doubleSlash_rooted h]

theorem collapse_rooted {parts : List String} (h : ∀ s ∈ parts, Plain s) :
    collapse true (segments ("/" ++ Text.join "/" parts)) = parts := by
  by_cases hne : parts = []
  · subst hne
    decide
  · rw [segments_rooted h hne]
    exact collapse_of_plain h true

/-- A path from the root with segments that a normal form keeps is in normal form. -/
theorem normalize_rooted {parts : List String} (h : ∀ s ∈ parts, Plain s) :
    normalize ("/" ++ Text.join "/" parts) = "/" ++ Text.join "/" parts := by
  simp [normalize, rootMark_rooted h, isAbsolute_slash_append, collapse_rooted h]

theorem segments_slash_append (p : String) : segments ("/" ++ p) = "" :: segments p := by
  simp [segments, Text.splitOn, List.splitOn_cons_eq_if_modifyHead]

theorem isAbsolute_join_left {p : String} (h : isAbsolute p = true) (q : String) : isAbsolute (join p q) = true := by
  obtain ⟨cs, hcs⟩ := List.isPrefixOf_iff_prefix.mp h
  have happend (r : String) : isAbsolute (p ++ r) = true := by
    refine List.isPrefixOf_iff_prefix.mpr ⟨cs ++ r.toList, ?_⟩
    rw [String.toList_append, ← hcs, List.append_assoc]
  unfold join
  split
  · assumption
  · split
    · exact happend q
    · rw [String.append_assoc]
      exact happend _

/-- Two slashes in front are kept. -/
theorem normalize_doubleRooted {parts : List String} (h : ∀ s ∈ parts, Plain s) :
    normalize ("/" ++ ("/" ++ Text.join "/" parts)) = "/" ++ ("/" ++ Text.join "/" parts) := by
  have hstarts (p q : String) : Text.startsWith ("/" ++ p) ("/" ++ q) = Text.startsWith p q := by
    simp [Text.startsWith]
  have hdouble : Text.startsWith ("/" ++ ("/" ++ Text.join "/" parts)) "//" = true :=
    (hstarts _ "/").trans (isAbsolute_slash_append _)
  have htriple : Text.startsWith ("/" ++ ("/" ++ Text.join "/" parts)) "///" = false :=
    (hstarts _ "//").trans (startsWith_doubleSlash_rooted h)
  have hmark : rootMark ("/" ++ ("/" ++ Text.join "/" parts)) = "//" := by
    simp [rootMark, isAbsolute_slash_append, hdouble, htriple]
  have hcollapse : collapse true (segments ("/" ++ ("/" ++ Text.join "/" parts))) = parts := by
    rw [segments_slash_append]
    exact collapse_rooted h
  unfold normalize
  rw [hmark, isAbsolute_slash_append, hcollapse]
  simp [← String.append_assoc]

/-- The normal form of a path from the root is in normal form. -/
theorem normalize_normalize {p : String} (h : isAbsolute p = true) : normalize (normalize p) = normalize p := by
  have hplain : ∀ s ∈ collapse true (segments p), Plain s := fun s hs =>
    plain_of_mem_collapse (fun _ => slashless_of_mem_segments) hs
  have hform : normalize p = "/" ++ Text.join "/" (collapse true (segments p)) ∨
      normalize p = "/" ++ ("/" ++ Text.join "/" (collapse true (segments p))) := by
    unfold normalize rootMark
    rw [h]
    by_cases hdouble : (Text.startsWith p "//" && !Text.startsWith p "///") = true
    · refine Or.inr ?_
      simp [hdouble, ← String.append_assoc]
    · refine Or.inl ?_
      simp [hdouble]
  rcases hform with hform | hform
  · rw [hform, normalize_rooted hplain]
  · rw [hform, normalize_doubleRooted hplain]

end Path

/-! ## Canonical paths -/

open ExportAudit.Path

namespace FileTree

variable {root : FileTree} {expand : List String → List String → List String → Except String (List String)}
  {here todo place : List String} {path : String}

/-- A place with segments that a normal form keeps, or a path from the root that is told instead. -/
def Regular : Except String (List String) → Prop
  | .ok place => ∀ s ∈ place, Plain s
  | .error path => isAbsolute path = true

/-- What a walk comes to is regular if what the walks along the targets of links come to is. -/
theorem regular_realWalk
    (hexpand : ∀ link here todo, (∀ s ∈ here, Plain s) → (∀ s ∈ todo, Slashless s) → Regular (expand link here todo))
    (hhere : ∀ s ∈ here, Plain s) (htodo : ∀ s ∈ todo, Slashless s) : Regular (realWalk root expand here todo) := by
  induction todo generalizing here with
  | nil => exact hhere
  | cons segment rest ih =>
    obtain ⟨hsegment, hrest⟩ := List.forall_mem_cons.mp htodo
    rw [realWalk]
    split
    · exact ih hhere hrest
    · rename_i hblank
      split
      · exact ih (fun s hs => hhere s (List.mem_of_mem_dropLast hs)) hrest
      · rename_i hdots
        split
        · rename_i target _
          have hstart : ∀ s ∈ (if isAbsolute target then [] else here), Plain s := by
            split
            · simp
            · exact hhere
          have hmid := hexpand (here ++ [segment]) _ (segments target) hstart fun s => slashless_of_mem_segments
          cases hplace : expand (here ++ [segment]) (if isAbsolute target then [] else here) (segments target) with
          | ok mid =>
            rw [hplace] at hmid
            exact ih hmid hrest
          | error told =>
            rw [hplace] at hmid
            exact isAbsolute_join_left hmid _
        · refine ih (List.forall_mem_append.mpr ⟨hhere, List.forall_mem_singleton.mpr ?_⟩) hrest
          simp only [Bool.or_eq_true, beq_iff_eq, not_or] at hblank hdots
          exact ⟨hsegment, hblank.1, hblank.2, hdots⟩

theorem regular_realLinks (n : Nat) (following : List (List String)) (hhere : ∀ s ∈ here, Plain s)
    (htodo : ∀ s ∈ todo, Slashless s) : Regular (realLinks root n following here todo) := by
  induction n generalizing following here todo with
  | zero => exact regular_realWalk (fun _ _ _ _ _ => isAbsolute_slash_append _) hhere htodo
  | succ n ih =>
    refine regular_realWalk (fun link here todo hhere htodo => ?_) hhere htodo
    split
    · exact isAbsolute_slash_append _
    · exact ih _ hhere htodo

theorem regular_realPlace (root : FileTree) (path : String) : Regular (root.realPlace path) :=
  regular_realLinks _ _ (by simp) fun _ => slashless_of_mem_segments

theorem plain_of_realPlace (h : root.realPlace path = .ok place) : ∀ s ∈ place, Plain s := by
  have hregular := regular_realPlace root path
  rwa [h] at hregular

end FileTree

namespace Disk

theorem real_of_ok {d : Disk} {path : String} {place : List String}
    (h : d.root.realPlace (join d.cwd path) = .ok place) : d.real path = "/" ++ Text.join "/" place := by
  unfold real
  rw [h]

theorem real_of_error {d : Disk} {path told : String} (h : d.root.realPlace (join d.cwd path) = .error told) :
    d.real path = normalize told := by
  unfold real
  rw [h]

/-- **A canonical path is in normal form.** -/
theorem normalize_real (d : Disk) (path : String) : normalize (d.real path) = d.real path := by
  cases h : d.root.realPlace (join d.cwd path) with
  | ok place => rw [real_of_ok h, normalize_rooted (FileTree.plain_of_realPlace h)]
  | error told =>
    have htold := FileTree.regular_realPlace d.root (join d.cwd path)
    rw [h] at htold
    rw [real_of_error h, normalize_normalize htold]

end Disk

end ExportAudit
