import Mathlib
import ExportAudit.Proofs.RelativePaths

/-!
# Canonical paths name themselves

A canonical path that was found without meeting a circular link has no link on the way to it (`Unlinked`,
`unlinked_of_realLinks`). So it is its own canonical path (`Settled.real_real`), and whoever goes from one such place to
another by the shortest way, up and down again, comes to the canonical path of the other
(`Settled.real_join_relativeTo`).

At a circular link the path is told as it is written from there on, and it is not canonical for good (`Settled` is the
condition). What leads somewhere meets none (`settled_of_resolve`).
-/

namespace ExportAudit

open ExportAudit.Path (Plain Slashless segments)

namespace FileTree

variable {root : FileTree} {here todo rest parts up place mid : List String} {segment target : String}
  {expand : List String → List String → List String → Except String (List String)}

/-! ## Places without links -/

/-- A place with no link on the way to it. -/
structure Unlinked (root : FileTree) (place : List String) : Prop where
  plain : ∀ s ∈ place, Plain s
  free : ∀ front segment, front ++ [segment] <+: place → ∀ target, root.get? (front ++ [segment]) ≠ some (.link target)

theorem unlinked_nil (root : FileTree) : Unlinked root [] :=
  ⟨by simp, by simp⟩

theorem Unlinked.of_isPrefix (h : Unlinked root place) (hhere : here <+: place) : Unlinked root here :=
  ⟨fun s hs => h.plain s (hhere.subset hs), fun front segment hfront => h.free front segment (hfront.trans hhere)⟩

theorem Unlinked.concat (h : Unlinked root here) (hsegment : Plain segment)
    (hnode : ∀ target, root.get? (here ++ [segment]) ≠ some (.link target)) : Unlinked root (here ++ [segment]) where
  plain := List.forall_mem_append.mpr ⟨h.plain, List.forall_mem_singleton.mpr hsegment⟩
  free front last hfront := by
    rcases List.prefix_concat_iff.mp hfront with heq | hfront
    · rw [heq]
      exact hnode
    · exact h.free front last hfront

/-! ## Walks -/

theorem realWalk_break {told : String} (hsegment : Naming segment)
    (hnode : root.get? (here ++ [segment]) = some (.link target))
    (hexpand : expand (here ++ [segment]) (linkStart here target) (segments target) = .error told) :
    realWalk root expand here (segment :: rest) = .error (Path.join told (Text.join "/" rest)) := by
  unfold linkStart at hexpand
  rw [realWalk]
  simp only [beq_iff_eq, Bool.or_eq_true, hsegment.ne_empty, hsegment.ne_dot, hsegment.ne_dots, or_self, if_false, hnode,
    hexpand]

/-- A walk that meets no circular link comes to a place without links on the way, if the walks along the targets of links
do. -/
theorem unlinked_of_realWalk
    (hexpand : ∀ link here todo mid, Unlinked root here → (∀ s ∈ todo, Slashless s) →
      expand link here todo = .ok mid → Unlinked root mid)
    (hhere : Unlinked root here) (htodo : ∀ s ∈ todo, Slashless s)
    (h : realWalk root expand here todo = .ok place) : Unlinked root place := by
  induction todo generalizing here with
  | nil =>
    obtain rfl : here = place := Except.ok.inj h
    exact hhere
  | cons segment rest ih =>
    rw [List.forall_mem_cons] at htodo
    by_cases hblank : segment = "" ∨ segment = "."
    · rw [realWalk_blank hblank] at h
      exact ih hhere htodo.2 h
    · by_cases hup : segment = ".."
      · subst hup
        rw [realWalk_up] at h
        exact ih (hhere.of_isPrefix (List.dropLast_prefix here)) htodo.2 h
      · rw [not_or] at hblank
        have hsegment : Naming segment := ⟨hblank.1, hblank.2, hup⟩
        by_cases hlink : ∃ target, root.get? (here ++ [segment]) = some (.link target)
        · obtain ⟨target, hnode⟩ := hlink
          have hstart : Unlinked root (linkStart here target) := by
            unfold linkStart
            split
            · exact unlinked_nil root
            · exact hhere
          cases hmid : expand (here ++ [segment]) (linkStart here target) (segments target) with
          | error told =>
            rw [realWalk_break hsegment hnode hmid] at h
            cases h
          | ok mid =>
            rw [realWalk_follow hsegment hnode hmid] at h
            exact ih (hexpand _ _ _ mid hstart (fun s => Path.slashless_of_mem_segments) hmid) htodo.2 h
        · rw [not_exists] at hlink
          rw [realWalk_enter hsegment hlink] at h
          exact ih (hhere.concat ⟨htodo.1, hblank.1, hblank.2, hup⟩ hlink) htodo.2 h

theorem unlinked_of_realLinks (n : Nat) (following : List (List String)) (hhere : Unlinked root here)
    (htodo : ∀ s ∈ todo, Slashless s) (h : realLinks root n following here todo = .ok place) :
    Unlinked root place := by
  induction n generalizing following here todo place with
  | zero => exact unlinked_of_realWalk (fun _ _ _ _ _ _ hmid => by cases hmid) hhere htodo h
  | succ n ih =>
    refine unlinked_of_realWalk (fun link here todo mid hhere htodo hmid => ?_) hhere htodo h
    split at hmid
    · cases hmid
    · exact ih _ hhere htodo hmid

/-- Down to a place without links on the way. -/
theorem realWalk_down (h : Unlinked root (here ++ parts)) :
    realWalk root expand here (parts ++ rest) = realWalk root expand (here ++ parts) rest := by
  induction parts generalizing here with
  | nil => rw [List.nil_append, List.append_nil]
  | cons segment parts ih =>
    have hcons : here ++ segment :: parts = here ++ [segment] ++ parts := by simp
    have hplain := h.plain segment (List.mem_append_right here List.mem_cons_self)
    rw [hcons] at h ⊢
    rw [← ih h, List.cons_append]
    exact realWalk_enter ⟨hplain.ne_empty, hplain.ne_dot, hplain.ne_dots⟩ (h.free here segment (List.prefix_append _ _))

/-- Up again as many steps as were taken. -/
theorem realWalk_back (here up : List String) :
    realWalk root expand (here ++ up) (List.replicate up.length ".." ++ rest) = realWalk root expand here rest := by
  induction up using List.reverseRecOn with
  | nil => rw [List.append_nil]; rfl
  | append_singleton up last ih =>
    rw [List.length_append, List.length_singleton, List.replicate_succ, List.cons_append, realWalk_up,
      ← List.append_assoc, List.dropLast_concat, ih]

theorem realWalk_rooted (hparts : ∀ s ∈ parts, Plain s) :
    realWalk root expand here (segments ("/" ++ Text.join "/" parts)) = realWalk root expand here parts := by
  by_cases hne : parts = []
  · subst hne
    have hsegments : segments ("/" ++ Text.join "/" []) = ["", ""] := by decide
    rw [hsegments, realWalk_blank (Or.inl rfl), realWalk_blank (Or.inl rfl)]
  · rw [Path.segments_rooted hparts hne, realWalk_blank (Or.inl rfl)]

theorem realLinks_eq_realWalk (root : FileTree) (n : Nat) (following : List (List String)) :
    ∃ expand, realLinks root n following = realWalk root expand := by
  cases n with
  | zero => exact ⟨_, rfl⟩
  | succ n => exact ⟨_, rfl⟩

/-- Paths along which every walk does the same have the same canonical path. -/
theorem realPlace_congr {p q : String}
    (h : ∀ expand, realWalk root expand [] (segments p) = realWalk root expand [] (segments q)) :
    root.realPlace p = root.realPlace q := by
  obtain ⟨expand, hlinks⟩ := realLinks_eq_realWalk root (root.linkCount + 1) []
  rw [realPlace, realPlace, hlinks, h expand]

theorem realPlace_of_unlinked (h : Unlinked root place) : root.realPlace ("/" ++ Text.join "/" place) = .ok place := by
  obtain ⟨expand, hlinks⟩ := realLinks_eq_realWalk root (root.linkCount + 1) []
  have hwalk : realWalk root expand [] place = .ok place := by
    have hdown : realWalk root expand [] (place ++ []) = realWalk root expand ([] ++ place) [] := realWalk_down h
    rwa [List.append_nil, List.nil_append] at hdown
  rw [realPlace, hlinks, realWalk_rooted h.plain, hwalk]

end FileTree

/-! ## Ways between places -/

namespace Path

variable {q : String} {parts : List String}

theorem segments_join_rooted (hparts : ∀ s ∈ parts, Plain s) (hq : isAbsolute q = false) :
    segments (join ("/" ++ Text.join "/" parts) q) = "" :: parts ++ segments q := by
  have hspelled : Spelled ("/" ++ Text.join "/" parts) parts := by
    have hspelled := spelled_of_normalize "/" (isAbsolute_slash_append _) (normalize_rooted hparts)
    rwa [steps_rooted "/" hparts] at hspelled
  have hne := ne_empty_of_isAbsolute hspelled.isAbsolute
  by_cases hnil : parts = []
  · subst hnil
    rw [join_of_relative hq, if_pos (Or.inr (by decide)), show "/" ++ Text.join "/" [] = "/" by decide,
      segments_slash_append]
    rfl
  · rw [join_of_relative hq, if_neg (not_or.mpr ⟨hne, by simp [hspelled.endsWith_slash hnil]⟩), segments_append_slash,
      segments_rooted hparts hnil]

theorem isAbsolute_relativeTo {cwd start p : String} (hp : isAbsolute p = true) :
    isAbsolute (relativeTo cwd start p) = false := by
  obtain ⟨⟨up, down⟩, hway⟩ : ∃ way, dropCommon (steps cwd start) (steps cwd p) = way := ⟨_, rfl⟩
  obtain ⟨common, -, hsteps⟩ := exists_common (steps cwd start) (steps cwd p)
  rw [hway] at hsteps
  rw [← Bool.not_eq_true, isAbsolute_iff_segments]
  rintro ⟨rest, hrest, hsegments⟩
  rcases segments_relativeTo hp hway with hparts | ⟨hdot, -, -⟩
  · have hmem : "" ∈ List.replicate up.length ".." ++ down := by
      rw [← hparts, hsegments]
      exact List.mem_cons_self
    rcases List.mem_append.mp hmem with hmem | hmem
    · exact absurd (List.eq_of_mem_replicate hmem) (by decide)
    · have hplain : Plain "" := plain_of_mem_steps hp (hsteps ▸ List.mem_append_right common hmem)
      exact hplain.ne_empty rfl
  · rw [hsegments] at hdot
    exact hrest (List.cons.inj hdot).2

end Path

namespace FileTree

variable {root : FileTree} {start parts : List String}

/-- The shortest way from a place without links on the way to any path leads where the path leads. -/
theorem realWalk_join_relativeTo (hstart : Unlinked root start)
    (hparts : ∀ s ∈ parts, Plain s) (cwd : String)
    (expand : List String → List String → List String → Except String (List String)) :
    realWalk root expand [] (segments (Path.join ("/" ++ Text.join "/" start)
      (Path.relativeTo cwd ("/" ++ Text.join "/" start) ("/" ++ Text.join "/" parts)))) =
        realWalk root expand [] (segments ("/" ++ Text.join "/" parts)) := by
  obtain ⟨⟨up, down⟩, hway⟩ : ∃ way, Path.dropCommon start parts = way := ⟨_, rfl⟩
  obtain ⟨common, hup, hdown⟩ := Path.exists_common start parts
  rw [hway] at hup hdown
  have habsolute := Path.isAbsolute_slash_append (Text.join "/" parts)
  have hcommon : Unlinked root ([] ++ common) := hstart.of_isPrefix ⟨up, hup.symm⟩
  have hwhole : Unlinked root ([] ++ start) := hstart
  rw [Path.segments_join_rooted hstart.plain (Path.isAbsolute_relativeTo habsolute), List.cons_append,
    realWalk_blank (Or.inl rfl), realWalk_down hwhole, List.nil_append, realWalk_rooted hparts]
  -- the common part is gone down either way
  have htarget : realWalk root expand [] parts = realWalk root expand common down := by
    rw [hdown]
    exact realWalk_down hcommon
  rw [htarget]
  rw [← Path.steps_rooted cwd hstart.plain, ← Path.steps_rooted cwd hparts] at hway
  rcases Path.segments_relativeTo habsolute hway with hsegments | ⟨hsegments, rfl, rfl⟩
  · rw [hsegments, hup]
    exact realWalk_back common up
  · rw [hsegments, realWalk_blank (Or.inr rfl), hup, List.append_nil]

end FileTree

namespace Disk

variable {d : Disk} {path : String} {place : List String} {node : FileTree}

/-- No circular link is met on the way to the canonical path. -/
def Settled (d : Disk) (path : String) : Prop :=
  (d.root.realPlace (Path.join d.cwd path)).isOk = true

instance (d : Disk) (path : String) : Decidable (d.Settled path) :=
  inferInstanceAs (Decidable (_ = true))

/-- What leads somewhere meets no circular link. -/
theorem settled_of_resolve (h : d.resolve true path = .at place node) : d.Settled path := by
  rw [resolve_eq (ne_empty_of_resolve h)] at h
  obtain ⟨k, -, hpassage, -⟩ := FileTree.exists_passage_of_walkLinks _ h
  rw [Settled, FileTree.realPlace_of_passage hpassage]
  rfl

theorem Settled.exists_unlinked (h : d.Settled path) :
    ∃ place, d.root.Unlinked place ∧ d.real path = "/" ++ Text.join "/" place := by
  cases hplace : d.root.realPlace (Path.join d.cwd path) with
  | error told =>
    rw [Settled, hplace] at h
    cases h
  | ok place =>
    have hunlinked := FileTree.unlinked_of_realLinks _ _ (FileTree.unlinked_nil d.root)
      (fun s => Path.slashless_of_mem_segments) hplace
    exact ⟨place, hunlinked, real_of_ok hplace⟩

theorem real_of_unlinked (h : d.root.Unlinked place) :
    d.real ("/" ++ Text.join "/" place) = "/" ++ Text.join "/" place := by
  refine real_of_ok ?_
  rw [Path.join_of_absolute (Path.isAbsolute_slash_append _), FileTree.realPlace_of_unlinked h]

/-- **A canonical path is its own canonical path**, unless it was cut short by a circular link. -/
theorem Settled.real_real (h : d.Settled path) : d.real (d.real path) = d.real path := by
  obtain ⟨place, hunlinked, hreal⟩ := h.exists_unlinked
  rw [hreal, real_of_unlinked hunlinked]

-- The link `a` leads through itself, and of what it leads to only a part is kept each time. What stands behind it is added
-- as it is written, so two slashes lead back to the root.
example : (⟨.directory [("a", .link "b/x"), ("b", .link "a")], "/"⟩ : Disk).real "/a" = "/a/x" ∧
    (⟨.directory [("a", .link "b/x"), ("b", .link "a")], "/"⟩ : Disk).real "/a/x" = "/a/x/x" ∧
    (⟨.directory [("a", .link "b/x"), ("b", .link "a")], "/"⟩ : Disk).real "/a//y" = "/y" := by
  decide +kernel

/-- Going the shortest way from a canonical directory leads where the path leads that the way was made for. -/
theorem Settled.real_join_relativeTo {root : String} (hroot : d.Settled root) (hpath : d.Settled path)
    (cwd : String) :
    d.real (Path.join (d.real root) (Path.relativeTo cwd (d.real root) (d.real path))) = d.real path := by
  obtain ⟨start, hstart, hrootReal⟩ := hroot.exists_unlinked
  obtain ⟨place, hplace, hpathReal⟩ := hpath.exists_unlinked
  rw [hrootReal, hpathReal]
  refine real_of_ok ?_
  rw [Path.join_of_absolute (Path.isAbsolute_join_left (Path.isAbsolute_slash_append _) _),
    FileTree.realPlace_congr (FileTree.realWalk_join_relativeTo hstart hplace.plain cwd),
    FileTree.realPlace_of_unlinked hplace]

end Disk

end ExportAudit
