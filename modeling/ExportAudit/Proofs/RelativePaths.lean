import Mathlib
import ExportAudit.Proofs.EntriesBelow

/-!
# The way from one path to another

An absolute path in normal form is known by its steps (`steps_eq`, `steps_rooted`); it spells them with slashes in front
and between them (`Spelled`). The way from a directory to a path leaves out what the two have in common and goes up from
there as often as needed, then down (`exists_common`, `segments_relativeTo`). What begins with a directory and a slash is
below the directory (`startsWith_iff_below`), and is reached by going down alone (`segments_relativeTo_below`).
-/

namespace ExportAudit.Path

variable {cwd p q start : String} {parts up down : List String}

/-! ## Steps -/

theorem solid_segments_join (h : ∀ s ∈ parts, Plain s) : FileTree.solid (segments (Text.join "/" parts)) = parts := by
  by_cases hne : parts = []
  · subst hne
    decide
  · rw [segments_join_of_slashless hne fun s hs => (h s hs).slashless]
    exact List.filter_eq_self.mpr fun s hs => bne_iff_ne.mpr (h s hs).ne_empty

theorem plain_of_mem_collapse_segments {s : String} (h : s ∈ collapse true (segments p)) : Plain s :=
  plain_of_mem_collapse (fun _ hs => slashless_of_mem_segments hs) h

/-- The steps of an absolute path are the segments of its normal form. -/
theorem steps_eq (cwd : String) (h : isAbsolute p = true) : steps cwd p = collapse true (segments p) := by
  obtain ⟨marks, hmarks, hsegments⟩ := segments_normalize h
  have hblank : marks.filter (· != "") = [] :=
    List.filter_eq_nil_iff.mpr fun s hs => by simp [hmarks s hs]
  have hparts : FileTree.solid (segments (Text.join "/" (collapse true (segments p)))) = collapse true (segments p) :=
    solid_segments_join fun _ => plain_of_mem_collapse_segments
  rw [steps, absolute, if_pos h, hsegments, List.filter_cons_of_neg (by simp), List.filter_append, hblank,
    List.nil_append]
  exact hparts

theorem plain_of_mem_steps {s : String} (h : isAbsolute p = true) (hs : s ∈ steps cwd p) : Plain s := by
  rw [steps_eq cwd h] at hs
  exact plain_of_mem_collapse_segments hs

theorem steps_rooted (cwd : String) (h : ∀ s ∈ parts, Plain s) : steps cwd ("/" ++ Text.join "/" parts) = parts := by
  rw [steps, absolute, if_pos (isAbsolute_slash_append _), normalize_rooted h, segments_slash_append,
    List.filter_cons_of_neg (by simp)]
  exact solid_segments_join h

/-! ## Spelled paths -/

/-- An absolute path that is nothing but its steps and the slashes in front of and between them. -/
structure Spelled (p : String) (parts : List String) : Prop where
  isAbsolute : isAbsolute p = true
  plain : ∀ s ∈ parts, Plain s
  segments : ∃ marks, (∀ t ∈ marks, t = "") ∧ segments p = marks ++ parts

theorem spelled_of_normalize (cwd : String) (h : isAbsolute p = true) (hnormal : normalize p = p) :
    Spelled p (steps cwd p) := by
  have hplain : ∀ s ∈ steps cwd p, Plain s := fun s => plain_of_mem_steps h
  refine ⟨h, hplain, ?_⟩
  obtain ⟨marks, hmarks, hsegments⟩ := segments_normalize h
  rw [hnormal, ← steps_eq cwd h] at hsegments
  by_cases hnil : steps cwd p = []
  · refine ⟨"" :: (marks ++ [""]), ?_, ?_⟩
    · simpa [or_imp, forall_and] using hmarks
    · rw [hsegments, hnil, List.append_nil]
      rfl
  · refine ⟨"" :: marks, List.forall_mem_cons.mpr ⟨rfl, hmarks⟩, ?_⟩
    rw [hsegments, segments_text hnil hplain]
    rfl

theorem Spelled.steps_eq (h : Spelled p parts) (cwd : String) : steps cwd p = parts := by
  obtain ⟨marks, hmarks, hsegments⟩ := h.segments
  have htidy : FileTree.Tidy (Path.segments p) := by
    rw [hsegments]
    intro s hs
    exact (List.mem_append.mp hs).imp (hmarks s) (h.plain s)
  have hblank : marks.filter (· != "") = [] :=
    List.filter_eq_nil_iff.mpr fun s hs => by simp [hmarks s hs]
  rw [Path.steps_eq cwd h.isAbsolute, collapse_of_tidy htidy, FileTree.solid, hsegments, List.filter_append, hblank]
  exact List.filter_eq_self.mpr fun s hs => bne_iff_ne.mpr (h.plain s hs).ne_empty

/-- An entry of a directory is spelled if the directory is. -/
theorem Spelled.entry {name : String} (h : Spelled p parts) (hname : Plain name) :
    Spelled (join p name) (parts ++ [name]) := by
  have hp := ne_empty_of_isAbsolute h.isAbsolute
  obtain ⟨marks, hmarks, hsegments⟩ := h.segments
  obtain ⟨front, hjoin, hfront⟩ := segments_join hp hname.slashless hname.relative
  refine ⟨isAbsolute_join_left h.isAbsolute name, ?_, ?_⟩
  · exact List.forall_mem_append.mpr ⟨h.plain, List.forall_mem_singleton.mpr hname⟩
  · rcases hfront with hfront | hfront
    · exact ⟨marks, hmarks, by rw [hjoin, ← hfront, hsegments, List.append_assoc]⟩
    · -- a slash at the end of a spelled path is one of those in front
      have hnil : parts = [] := by
        by_contra hne
        have hlast : (marks ++ parts).getLast? = some "" := by rw [← hsegments, hfront, List.getLast?_concat]
        rw [List.getLast?_append_of_ne_nil _ hne] at hlast
        exact (h.plain "" (List.mem_of_getLast? hlast)).ne_empty rfl
      subst hnil
      rw [List.append_nil] at hsegments
      refine ⟨front, fun t ht => hmarks t ?_, by rw [hjoin, List.nil_append]⟩
      rw [← hsegments, hfront]
      exact List.mem_append_left _ ht

theorem Spelled.endsWith_slash (h : Spelled p parts) (hne : parts ≠ []) : Text.endsWith p "/" = false := by
  rw [← Bool.not_eq_true, endsWith_iff]
  rintro ⟨front, rfl⟩
  obtain ⟨marks, -, hsegments⟩ := h.segments
  have hlast := segments_append_slash front ""
  rw [String.append_empty, hsegments, segments_empty] at hlast
  have hempty : (marks ++ parts).getLast? = some "" := by rw [hlast, List.getLast?_concat]
  rw [List.getLast?_append_of_ne_nil _ hne] at hempty
  exact (h.plain "" (List.mem_of_getLast? hempty)).ne_empty rfl

/-- The steps of a path behind a directory and a slash are those of the directory and those behind it. -/
theorem Spelled.segments_behind {dir rest : String} {steps : List String} (hdir : Spelled dir parts) (hne : parts ≠ [])
    (h : Spelled (dir ++ "/" ++ rest) steps) : steps = parts ++ Path.segments rest := by
  obtain ⟨marks, hmarks, hsegments⟩ := hdir.segments
  obtain ⟨marks', hmarks', hsegments'⟩ := h.segments
  rw [segments_append_slash, hsegments, List.append_assoc] at hsegments'
  rcases List.append_eq_append_iff.mp hsegments' with ⟨more, rfl, hparts⟩ | ⟨more, rfl, hsteps⟩
  · cases more with
    | nil => exact hparts.symm
    | cons t more =>
      -- the first step of the directory would be empty
      obtain ⟨s, parts, rfl⟩ := List.exists_cons_of_ne_nil hne
      have hfirst : s = t := (List.cons.inj hparts).1
      have hempty : t = "" := hmarks' t (by simp)
      exact absurd (hfirst.trans hempty) (hdir.plain s List.mem_cons_self).ne_empty
  · cases more with
    | nil => exact hsteps
    | cons t more =>
      have hempty : t = "" := hmarks t (by simp)
      exact absurd hempty (h.plain t (hsteps ▸ List.mem_cons_self)).ne_empty

/-- What begins with a directory and a slash is what is below the directory. -/
theorem startsWith_iff_below {dir : String} {steps : List String} (hdir : Spelled dir parts) (hne : parts ≠ [])
    (h : Spelled p steps) : Text.startsWith p (dir ++ "/") = true ↔
      ∃ names, names ≠ [] ∧ (∀ s ∈ names, Plain s) ∧ p = descend dir names := by
  have hopened : opened dir = dir ++ "/" := if_neg (by simp [hdir.endsWith_slash hne])
  have hempty := ne_empty_of_isAbsolute hdir.isAbsolute
  rw [startsWith_iff]
  constructor
  · rintro ⟨rest, rfl⟩
    have hsteps := hdir.segments_behind hne h
    have hplain : ∀ s ∈ Path.segments rest, Plain s := fun s hs => h.plain s (hsteps ▸ List.mem_append_right _ hs)
    refine ⟨_, segments_ne_nil rest, hplain, ?_⟩
    rw [descend_eq hempty (segments_ne_nil rest) hplain, hopened, join_segments]
  · rintro ⟨names, hnames, hplain, rfl⟩
    exact ⟨_, by rw [descend_eq hempty hnames hplain, hopened]⟩

theorem Spelled.descend {names : List String} (h : Spelled p parts) (hnames : ∀ s ∈ names, Plain s) :
    Spelled (descend p names) (parts ++ names) := by
  induction names using List.reverseRecOn with
  | nil => simpa [Path.descend] using h
  | append_singleton names name ih =>
    rw [List.forall_mem_append, List.forall_mem_singleton] at hnames
    rw [descend_concat, ← List.append_assoc]
    exact (ih hnames.1).entry hnames.2

/-! ## Ways -/

/-- Two lists begin with what they have in common. -/
theorem exists_common (as bs : List String) :
    ∃ common, as = common ++ (dropCommon as bs).1 ∧ bs = common ++ (dropCommon as bs).2 := by
  fun_induction dropCommon as bs with
  | case1 a as b bs heq ih =>
    obtain ⟨common, has, hbs⟩ := ih
    obtain rfl : a = b := by simpa using heq
    exact ⟨a :: common, congrArg (a :: ·) has, congrArg (a :: ·) hbs⟩
  | case2 a as b bs _ => exact ⟨[], rfl, rfl⟩
  | case3 as bs _ => exact ⟨[], rfl, rfl⟩

theorem dropCommon_append (as bs : List String) : dropCommon as (as ++ bs) = ([], bs) := by
  induction as with
  | nil => cases bs <;> rfl
  | cons a as ih => rw [List.cons_append, dropCommon, if_pos (beq_self_eq_true a), ih]

theorem relativeTo_eq (h : dropCommon (steps cwd start) (steps cwd p) = (up, down)) :
    relativeTo cwd start p =
      if List.replicate up.length ".." ++ down = [] then "."
      else Text.join "/" (List.replicate up.length ".." ++ down) := by
  unfold relativeTo
  rw [h]
  simp only [List.map_const']
  split
  · rename_i hnone
    rw [if_pos hnone]
  · rename_i hsome
    rw [if_neg hsome]

/-- The segments of a way: as many `..` as there are steps to leave, and the steps to take. -/
theorem segments_relativeTo (hp : isAbsolute p = true) (h : dropCommon (steps cwd start) (steps cwd p) = (up, down)) :
    segments (relativeTo cwd start p) = List.replicate up.length ".." ++ down ∨
      segments (relativeTo cwd start p) = ["."] ∧ up = [] ∧ down = [] := by
  have hdown : ∀ s ∈ down, Plain s := by
    obtain ⟨common, -, hsteps⟩ := exists_common (steps cwd start) (steps cwd p)
    rw [h] at hsteps
    intro s hs
    have hmem : s ∈ common ++ down := List.mem_append_right common hs
    exact plain_of_mem_steps hp (hsteps.symm ▸ hmem)
  rw [relativeTo_eq h]
  split
  · rename_i hnone
    obtain ⟨hup, rfl⟩ := List.append_eq_nil_iff.mp hnone
    exact Or.inr ⟨by decide, by simpa using hup, rfl⟩
  · rename_i hsome
    refine Or.inl (segments_join_of_slashless hsome fun s hs => ?_)
    rcases List.mem_append.mp hs with hs | hs
    · rw [List.eq_of_mem_replicate hs]
      exact (by decide : '/' ∉ "..".toList)
    · exact (hdown s hs).slashless

/-- The way to a path below a directory is what follows the directory. -/
theorem segments_relativeTo_below (hp : isAbsolute p = true) (h : steps cwd p = steps cwd start ++ down)
    (hne : down ≠ []) : segments (relativeTo cwd start p) = down := by
  have hcommon : dropCommon (steps cwd start) (steps cwd p) = ([], down) := by rw [h, dropCommon_append]
  rcases segments_relativeTo hp hcommon with hway | ⟨-, -, hnone⟩
  · exact hway
  · exact absurd hnone hne

end ExportAudit.Path
