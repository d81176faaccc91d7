import Mathlib
import ExportAudit.Discovery
import ExportAudit.Proofs.RootedSearch

/-!
# Entries below a directory

In a tree as disks hold it, the entries of a directory have different names, and none of the names is empty, `.` or `..`
or holds a slash (`FileTree.Sound`). Then the names on the way from a directory to an entry below it can be read off its
path (`descend_injective`), and the path leads to the entry, however the directory itself is reached
(`Disk.resolve_join`).
-/

namespace ExportAudit

open ExportAudit.Path

/-! ## Paths along names -/

namespace Path

variable {p name : String} {names names' : List String}

/-- The path that goes on from a directory along names. -/
def descend (p : String) (names : List String) : String :=
  names.foldl join p

/-- A path with a slash at its end. -/
def opened (p : String) : String :=
  if Text.endsWith p "/" then p else p ++ "/"

theorem descend_concat (p : String) (names : List String) (name : String) :
    descend p (names ++ [name]) = join (descend p names) name := by
  rw [descend, List.foldl_append]
  rfl

instance (s : String) : Decidable (Plain s) :=
  decidable_of_iff ('/' ∉ s.toList ∧ s ≠ "" ∧ s ≠ "." ∧ s ≠ "..")
    ⟨fun h => ⟨h.1, h.2.1, h.2.2.1, h.2.2.2⟩, fun h => ⟨h.slashless, h.ne_empty, h.ne_dot, h.ne_dots⟩⟩

theorem join_eq_opened_append (hp : p ≠ "") (h : Plain name) : join p name = opened p ++ name := by
  rw [join_of_relative h.relative, opened]
  by_cases hends : Text.endsWith p "/" = true
  · rw [if_pos (Or.inr hends), if_pos hends]
  · rw [if_neg (by simp [hp, hends]), if_neg hends]

theorem segments_text (hne : names ≠ []) (h : ∀ s ∈ names, Plain s) : segments (Text.join "/" names) = names :=
  segments_join_of_slashless hne fun s hs => (h s hs).slashless

theorem text_ne_empty (hne : names ≠ []) (h : ∀ s ∈ names, Plain s) : Text.join "/" names ≠ "" := by
  intro hempty
  have hsegments := segments_text hne h
  rw [hempty, segments_empty] at hsegments
  exact (h "" (hsegments ▸ List.mem_singleton_self _)).ne_empty rfl

theorem endsWith_text (hne : names ≠ []) (h : ∀ s ∈ names, Plain s) :
    Text.endsWith (Text.join "/" names) "/" = false := by
  rw [← Bool.not_eq_true, endsWith_iff]
  rintro ⟨front, hfront⟩
  have hsegments := segments_append_slash front ""
  rw [String.append_empty, ← hfront, segments_text hne h, segments_empty] at hsegments
  exact (h "" (by rw [hsegments]; simp)).ne_empty rfl

theorem text_concat (hne : names ≠ []) (h : ∀ s ∈ names, Plain s) (hname : Plain name) :
    Text.join "/" (names ++ [name]) = Text.join "/" names ++ "/" ++ name := by
  apply segments_injective
  rw [segments_append_slash, segments_text hne h, segments_of_slashless hname.slashless]
  refine segments_text (by simp) fun s hs => ?_
  rcases List.mem_append.mp hs with hs | hs
  · exact h s hs
  · exact List.mem_singleton.mp hs ▸ hname

/-- The path along names is the directory, a slash, and the names with slashes between them. -/
theorem descend_eq (hp : p ≠ "") (hne : names ≠ []) (h : ∀ s ∈ names, Plain s) :
    descend p names = opened p ++ Text.join "/" names := by
  induction names using List.reverseRecOn with
  | nil => exact absurd rfl hne
  | append_singleton names name ih =>
    rw [List.forall_mem_append, List.forall_mem_singleton] at h
    rw [descend_concat]
    by_cases hnil : names = []
    · subst hnil
      rw [descend, List.foldl_nil, join_eq_opened_append hp h.2, List.nil_append, Text.join]
      simp
    · have htext := text_ne_empty hnil h.1
      rw [ih hnil h.1, join_of_relative h.2.relative, endsWith_append _ htext, endsWith_text hnil h.1,
        if_neg (by simp [htext]), text_concat hnil h.1 h.2]
      simp only [String.append_assoc]

/-- Different names lead along different paths. -/
theorem descend_injective (hp : p ≠ "") (hne : names ≠ []) (hne' : names' ≠ []) (h : ∀ s ∈ names, Plain s)
    (h' : ∀ s ∈ names', Plain s) (heq : descend p names = descend p names') : names = names' := by
  rw [descend_eq hp hne h, descend_eq hp hne' h', String.append_right_inj] at heq
  rw [← segments_text hne h, ← segments_text hne' h', heq]

/-- The path from the root of a project to a directory, with one more name. -/
theorem below_text (h : ∀ s ∈ names, Plain s) (hname : Plain name) :
    below (Text.join "/" names) name = Text.join "/" (names ++ [name]) := by
  by_cases hnil : names = []
  · subst hnil
    rw [below, if_pos (by decide), List.nil_append, Text.join]
    simp
  · have htext := text_ne_empty hnil h
    rw [below, if_neg (by simpa using htext), join_of_relative hname.relative, endsWith_text hnil h,
      if_neg (by simp [htext]), text_concat hnil h hname]

end Path

/-! ## Sound trees -/

namespace FileTree

/-- A tree in which the entries of each directory have different names, and names that can be written in a path. -/
inductive Sound : FileTree → Prop
  | file (content : ByteArray) (modified : Int) : Sound (.file content modified)
  | link (target : String) : Sound (.link target)
  | directory {es : List (String × FileTree)} (hdistinct : (es.map (·.1)).Nodup) (hplain : ∀ e ∈ es, Plain e.1)
      (hbelow : ∀ e ∈ es, Sound e.2) : Sound (.directory es)

variable {es : List (String × FileTree)} {name : String} {t node : FileTree} {names : List String}

/-- Names are looked up in any order of the entries. -/
theorem lookup_eq_some_iff_mem (hdistinct : (es.map (·.1)).Nodup) : es.lookup name = some t ↔ (name, t) ∈ es := by
  constructor
  · intro h
    obtain ⟨before, after, rfl, -⟩ := List.lookup_eq_some_iff.mp h
    exact List.mem_append_right _ List.mem_cons_self
  · intro h
    obtain ⟨before, after, rfl⟩ := List.append_of_mem h
    refine List.lookup_eq_some_iff.mpr ⟨before, after, rfl, fun e he => ?_⟩
    rw [List.map_append, List.nodup_append] at hdistinct
    have hname : name ∈ ((name, t) :: after).map (·.1) := List.mem_cons_self
    have hne : e.1 ≠ name := hdistinct.2.2 e.1 (List.mem_map_of_mem he) name hname
    exact bne_iff_ne.mpr hne.symm

theorem Sound.of_get? (h : t.Sound) (hget : t.get? names = some node) : node.Sound ∧ ∀ s ∈ names, Plain s := by
  induction names generalizing t with
  | nil =>
    obtain rfl : t = node := by simpa [get?] using hget
    exact ⟨h, by simp⟩
  | cons name names ih =>
    cases h with
    | file content modified => simp [get?] at hget
    | link target => simp [get?] at hget
    | directory hdistinct hplain hbelow =>
      rw [get?, Option.bind_eq_some_iff] at hget
      obtain ⟨t, hlookup, hget⟩ := hget
      have hmem := (lookup_eq_some_iff_mem hdistinct).mp hlookup
      obtain ⟨hnode, hnames⟩ := ih (hbelow _ hmem) hget
      exact ⟨hnode, List.forall_mem_cons.mpr ⟨hplain _ hmem, hnames⟩⟩

end FileTree

/-! ## Where the paths lead -/

namespace Disk

open FileTree (walkLinks walk_enter walk walkLinks_of_passage walkLinks_eq_walk exists_passage_of_walkLinks
  naming_of_plain)

variable {d : Disk} {p name : String} {place : List String} {es : List (String × FileTree)} {node : FileTree}

theorem resolve_eq (hp : p ≠ "") (follow : Bool) :
    d.resolve follow p = walkLinks d.root follow FileTree.maxLinks [] (segments (join d.cwd p)) := by
  rw [resolve, if_neg (by simpa using hp)]
  rfl

theorem ne_empty_of_resolve (h : d.resolve true p = .at place node) : p ≠ "" := by
  rintro rfl
  cases h

/-- An entry of a directory that is no link is found behind the path of the directory. -/
theorem resolve_join (h : d.resolve true p = .at place (.directory es)) (hname : Plain name)
    (hentry : es.lookup name = some node) (hnode : ∀ target, node ≠ .link target) :
    d.resolve true (join p name) = .at (place ++ [name]) node := by
  have hp := ne_empty_of_resolve h
  obtain ⟨front, hfront, hsegments⟩ :=
    segments_join (p := join d.cwd p) (join_ne_empty hp) hname.slashless hname.relative
  rw [resolve_eq hp] at h
  obtain ⟨k, hk, hpassage, hplace⟩ := exists_passage_of_walkLinks _ h
  -- The directory may be written with a slash at its end, which leads nowhere else.
  have hway : FileTree.Passage d.root [] front k place := by
    rcases hsegments with hsegments | hsegments
    · rwa [hsegments] at hpassage
    · rw [hsegments] at hpassage
      obtain ⟨mid, k', m, rfl, hway, hslash⟩ := hpassage.split
      obtain ⟨es', hmid⟩ := hslash.directory
      obtain ⟨rfl, rfl⟩ := hslash.unique (.blank hmid (Or.inl rfl) (.stay mid))
      exact hway
  rw [resolve_eq (join_ne_empty hname.ne_empty), join_join hp hname.relative, hfront,
    walkLinks_of_passage hway hk (List.cons_ne_nil _ _)]
  obtain ⟨expand, hwalk⟩ := walkLinks_eq_walk d.root true (FileTree.maxLinks - k)
  rw [hwalk, walk_enter hplace (naming_of_plain hname) hentry hnode, walk, FileTree.get?_concat hplace, hentry]

theorem isDirectory_of_resolve (h : d.resolve true p = .at place node) :
    d.isDirectory p = true ↔ ∃ es, node = .directory es := by
  rw [isDirectory, h]
  cases node <;> simp

end Disk

end ExportAudit
