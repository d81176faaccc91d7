import Mathlib
import ExportAudit.Proofs.Passages

/-!
# The last link on the way to a file

Of the paths at and above a path, some may be links (`Disk.IsLink`). Behind the last one (`Disk.LastLink`) the canonical
path goes on as the path is written, so a path from the root without `.` and `..` that leads somewhere has for its
canonical place the place of its last link and what is written behind it, or just what is written if there is no link
(`Disk.realPlace_of_links`).
-/

namespace ExportAudit

open ExportAudit.FileTree (Passage Naming Tidy solid)
open ExportAudit.Path

/-! ## Paths without dots -/

namespace Path

variable {p q : String} {parts : List String}

theorem join_segments (p : String) : Text.join "/" (segments p) = p := by
  have hsep : "/".toList = ['/'] := by decide
  rw [Text.join, segments, Text.splitOn, List.map_map, hsep]
  simp [Function.comp_def, List.intercalate_splitOn]

theorem segments_ne_nil (p : String) : segments p ≠ [] := by
  simp [segments, Text.splitOn, List.splitOn_ne_nil]

theorem segments_injective : Function.Injective segments := by
  intro p q h
  rw [← join_segments p, ← join_segments q, h]

theorem segments_join_of_slashless (hne : parts ≠ []) (h : ∀ s ∈ parts, Slashless s) :
    segments (Text.join "/" parts) = parts := by
  have hsplit : (['/'].intercalate (parts.map String.toList)).splitOn '/' = parts.map String.toList := by
    refine List.splitOn_intercalate _ (fun cs hcs => ?_) (by simpa using hne)
    obtain ⟨s, hs, rfl⟩ := List.mem_map.mp hcs
    exact h s hs
  have hsep : "/".toList = ['/'] := by decide
  rw [segments, Text.splitOn, Text.join, String.toList_ofList, hsep, hsplit, List.map_map]
  simp [Function.comp_def]

theorem segments_empty : segments "" = [""] := by decide

/-- A path is absolute if something stands behind an empty first segment. -/
theorem isAbsolute_iff_segments : isAbsolute p = true ↔ ∃ rest, rest ≠ [] ∧ segments p = "" :: rest := by
  constructor
  · intro h
    obtain ⟨cs, hcs⟩ := isAbsolute_iff.mp h
    obtain rfl : p = "/" ++ String.ofList cs := by rw [← String.toList_inj]; simpa using hcs
    exact ⟨segments (String.ofList cs), segments_ne_nil _, segments_slash_append _⟩
  · rintro ⟨rest, hne, h⟩
    obtain ⟨s, rest, rfl⟩ := List.exists_cons_of_ne_nil hne
    rw [← join_segments p, h, isAbsolute_iff, Text.join]
    exact ⟨['/'].intercalate ((s :: rest).map String.toList), by simp [List.intercalate]⟩

theorem ne_empty_of_isAbsolute (h : isAbsolute p = true) : p ≠ "" := by
  rintro rfl
  exact absurd h (by decide)

/-- What stands above an absolute path is absolute or empty. -/
theorem isAbsolute_of_isPrefix (h : isAbsolute p = true) (hq : segments q <+: segments p) (hne : q ≠ "") :
    isAbsolute q = true := by
  obtain ⟨rest, -, hp⟩ := isAbsolute_iff_segments.mp h
  rw [hp] at hq
  cases hsegments : segments q with
  | nil => exact absurd hsegments (segments_ne_nil q)
  | cons s more =>
    rw [hsegments] at hq
    obtain ⟨rfl, -⟩ := List.cons_prefix_cons.mp hq
    refine isAbsolute_iff_segments.mpr ⟨more, ?_, hsegments⟩
    rintro rfl
    exact hne (segments_injective (hsegments.trans segments_empty.symm))

end Path

namespace Disk

variable {d : Disk} {path : String}

/-- A path that leads to a link, if the link itself is not followed. -/
def IsLink (d : Disk) (path : String) : Prop :=
  ∃ place target, d.resolve false path = .at place (.link target)

/-- The link that stands last among a path and the paths above it. -/
structure LastLink (d : Disk) (path link : String) : Prop where
  above : segments link <+: segments path
  isLink : d.IsLink link
  last : ∀ other, segments other <+: segments path → d.IsLink other → segments other <+: segments link

theorem LastLink.unique {link link' : String} (h : d.LastLink path link) (h' : d.LastLink path link') : link = link' := by
  have hle := h'.last link h.above h.isLink
  have hge := h.last link' h'.above h'.isLink
  exact segments_injective (hle.eq_of_length_le hge.length_le)

theorem resolve_of_isAbsolute (h : isAbsolute path = true) (follow : Bool) :
    d.resolve follow path = d.root.walkLinks follow FileTree.maxLinks [] (segments path) := by
  have hne : path.isEmpty = false := by simpa using ne_empty_of_isAbsolute h
  rw [resolve, hne, join_of_absolute h]
  rfl

section Way

variable {place : List String} {n : Nat}

/-- On the way to a path that leads somewhere, the links are those that the passage meets. -/
theorem isLink_iff {link segment : String} {front back mid : List String} {es : List (String × FileTree)} {k : Nat}
    (habsolute : isAbsolute path = true) (htidy : Tidy (segments path))
    (hcut : segments path = front ++ segment :: back) (hlink : segments link = front ++ [segment])
    (hfront : Passage d.root [] front k mid) (hmid : d.root.get? mid = some (.directory es)) (hk : k ≤ FileTree.maxLinks) :
    d.IsLink link ↔ Naming segment ∧ ∃ target, es.lookup segment = some (.link target) := by
  have habove : segments link <+: segments path := ⟨back, by rw [hlink, hcut]; simp⟩
  have hresolve (hne : link ≠ "") : d.resolve false link =
      d.root.walkLinks false (FileTree.maxLinks - k) mid [segment] := by
    rw [resolve_of_isAbsolute (isAbsolute_of_isPrefix habsolute habove hne), hlink,
      FileTree.walkLinks_of_passage hfront hk (List.cons_ne_nil _ _)]
  rcases htidy segment (by rw [hcut]; simp) with rfl | hplain
  · -- An empty segment leads to the directory that is reached already.
    refine ⟨?_, fun h => absurd rfl h.1.ne_empty⟩
    rintro ⟨end', target, harrives⟩
    by_cases hne : link = ""
    · simp [hne, resolve] at harrives
    · obtain ⟨expand, hwalk⟩ := FileTree.walkLinks_eq_walk d.root false (FileTree.maxLinks - k)
      rw [hresolve hne, hwalk, FileTree.walk_blank hmid (Or.inl rfl), FileTree.walk, hmid] at harrives
      simp at harrives
  · have hnaming := FileTree.naming_of_plain hplain
    have hne : link ≠ "" := by
      rintro rfl
      rw [segments_empty] at hlink
      have hlast := congrArg List.getLast? hlink
      simp [Ne.symm hnaming.ne_empty] at hlast
    rw [IsLink, hresolve hne, FileTree.walkLinks_link_iff hmid hnaming]
    exact ⟨fun h => ⟨hnaming, h⟩, fun h => h.2⟩

/-- There is no link behind a place on the way from where no link is passed. -/
theorem isPrefix_of_isLink {front back past : List String} {m : Nat} (habsolute : isAbsolute path = true)
    (htidy : Tidy (segments path)) (hcut : segments path = front ++ back) (hpast : Passage d.root [] front m past)
    (hback : Passage d.root past back 0 place) (hm : m ≤ FileTree.maxLinks) {other : String}
    (hother : segments other <+: segments path) (hlink : d.IsLink other) : segments other <+: front := by
  rcases List.prefix_or_prefix_of_prefix hother ⟨back, hcut.symm⟩ with hle | ⟨more, hmore⟩
  · exact hle
  · rcases List.eq_nil_or_concat' more with rfl | ⟨init, segment, rfl⟩
    · exact ⟨[], by rw [← hmore]; simp⟩
    · -- The link would stand behind `init`, where no link is left to pass.
      exfalso
      obtain ⟨tail, htail⟩ := hother
      rw [← hmore, hcut, List.append_assoc, List.append_cancel_left_eq, List.append_assoc] at htail
      subst htail
      obtain ⟨mid, k, k', hsum, hinit, hrest⟩ := hback.split
      obtain ⟨es, hmid⟩ := hrest.directory
      have hway : segments path = (front ++ init) ++ segment :: tail := by rw [hcut]; simp
      have hends : segments other = (front ++ init) ++ [segment] := by rw [← hmore]; simp
      obtain ⟨hnaming, target, hentry⟩ :=
        (isLink_iff habsolute htidy hway hends (hpast.append hinit) hmid (by omega)).mp hlink
      have hpos := hrest.pos_of_link hmid hnaming hentry
      omega

/-- **The canonical place of a path that leads somewhere.** It is what is written if there is no link on the way, and
otherwise the canonical place of the last link with what is written behind it. -/
theorem realPlace_of_links (habsolute : isAbsolute path = true) (htidy : Tidy (segments path))
    (h : Passage d.root [] (segments path) n place) (hn : n ≤ FileTree.maxLinks) :
    ((∀ link, ¬ d.LastLink path link) ∧ d.root.realPlace path = .ok (solid (segments path))) ∨
      ∃ link back past, d.LastLink path link ∧ segments path = segments link ++ back ∧
        d.root.realPlace link = .ok past ∧ d.root.realPlace path = .ok (past ++ solid back) := by
  rw [FileTree.realPlace_of_passage h]
  rcases h.zero_or_behindLink with
    rfl | @⟨front, back, mid, past, segment, target, k, m, es, hcut, hfront, hmid, hnaming, hentry, hpast, hback⟩
  · refine Or.inl ⟨fun link hlast => ?_, by rw [h.eq_append_solid htidy, List.nil_append]⟩
    have hnone := isPrefix_of_isLink habsolute htidy (List.nil_append _).symm (.stay []) h (by omega) hlast.above
      hlast.isLink
    exact segments_ne_nil link (List.prefix_nil.mp hnone)
  · have hwhole : segments path = (front ++ [segment]) ++ back := by rw [hcut]; simp
    have hslashless : ∀ s ∈ front ++ [segment], Slashless s := by
      intro s hs
      exact slashless_of_mem_segments (p := path) (hwhole ▸ List.mem_append_left back hs)
    have hlink : segments (Text.join "/" (front ++ [segment])) = front ++ [segment] :=
      segments_join_of_slashless (by simp) hslashless
    have hbounds : k ≤ m ∧ m = n := by
      obtain ⟨_, _, _, hsum, hbefore, -⟩ := hpast.split
      have hall : Passage d.root [] (segments path) (m + 0) place := hwhole ▸ hpast.append hback
      exact ⟨by have := (hfront.unique hbefore).1; omega, (hall.unique h).1⟩
    refine Or.inr ⟨Text.join "/" (front ++ [segment]), back, past, ⟨?_, ?_, ?_⟩, by rw [hlink, hwhole],
      FileTree.realPlace_of_passage (hlink.symm ▸ hpast), ?_⟩
    · exact ⟨back, by rw [hlink, hwhole]⟩
    · exact (isLink_iff habsolute htidy hcut hlink hfront hmid (by omega)).mpr ⟨hnaming, target, hentry⟩
    · intro other hother hislink
      rw [hlink]
      exact isPrefix_of_isLink habsolute htidy hwhole hpast hback (by omega) hother hislink
    · rw [hback.eq_append_solid fun s hs => htidy s (hwhole ▸ List.mem_append_right _ hs)]

end Way

end Disk

end ExportAudit
