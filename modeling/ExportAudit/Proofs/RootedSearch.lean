import Mathlib
import ExportAudit.Proofs.LastLink

/-!
# Where a search looks

The importing file of a relative reference and the root of a project are absolute paths. Then so is all that is searched:
a normal form is a path from the root without dots (`Path.Rooted`, `Path.rooted_normalize`), every candidate of a search
for such a path is one (`Path.Rooted.of_mem_candidates`), and the targets of aliases are seen from an absolute directory,
wherever in the chain of configuration files it is given (`isAbsolute_baseUrl`).
-/

namespace ExportAudit

open ExportAudit.FileTree (Tidy solid)
open ExportAudit.Path

/-! ## Paths from the root -/

namespace Path

variable {p q s : String} {parts front : List String}

/-- A path from the root without dots, as searches look at. -/
structure Rooted (p : String) : Prop where
  isAbsolute : isAbsolute p = true
  tidy : Tidy (segments p)

theorem rooted_iff : Rooted p ↔ ∃ rest, rest ≠ [] ∧ segments p = "" :: rest ∧ Tidy rest := by
  constructor
  · rintro ⟨habsolute, htidy⟩
    obtain ⟨rest, hne, h⟩ := isAbsolute_iff_segments.mp habsolute
    rw [h] at htidy
    exact ⟨rest, hne, h, (List.forall_mem_cons.mp htidy).2⟩
  · rintro ⟨rest, hne, h, htidy⟩
    refine ⟨isAbsolute_iff_segments.mpr ⟨rest, hne, h⟩, ?_⟩
    rw [h]
    exact List.forall_mem_cons.mpr ⟨Or.inl rfl, htidy⟩

/-- Another last segment leaves a path from the root one. -/
theorem Rooted.of_last {last last' : String} (h : Rooted p) (hp : segments p = front ++ [last])
    (hq : segments q = front ++ [last']) (hlast : Plain last') : Rooted q := by
  obtain ⟨rest, hne, hrest, htidy⟩ := rooted_iff.mp h
  rw [hp] at hrest
  cases front with
  | nil => exact absurd (List.cons.inj hrest).2.symm hne
  | cons first front =>
    obtain ⟨rfl, rfl⟩ := List.cons.inj hrest
    refine rooted_iff.mpr ⟨front ++ [last'], by simp, hq, fun s hs => ?_⟩
    rcases List.mem_append.mp hs with hs | hs
    · exact htidy s (List.mem_append_left _ hs)
    · exact Or.inr (List.mem_singleton.mp hs ▸ hlast)

theorem join_concat_append (front : List String) (last e : String) :
    Text.join "/" (front ++ [last]) ++ e = Text.join "/" (front ++ [last ++ e]) := by
  rw [← String.toList_inj]
  simp only [Text.join, String.toList_append, String.toList_ofList, List.map_append, List.map_cons, List.map_nil]
  induction front with
  | nil => simp
  | cons first front ih =>
    rw [List.map_cons, List.cons_append, List.cons_append, List.intercalate_cons_of_ne_nil (by simp),
      List.intercalate_cons_of_ne_nil (by simp), List.append_assoc, ih]

/-- What is appended to a path is appended to its last segment. -/
theorem segments_append {e : String} (he : Slashless e) :
    ∃ front last, segments p = front ++ [last] ∧ segments (p ++ e) = front ++ [last ++ e] := by
  obtain ⟨front, last, hp⟩ := (List.eq_nil_or_concat' (segments p)).resolve_left (segments_ne_nil p)
  refine ⟨front, last, hp, ?_⟩
  rw [← join_segments p, hp, join_concat_append]
  refine segments_join_of_slashless (by simp) fun s hs => ?_
  have hslashless : ∀ t ∈ front ++ [last], Slashless t := fun t ht => slashless_of_mem_segments (p := p) (hp ▸ ht)
  rcases List.mem_append.mp hs with hs | hs
  · exact hslashless s (List.mem_append_left _ hs)
  · rw [List.mem_singleton.mp hs, Slashless, String.toList_append, List.mem_append, not_or]
    exact ⟨hslashless last (by simp), he⟩

/-- A path is its stem and its extension. -/
theorem splitExtension_append (p : String) : (splitExtension p).1 ++ (splitExtension p).2 = p := by
  have hbase (base : List Char) : (splitBase base).1 ++ (splitBase base).2 = base := by
    have hcut := List.prefix_iff_eq_append.mp (List.takeWhile_prefix (l := base.reverse) (· != '.'))
    unfold splitBase
    simp only
    split
    · simp
    · rename_i dot stem hrest
      split
      · simp
      · rw [hrest] at hcut
        simpa using congrArg List.reverse hcut
  rw [← String.toList_inj, splitExtension]
  simp only [basename, String.toList_append, String.toList_ofList, List.append_assoc, hbase]
  rw [← List.reverse_append, List.takeWhile_append_dropWhile, List.reverse_reverse]

theorem plain_append_extension {e : String} (hs : Slashless s) (he : e ∈ sourceExtensions) : Plain (s ++ e) := by
  have hshape : ∀ e ∈ sourceExtensions, '/' ∉ e.toList ∧ 3 ≤ e.toList.length := by decide
  obtain ⟨hslashless, hlength⟩ := hshape e he
  have hlong (t : String) (ht : t.toList.length < 3) : s ++ e ≠ t := by
    intro heq
    have := congrArg (fun t => t.toList.length) heq
    simp only [String.toList_append, List.length_append] at this
    omega
  refine ⟨?_, hlong _ (by decide), hlong _ (by decide), hlong _ (by decide)⟩
  rw [Slashless, String.toList_append, List.mem_append, not_or]
  exact ⟨hs, hslashless⟩

theorem slashless_of_mem_sourceExtensions {e : String} (he : e ∈ sourceExtensions) : Slashless e := by
  have hshape : ∀ e ∈ sourceExtensions, '/' ∉ e.toList := by decide
  exact hshape e he

/-- An extension in place of another, or of none, leaves a path from the root one. -/
theorem Rooted.of_extension {stem ext e : String} (h : Rooted (stem ++ ext)) (hext : Slashless ext)
    (he : e ∈ sourceExtensions) : Rooted (stem ++ e) := by
  obtain ⟨front, last, hstem, hp⟩ := segments_append (p := stem) hext
  obtain ⟨front', last', hstem', hq⟩ := segments_append (p := stem) (slashless_of_mem_sourceExtensions he)
  rw [hstem] at hstem'
  obtain ⟨rfl, hlast⟩ := List.append_inj' hstem' rfl
  obtain rfl : last = last' := by simpa using hlast
  have hslashless : Slashless last := slashless_of_mem_segments (p := stem) (by rw [hstem]; simp)
  exact h.of_last hp hq (plain_append_extension hslashless he)

theorem Plain.relative (h : Plain s) : isAbsolute s = false := by
  rw [← Bool.not_eq_true, isAbsolute_iff]
  rintro ⟨cs, hcs⟩
  exact h.slashless (hcs ▸ List.mem_cons_self)

/-- An entry of a directory on a path from the root is on one. -/
theorem Rooted.entry (h : Rooted p) (hs : Plain s) : Rooted (join p s) := by
  obtain ⟨front, hjoin, hp⟩ := segments_join (ne_empty_of_isAbsolute h.isAbsolute) hs.slashless hs.relative
  rcases hp with hp | hp
  · obtain ⟨rest, hrest, hsegments, htidy⟩ := rooted_iff.mp h
    refine rooted_iff.mpr ⟨rest ++ [s], by simp, by rw [hjoin, ← hp, hsegments]; rfl, fun t ht => ?_⟩
    rcases List.mem_append.mp ht with ht | ht
    · exact htidy t ht
    · exact Or.inr (List.mem_singleton.mp ht ▸ hs)
  · exact h.of_last hp hjoin hs

theorem Rooted.index {e : String} (h : Rooted p) (he : e ∈ sourceExtensions) : Rooted (join p ("index" ++ e)) :=
  h.entry (plain_append_extension (by simp [Slashless]) he)

theorem swappedExtensions_subset (ext : String) : swappedExtensions ext ⊆ sourceExtensions := by
  unfold swappedExtensions
  split
  · decide
  · split
    · decide
    · exact List.nil_subset _

/-- All that a search looks at is a path from the root if what it searches for is one. -/
theorem Rooted.of_mem_candidates {x : Candidate} (h : Rooted p) (hx : x ∈ candidates p) : Rooted x.path := by
  have hdirect : ∀ q ∈ directSpellings p, Rooted q := by
    intro q hq
    unfold directSpellings at hq
    simp only at hq
    split at hq
    · rename_i hsource
      have hext : (splitExtension p).2 ∈ sourceExtensions := by simpa using hsource
      rcases List.mem_cons.mp hq with rfl | hq
      · exact h
      · obtain ⟨e, he, rfl⟩ := List.mem_map.mp hq
        rw [← splitExtension_append p] at h
        exact h.of_extension (slashless_of_mem_sourceExtensions hext) (swappedExtensions_subset _ he)
    · obtain ⟨e, he, rfl⟩ := List.mem_map.mp hq
      have hnone : Rooted (p ++ "") := by simpa using h
      exact hnone.of_extension (by simp [Slashless]) he
  rw [candidates_eq, List.mem_append, List.mem_map] at hx
  rcases hx with ⟨q, hq, rfl⟩ | hx
  · rcases List.mem_append.mp hq with hq | hq
    · exact hdirect q hq
    · obtain ⟨e, he, rfl⟩ := List.mem_map.mp hq
      exact h.index he
  · split at hx
    · cases hx
    · rw [List.mem_singleton.mp hx]
      exact h

/-! ## Normal forms -/

theorem collapse_of_tidy (h : Tidy parts) : collapse true parts = solid parts := by
  have hfold : ∀ (parts stack : List String), Tidy parts →
      parts.foldl (push true) stack = (solid parts).reverse ++ stack := by
    intro parts
    induction parts with
    | nil => exact fun _ _ => rfl
    | cons part parts ih =>
      intro stack h
      rw [Tidy, List.forall_mem_cons] at h
      rw [List.foldl_cons, ih _ h.2]
      rcases h.1 with rfl | hplain
      · rfl
      · rw [push_of_plain hplain]
        simp [solid, hplain.ne_empty]
  rw [collapse, hfold parts [] h]
  simp

theorem tidy_segments_join (h : ∀ t ∈ parts, Plain t) : Tidy (segments (Text.join "/" parts)) := by
  by_cases hne : parts = []
  · subst hne
    exact fun t ht => Or.inl (List.mem_singleton.mp ht)
  · rw [segments_join_of_slashless hne fun t ht => (h t ht).slashless]
    exact fun t ht => Or.inr (h t ht)

theorem mem_segments_join (h : ∀ t ∈ parts, Plain t) (hs : s ≠ "") : s ∈ segments (Text.join "/" parts) ↔ s ∈ parts := by
  by_cases hne : parts = []
  · subst hne
    have hnone : segments (Text.join "/" []) = [""] := by decide
    simp [hnone, hs]
  · rw [segments_join_of_slashless hne fun t ht => (h t ht).slashless]

/-- The normal form of an absolute path has one or two slashes in front. -/
theorem segments_normalize (h : isAbsolute p = true) :
    ∃ marks, (∀ t ∈ marks, t = "") ∧
      segments (normalize p) = "" :: (marks ++ segments (Text.join "/" (collapse true (segments p)))) := by
  have hnormal : normalize p = rootMark p ++ Text.join "/" (collapse true (segments p)) := by
    have hmark : rootMark p ≠ "" := by
      unfold rootMark
      simp only [h, Bool.not_true, Bool.false_eq_true, if_false]
      split <;> decide
    simp [normalize, h, hmark]
  rw [hnormal, rootMark]
  simp only [h, Bool.not_true, Bool.false_eq_true, if_false]
  split
  · have htwo (q : String) : segments ("//" ++ q) = "" :: "" :: segments q := by
      have hslashes : "//" ++ q = "/" ++ ("/" ++ q) := by rw [← String.append_assoc]; rfl
      rw [hslashes, segments_slash_append, segments_slash_append]
    exact ⟨[""], by simp, by rw [htwo, List.singleton_append]⟩
  · exact ⟨[], by simp, by rw [segments_slash_append, List.nil_append]⟩

theorem rooted_normalize (h : isAbsolute p = true) : Rooted (normalize p) := by
  obtain ⟨marks, hmarks, hsegments⟩ := segments_normalize h
  have hplain : ∀ t ∈ collapse true (segments p), Plain t := fun t ht =>
    plain_of_mem_collapse (fun t ht => slashless_of_mem_segments ht) ht
  refine rooted_iff.mpr ⟨_, ?_, hsegments, fun t ht => ?_⟩
  · exact List.append_ne_nil_of_right_ne_nil _ (segments_ne_nil _)
  · rcases List.mem_append.mp ht with ht | ht
    · exact Or.inl (hmarks t ht)
    · exact tidy_segments_join hplain t ht

theorem Rooted.mem_segments_normalize (h : Rooted p) (hs : s ≠ "") : s ∈ segments (normalize p) ↔ s ∈ segments p := by
  obtain ⟨marks, hmarks, hsegments⟩ := segments_normalize h.isAbsolute
  have hplain : ∀ t ∈ collapse true (segments p), Plain t := fun t ht =>
    plain_of_mem_collapse (fun t ht => slashless_of_mem_segments ht) ht
  have hmarks' : s ∉ marks := fun hmem => hs (hmarks s hmem)
  rw [hsegments, List.mem_cons, List.mem_append, mem_segments_join hplain hs, collapse_of_tidy h.tidy]
  simp [hs, hmarks', solid]

/-! ## Absolute paths -/

/-- What an absolute path begins with is absolute. -/
theorem isAbsolute_ofList {cs : List Char} (h : isAbsolute p = true) (hcs : cs ≠ []) (hbegins : cs <+: p.toList) :
    isAbsolute (String.ofList cs) = true := by
  obtain ⟨ds, hp⟩ := isAbsolute_iff.mp h
  obtain ⟨c, cs, rfl⟩ := List.exists_cons_of_ne_nil hcs
  rw [hp] at hbegins
  obtain ⟨rfl, -⟩ := List.cons_prefix_cons.mp hbegins
  exact isAbsolute_iff.mpr ⟨cs, by simp⟩

theorem isAbsolute_dirname (h : isAbsolute p = true) : isAbsolute (dirname p) = true := by
  have hhead := reverse_dropWhile_isPrefix (· != '/') p.toList
  have hslash : (p.toList.reverse.dropWhile (· != '/')).reverse ≠ [] := by
    obtain ⟨cs, hp⟩ := isAbsolute_iff.mp h
    rw [ne_eq, List.reverse_eq_nil_iff, List.dropWhile_eq_nil_iff, hp]
    intro hall
    exact absurd (hall '/' (by simp)) (by decide)
  unfold dirname
  simp only
  split
  · exact isAbsolute_ofList h hslash hhead
  · rename_i hother
    rw [Text.stripRight, String.toList_ofList]
    refine isAbsolute_ofList h ?_ ((reverse_dropWhile_isPrefix _ _).trans hhead)
    rw [ne_eq, List.reverse_eq_nil_iff, List.dropWhile_eq_nil_iff]
    intro hall
    refine hother (List.all_eq_true.mpr fun c hc => hall c (List.mem_reverse.mpr hc))

end Path

/-! ## The directory of an alias table -/

section Tables

variable {d : Disk} {root : String}

theorem isAbsolute_of_mem_extendsCandidates {spec directory p : String} (hdirectory : isAbsolute directory = true)
    (hroot : isAbsolute root = true) (hp : p ∈ extendsCandidates spec directory root) : isAbsolute p = true := by
  have hsuffix {base : String} (hbase : isAbsolute base = true) : isAbsolute (base ++ ".json") = true := by
    rw [isAbsolute_append (ne_empty_of_isAbsolute hbase), hbase]
  unfold extendsCandidates at hp
  split at hp
  · have hbase := (rooted_normalize (isAbsolute_join_left hdirectory spec)).isAbsolute
    simp only [List.mem_cons, List.not_mem_nil, or_false] at hp
    rcases hp with hp | hp
    · rw [hp, hbase]
    · rw [hp, hsuffix hbase]
  · have hbase := isAbsolute_join_left (isAbsolute_join_left hroot "node_modules") spec
    simp only [List.mem_cons, List.not_mem_nil, or_false] at hp
    rcases hp with rfl | rfl | rfl
    · exact hbase
    · exact hsuffix hbase
    · exact isAbsolute_join_left hbase _

/-- Every file of a chain that begins at an absolute path has one. -/
theorem isAbsolute_of_mem_configChain (hroot : isAbsolute root = true) {n : Nat} {seen : List String} {current : String}
    (hcurrent : isAbsolute current = true) {chain : List ConfigFile} {notes : List Note}
    (h : configChain d root n seen current = .ok (chain, notes)) : ∀ f ∈ chain, isAbsolute f.path = true := by
  induction n generalizing seen current chain notes with
  | zero =>
    rw [configChain] at h
    cases h
    simp
  | succ n ih =>
    rw [configChain] at h
    split at h
    · cases h
      simp
    · cases hload : loadCommented d current with
      | error fault => simp [hload, bind, Except.bind] at h
      | ok entries =>
        simp only [hload, bind, Except.bind, pure, Except.pure] at h
        split at h
        · cases h
          simpa using hcurrent
        · split at h
          · cases h
            simpa using hcurrent
          · rename_i next hnext
            have hfound := isAbsolute_of_mem_extendsCandidates (isAbsolute_dirname hcurrent) hroot
              (List.mem_of_find?_eq_some hnext)
            cases hrest : configChain d root n (current :: seen) next with
            | error fault => simp [hrest] at h
            | ok rest =>
              obtain ⟨chain', notes'⟩ := rest
              simp only [hrest, Except.ok.injEq, Prod.mk.injEq] at h
              obtain ⟨rfl, -⟩ := h
              exact List.forall_mem_cons.mpr ⟨hcurrent, ih hfound hrest⟩

theorem isAbsolute_baseUrl_ofChain {configFile : String} {chain : List ConfigFile}
    (hfile : isAbsolute configFile = true) (hchain : ∀ f ∈ chain, isAbsolute f.path = true) :
    isAbsolute (CompilerPaths.ofChain configFile chain).baseUrl = true := by
  unfold CompilerPaths.ofChain
  simp only [ChainOptions.baseUrl_ofChain, ChainOptions.aliasDirectory_ofChain]
  cases hbase : chain.findSome? ConfigFile.baseUrl? with
  | some base =>
    obtain ⟨f, hf, hgives⟩ := List.exists_of_findSome?_eq_some hbase
    unfold ConfigFile.baseUrl? at hgives
    split at hgives
    · rename_i url _
      have habsolute := (rooted_normalize (isAbsolute_join_left (isAbsolute_dirname (hchain f hf)) url)).isAbsolute
      rw [Option.getD_some, ← Option.some.inj hgives, habsolute]
    · cases hgives
  | none =>
    rw [Option.getD_none]
    cases halias : chain.find? (·.paths?.isSome) with
    | none => exact isAbsolute_dirname hfile
    | some f =>
      simp only [Option.map_some, Option.filter_some]
      split
      · exact isAbsolute_dirname (hchain f (List.mem_of_find?_eq_some halias))
      · exact isAbsolute_dirname hfile

/-- The targets of the aliases of a project with an absolute root are seen from an absolute directory. -/
theorem isAbsolute_baseUrl (hroot : isAbsolute root = true) {c : CompilerPaths}
    (h : (readProjectPaths d root).1 = some c) : isAbsolute c.baseUrl = true := by
  unfold readProjectPaths at h
  split at h
  · cases h
  · rename_i file hfile
    have habsolute : isAbsolute file = true := by
      obtain ⟨name, -, rfl⟩ := List.mem_map.mp (List.mem_of_find?_eq_some hfile)
      exact isAbsolute_join_left hroot name
    cases hread : readCompilerPaths d file root with
    | error fault => simp [hread] at h
    | ok read =>
      obtain ⟨paths, notes⟩ := read
      simp only [hread, Option.some.injEq] at h
      subst h
      unfold readCompilerPaths at hread
      cases hchain : configChain d root maxChain [] file with
      | error fault => simp [hchain, bind, Except.bind] at hread
      | ok read =>
        obtain ⟨chain, notes'⟩ := read
        simp only [hchain, bind, Except.bind, pure, Except.pure, Except.ok.injEq, Prod.mk.injEq] at hread
        obtain ⟨rfl, -⟩ := hread
        exact isAbsolute_baseUrl_ofChain habsolute (isAbsolute_of_mem_configChain hroot habsolute hchain)

end Tables

end ExportAudit
