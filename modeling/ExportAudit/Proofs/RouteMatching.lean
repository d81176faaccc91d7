import Mathlib
import ExportAudit.UsageMatch
import ExportAudit.Proofs.RouteForms
import ExportAudit.Proofs.TargetPath

/-!
# The route that a network call meets

A network call meets a route whose path is that of the call or lies above it, or whose brackets stand for segments of it.
These are three tests and one law: a path meets a route if it begins with segments that those of the route stand for, and
the route `/` if it is `/` itself (`Answers`).

- A path that begins with the text of a route, up to a slash, has its form, since every segment stands for the text that
  it is written with (`hasForm_of_begins`);
- a route without brackets has no other paths of its form (`begins_of_hasForm`), and what brackets add is what the pattern
  of the route accepts. So the tests together are the law (`meets_iff_answers`);
- the path of a target begins with a slash and is one line (`Url.plain_of_targetPath`), and a call goes to the first
  route that answers it (`first_answering_route`).
-/

namespace ExportAudit

namespace Route

/-! ## The law of segments -/

/-- Routes that are `/` or are made of segments that can be read back. -/
def WellFormed (r : Route) : Prop :=
  ∃ segments, (∀ s ∈ segments, s.WellFormed) ∧ r.path = text segments

/-- A path answers to a route: both are `/`, or the path begins with what the segments of the route stand for. -/
def Answers (r : Route) (path : String) : Prop :=
  ∃ segments, (∀ s ∈ segments, s.WellFormed) ∧ r.path = text segments ∧
    (segments = [] ∧ path = "/" ∨ segments ≠ [] ∧ HasForm segments path)

/-- A path that is another or lies below it. -/
def Begins (route path : String) : Prop :=
  ∃ rest, AtSlash rest ∧ path.toList = route.toList ++ rest

section Beginnings

variable {segments : List Segment} {path : String} {cs : List Char}

theorem Segment.written_ne_empty {s : Segment} (h : s.WellFormed) : s.written ≠ "" := by
  cases s with
  | literal text => exact h.ne_empty
  | one name | many name | any name => simp [written, ← String.toList_inj]

/-- A segment stands for the text that it is written with. -/
theorem Segment.takes_written {s : Segment} (h : s.WellFormed) : s.Takes [s.written] := by
  have hne := written_ne_empty h
  cases s with
  | literal text => rfl
  | one name => exact ⟨_, hne, rfl⟩
  | many name => exact ⟨by simp, by simpa using hne⟩
  | any name => exact List.forall_mem_singleton.mpr hne

theorem matches_written (h : ∀ s ∈ segments, s.WellFormed) : Matches segments (segments.map Segment.written) := by
  induction segments with
  | nil => exact .nil
  | cons s segments ih =>
    rw [List.forall_mem_cons] at h
    exact .cons (Segment.takes_written h.1) (ih h.2)

theorem eq_written_of_matches {front : List String} (hliteral : ∀ s ∈ segments, ∃ text, s = .literal text)
    (h : Matches segments front) : front = segments.map Segment.written := by
  induction h with
  | nil => rfl
  | cons hs _ ih =>
    rw [List.forall_mem_cons] at hliteral
    obtain ⟨text, rfl⟩ := hliteral.1
    rw [hs, ih hliteral.2]
    rfl

/-- A path at or below the text of a route has the form of the route. -/
theorem hasForm_of_begins (hne : segments ≠ []) (h : ∀ s ∈ segments, s.WellFormed) (hrooted : path.toList = '/' :: cs)
    (hbegins : Begins (text segments) path) : HasForm segments path := by
  obtain ⟨rest, hslash, hcut⟩ := hbegins
  rw [toList_text hne, ← spell_pathSegments hrooted] at hcut
  have hwritten : ∀ w ∈ segments.map Segment.written, Path.Slashless w := by
    intro w hw
    obtain ⟨s, hs, rfl⟩ := List.mem_map.mp hw
    exact Segment.slashless_written (h s hs).legible
  obtain ⟨back, hsplit, -⟩ :=
    exists_of_spell_eq_append (fun w hw => slashless_of_mem_pathSegments hw) hwritten hslash hcut
  exact ⟨segments.map Segment.written, back, hsplit, matches_written h⟩

/-- Where no segment stands for others, only a path at or below the text of a route has its form. -/
theorem begins_of_hasForm (hne : segments ≠ []) (hliteral : ∀ s ∈ segments, ∃ text, s = .literal text)
    (hrooted : path.toList = '/' :: cs) (hform : HasForm segments path) : Begins (text segments) path := by
  obtain ⟨front, back, hsplit, hmatches⟩ := hform
  refine ⟨spell back, by simpa using atSlash_spell_append back (Or.inl rfl), ?_⟩
  rw [toList_text hne, ← eq_written_of_matches hliteral hmatches, ← spell_append, ← hsplit,
    spell_pathSegments hrooted]

end Beginnings

/-! ## The tests -/

section Tests

variable {segments : List Segment} {path : String} {cs : List Char}

/-- The text of a route other than `/` does not end with a slash. -/
theorem stripRight_text (hne : segments ≠ []) (h : ∀ s ∈ segments, s.WellFormed) :
    Text.stripRight (· == '/') (text segments) = text segments := by
  obtain ⟨init, last, rfl⟩ := List.eq_nil_or_concat' segments |>.resolve_left hne
  have hlast : last.WellFormed := h last (by simp)
  have hchars : last.written.toList ≠ [] := by
    simpa using Segment.written_ne_empty hlast
  obtain ⟨front, c, hc⟩ := List.eq_nil_or_concat' last.written.toList |>.resolve_left hchars
  have hslash : c ≠ '/' := by
    rintro rfl
    exact Segment.slashless_written hlast.legible (by rw [hc]; simp)
  have hshape : (text (init ++ [last])).toList.reverse =
      c :: (spell (init.map Segment.written) ++ '/' :: front).reverse := by
    rw [toList_text hne, List.map_append, spell_append]
    simp [spell, hc]
  rw [Text.stripRight, hshape, List.dropWhile_cons_of_neg (by simpa using hslash), ← hshape, List.reverse_reverse,
    String.ofList_toList]

/-- The two tests on texts tell the paths at or below a route. -/
theorem begins_iff (hne : segments ≠ []) (h : ∀ s ∈ segments, s.WellFormed) :
    (path == text segments ||
      (Text.startsWith path (Text.stripRight (· == '/') (text segments) ++ "/") && text segments != "/")) = true ↔
      Begins (text segments) path := by
  have hroot : text segments ≠ "/" := by
    intro hroot
    have hstrip := stripRight_text hne h
    rw [hroot] at hstrip
    exact absurd hstrip (by decide)
  rw [stripRight_text hne h, Bool.or_eq_true, Bool.and_eq_true, beq_iff_eq, bne_iff_ne, Text.startsWith,
    List.isPrefixOf_iff_prefix, String.toList_append]
  constructor
  · rintro (rfl | ⟨⟨rest, hrest⟩, -⟩)
    · exact ⟨[], Or.inl rfl, by simp⟩
    · exact ⟨'/' :: rest, Or.inr ⟨rest, rfl⟩, by simpa using hrest.symm⟩
  · rintro ⟨_, rfl | ⟨rest, rfl⟩, hcut⟩
    · exact Or.inl (String.toList_inj.mp (by simpa using hcut))
    · exact Or.inr ⟨⟨rest, by simpa using hcut.symm⟩, hroot⟩

/-- A route holds no bracket exactly when no segment stands for others. -/
theorem hasChar_text_eq_false_iff (hne : segments ≠ []) (h : ∀ s ∈ segments, s.WellFormed) :
    Text.hasChar (text segments) '[' = false ↔ ∀ s ∈ segments, ∃ text, s = .literal text := by
  have hsegment : ∀ s ∈ segments, '[' ∉ s.written.toList ↔ ∃ text, s = .literal text := by
    intro s hs
    have hwf := h s hs
    cases s with
    | literal text => exact ⟨fun _ => ⟨text, rfl⟩, fun _ => hwf.opening⟩
    | one name | many name | any name => simp [Segment.written]
  rw [Text.hasChar, List.contains_eq_mem, decide_eq_false_iff_not, toList_text hne]
  constructor
  · intro hfree s hs
    refine (hsegment s hs).mp fun hmem => hfree (List.mem_flatMap.mpr ⟨s.written, ?_, List.mem_cons_of_mem _ hmem⟩)
    exact List.mem_map_of_mem hs
  · intro hliteral hmem
    obtain ⟨w, hw, hc⟩ := List.mem_flatMap.mp hmem
    obtain ⟨s, hs, rfl⟩ := List.mem_map.mp hw
    rcases List.mem_cons.mp hc with heq | hc
    · exact absurd heq (by decide)
    · exact (hsegment s hs).mpr (hliteral s hs) hc

/-- **A path meets a route other than `/` exactly when it has the form of the route.** -/
theorem meets_iff_hasForm {r : Route} (hne : segments ≠ []) (h : ∀ s ∈ segments, s.WellFormed)
    (hr : r.path = text segments) (hrooted : path.toList = '/' :: cs) (hline : '\n' ∉ path.toList) :
    r.meets path = true ↔ HasForm segments path := by
  rw [meets, hr, Bool.or_eq_true, begins_iff hne h, Bool.and_eq_true,
    accepts_ofRoute_iff hne (fun s hs => (h s hs).legible) hrooted hline]
  constructor
  · rintro (hbegins | ⟨-, hform⟩)
    · exact hasForm_of_begins hne h hrooted hbegins
    · exact hform
  · intro hform
    cases hbracket : Text.hasChar (text segments) '[' with
    | true => exact Or.inr ⟨rfl, hform⟩
    | false =>
      exact Or.inl (begins_of_hasForm hne ((hasChar_text_eq_false_iff hne h).mp hbracket) hrooted hform)

theorem meets_root_iff {r : Route} (hr : r.path = "/") : r.meets path = true ↔ path = "/" := by
  have hbracket : Text.hasChar "/" '[' = false := by decide
  simp [meets, hr, hbracket]

/-- The tests together are the law of segments. -/
theorem meets_iff_answers {r : Route} (h : r.WellFormed) (hrooted : path.toList = '/' :: cs)
    (hline : '\n' ∉ path.toList) : r.meets path = true ↔ r.Answers path := by
  have hsegments {segments : List Segment} (hwf : ∀ s ∈ segments, s.WellFormed) (hr : r.path = text segments) :
      r.meets path = true ↔ (segments = [] ∧ path = "/" ∨ segments ≠ [] ∧ HasForm segments path) := by
    by_cases hne : segments = []
    · subst hne
      simp [meets_root_iff hr]
    · simp [meets_iff_hasForm hne hwf hr hrooted hline, hne]
  constructor
  · intro hmeets
    obtain ⟨segments, hwf, hr⟩ := h
    exact ⟨segments, hwf, hr, (hsegments hwf hr).mp hmeets⟩
  · rintro ⟨segments, hwf, hr, hlaw⟩
    exact (hsegments hwf hr).mpr hlaw

end Tests

end Route

/-! ## The first route -/

/-- A network call goes to the first route that its path answers to, and to none if there is none. -/
theorem first_answering_route {routes : List Route} {target path : String} (hroutes : ∀ r ∈ routes, r.WellFormed)
    (hpath : Url.targetPath target = .ok path) :
    (matchRoute? routes target = .ok none ↔ ∀ r ∈ routes, ¬ r.Answers path) ∧
      ∀ i, matchRoute? routes target = .ok (some i) ↔
        ∃ h : i < routes.length, routes[i].Answers path ∧ ∀ j (hj : j < i), ¬ routes[j].Answers path := by
  have hplain := Url.plain_of_targetPath hpath
  obtain ⟨cs, hrooted⟩ := List.head?_eq_some_iff.mp hplain.rooted
  have hline : '\n' ∉ path.toList := fun hmem => hplain.free _ hmem (by decide)
  have hmeets : ∀ r ∈ routes, r.meets path = true ↔ r.Answers path :=
    fun r hr => Route.meets_iff_answers (hroutes r hr) hrooted hline
  have hmatch (found : Option Nat) :
      matchRoute? routes target = .ok found ↔ routes.findIdx? (·.meets path) = found := by
    simp [matchRoute?, hpath, bind, Except.bind, pure, Except.pure]
  constructor
  · rw [hmatch, List.findIdx?_eq_none_iff]
    refine forall₂_congr fun r hr => ?_
    rw [← hmeets r hr, Bool.not_eq_true]
  · intro i
    rw [hmatch, List.findIdx?_eq_some_iff_getElem]
    refine exists_congr fun h => and_congr (hmeets _ (List.getElem_mem h)) ?_
    refine forall₂_congr fun j hj => not_congr (hmeets _ (List.getElem_mem _))

/-- Routes for the start page, for a user and for documents at any depth. -/
def shopForms : List (List Route.Segment) :=
  [[], [.literal "users", .one "id"], [.literal "docs", .any "page"]]

def shopRoutes : List Route :=
  shopForms.map fun segments => { path := Route.text segments, file := "app/page.tsx" }

theorem wellFormed_shopRoutes : ∀ r ∈ shopRoutes, r.WellFormed := by
  have hforms : ∀ segments ∈ shopForms, ∀ s ∈ segments, s.WellFormed := by decide
  intro r hr
  obtain ⟨segments, hmem, rfl⟩ := List.mem_map.mp hr
  exact ⟨segments, hforms segments hmem, rfl⟩

/-- The documents begin at the path before the brackets, which the route for a user does not answer. -/
theorem first_answering_route_docs : (∀ r ∈ shopRoutes, r.WellFormed) ∧
    Url.targetPath "https://shop/docs/?q=1" = .ok "/docs" ∧
    ∃ h : 2 < shopRoutes.length, shopRoutes[2].Answers "/docs" ∧ ∀ j (hj : j < 2), ¬ shopRoutes[j].Answers "/docs" := by
  have hpath : Url.targetPath "https://shop/docs/?q=1" = .ok "/docs" := by decide +kernel
  have hmatch : matchRoute? shopRoutes "https://shop/docs/?q=1" = .ok (some 2) := by decide +kernel
  exact ⟨wellFormed_shopRoutes, hpath, ((first_answering_route wellFormed_shopRoutes hpath).2 2).mp hmatch⟩

end ExportAudit
