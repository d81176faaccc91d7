import Mathlib
import ExportAudit.Route.Pattern
import ExportAudit.Proofs.CanonicalPath
import ExportAudit.Proofs.Cutting

/-!
# The form of a route

A route is a list of segments. A segment is a text that stands for itself, or it has a name in brackets and stands for one
segment of a path, for one or more, or for any number (`Segment`, `Segment.Takes`); a path has the form of a route if the
segments of the route stand for segments that it begins with (`HasForm`).

- The three passes over the text of a route replace each name in brackets and leave the rest (`markOptional_written`,
  `markCatchAll_marked`, `markDynamic_marked`), so that the pattern of a route is made of those of its segments
  (`ofRoute_text`);
- the pattern of a segment takes a text behind a slash for each segment that it stands for (`accepts_parts_append`);
- a text that a pattern takes may end within a segment of the path, but nothing that may follow begins there
  (`atSlash_of_accepts`). So a pattern accepts the paths that have the form of its route (`accepts_ofRoute_iff`).
-/

namespace ExportAudit.Route

open ExportAudit.Path (Slashless)

/-! ## Segments -/

/-- A segment of a route. -/
inductive Segment where
  | literal (text : String)
  | one (name : String)
  | many (name : String)
  | any (name : String)
  deriving DecidableEq, Repr

/-- A text or name that may stand in a segment. -/
structure Clear (s : String) : Prop where
  ne_empty : s ≠ ""
  opening : '[' ∉ s.toList
  closing : ']' ∉ s.toList
  slashless : Slashless s

instance (s : String) : Decidable (Clear s) :=
  decidable_of_iff (s ≠ "" ∧ '[' ∉ s.toList ∧ ']' ∉ s.toList ∧ '/' ∉ s.toList)
    ⟨fun h => ⟨h.1, h.2.1, h.2.2.1, h.2.2.2⟩, fun h => ⟨h.ne_empty, h.opening, h.closing, h.slashless⟩⟩

namespace Segment

/-- How a segment is written. -/
def written : Segment → String
  | .literal text => text
  | .one name => "[" ++ name ++ "]"
  | .many name => "[..." ++ name ++ "]"
  | .any name => "[[..." ++ name ++ "]]"

/-- Segments that can be read back: the name of one segment does not begin with the dots of more. -/
def WellFormed : Segment → Prop
  | .literal text => Clear text
  | .one name => Clear name ∧ ¬ "...".toList <+: name.toList
  | .many name => Clear name
  | .any name => Clear name

instance : (s : Segment) → Decidable s.WellFormed
  | .literal text => inferInstanceAs (Decidable (Clear text))
  | .one name => inferInstanceAs (Decidable (Clear name ∧ ¬ "...".toList <+: name.toList))
  | .many name => inferInstanceAs (Decidable (Clear name))
  | .any name => inferInstanceAs (Decidable (Clear name))

/-- Segments whose brackets are told apart: a text may also be empty. -/
def Legible : Segment → Prop
  | .literal text => '[' ∉ text.toList ∧ ']' ∉ text.toList ∧ Slashless text
  | s => s.WellFormed

instance : (s : Segment) → Decidable s.Legible
  | .literal text => inferInstanceAs (Decidable ('[' ∉ text.toList ∧ ']' ∉ text.toList ∧ '/' ∉ text.toList))
  | .one name => inferInstanceAs (Decidable (WellFormed (.one name)))
  | .many name => inferInstanceAs (Decidable (WellFormed (.many name)))
  | .any name => inferInstanceAs (Decidable (WellFormed (.any name)))

theorem WellFormed.legible {s : Segment} (h : s.WellFormed) : s.Legible := by
  cases s with
  | literal text => exact ⟨h.opening, h.closing, h.slashless⟩
  | one name | many name | any name => exact h

/-- The segments of a path that a segment of a route stands for. -/
def Takes : Segment → List String → Prop
  | .literal text, ws => ws = [text]
  | .one _, ws => ∃ w, w ≠ "" ∧ ws = [w]
  | .many _, ws => ws ≠ [] ∧ ∀ w ∈ ws, w ≠ ""
  | .any _, ws => ∀ w ∈ ws, w ≠ ""

end Segment

/-- The text of a route. -/
def text : List Segment → String
  | [] => "/"
  | segments => "/" ++ Text.join "/" (segments.map Segment.written)

/-- The segments of a route, one after the other, stand for segments of a path. -/
inductive Matches : List Segment → List String → Prop
  | nil : Matches [] []
  | cons {s : Segment} {ws : List String} {segments : List Segment} {rest : List String} (hs : s.Takes ws)
      (hrest : Matches segments rest) : Matches (s :: segments) (ws ++ rest)

/-- The segments of a path that begins with a slash. -/
def pathSegments (path : String) : List String :=
  (Path.segments path).tail

/-- A path begins with segments that those of a route stand for. -/
def HasForm (segments : List Segment) (path : String) : Prop :=
  ∃ front back, pathSegments path = front ++ back ∧ Matches segments front

/-! ## Texts with slashes -/

/-- Each segment behind a slash. -/
def spell (ws : List String) : List Char :=
  ws.flatMap fun w => '/' :: w.toList

/-- A text that ends or goes on with a slash. -/
def AtSlash (cs : List Char) : Prop :=
  cs = [] ∨ ∃ rest, cs = '/' :: rest

section Spell

variable {ws ps : List String} {r : List Char}

theorem spell_cons (w : String) (ws : List String) : spell (w :: ws) = '/' :: (w.toList ++ spell ws) := by
  simp [spell]

theorem spell_append (ws ps : List String) : spell (ws ++ ps) = spell ws ++ spell ps :=
  List.flatMap_append

theorem atSlash_spell_append (ws : List String) (hr : AtSlash r) : AtSlash (spell ws ++ r) := by
  cases ws with
  | nil => exact hr
  | cons w ws => exact Or.inr ⟨w.toList ++ spell ws ++ r, by rw [spell_cons]; rfl⟩

/-- What stands before the first slash is determined. -/
theorem append_inj_of_slashless {a b x y : List Char} (ha : '/' ∉ a) (hb : '/' ∉ b) (hx : AtSlash x) (hy : AtSlash y)
    (h : a ++ x = b ++ y) : a = b ∧ x = y := by
  have hspan {a x : List Char} (ha : '/' ∉ a) (hx : AtSlash x) : (a ++ x).span (· != '/') = (a, x) := by
    rcases hx with rfl | ⟨rest, rfl⟩
    · rw [List.append_nil]
      exact span_of_all (bne_of_not_mem ha)
    · exact span_append_cons (bne_of_not_mem ha) (by decide)
  have hcut := hspan ha hx
  rw [h, hspan hb hy] at hcut
  exact ⟨(Prod.mk.inj hcut).1.symm, (Prod.mk.inj hcut).2.symm⟩

/-- Where segments are taken off a path up to a slash, the rest of the path is what is left. -/
theorem exists_of_spell_eq_append (hps : ∀ w ∈ ps, Slashless w) (hws : ∀ w ∈ ws, Slashless w) (hr : AtSlash r)
    (h : spell ps = spell ws ++ r) : ∃ back, ps = ws ++ back ∧ r = spell back := by
  induction ws generalizing ps with
  | nil => exact ⟨ps, rfl, h.symm⟩
  | cons w ws ih =>
    cases ps with
    | nil => simp [spell] at h
    | cons p ps =>
      rw [List.forall_mem_cons] at hps hws
      rw [spell_cons, spell_cons, List.cons_append, List.append_assoc] at h
      have hps' : AtSlash (spell ps) := by simpa using atSlash_spell_append ps (Or.inl rfl)
      obtain ⟨hhead, htail⟩ := append_inj_of_slashless hps.1 hws.1 hps' (atSlash_spell_append ws hr) (List.cons.inj h).2
      obtain ⟨back, rfl, rfl⟩ := ih hps.2 hws.2 htail
      exact ⟨back, by rw [String.toList_inj.mp hhead]; rfl, rfl⟩

theorem spell_eq_intercalate (hne : ws ≠ []) : spell ws = '/' :: ['/'].intercalate (ws.map String.toList) := by
  induction ws with
  | nil => exact absurd rfl hne
  | cons w ws ih =>
    cases ws with
    | nil => simp [spell]
    | cons p ws =>
      rw [spell_cons, ih (List.cons_ne_nil _ _), List.map_cons, List.map_cons, List.map_cons,
        List.intercalate_cons_cons]
      simp

/-- A path that begins with a slash is spelled by its segments. -/
theorem spell_pathSegments {path : String} {cs : List Char} (h : path.toList = '/' :: cs) :
    spell (pathSegments path) = path.toList := by
  have hparts : pathSegments path = (cs.splitOn '/').map String.ofList := by
    rw [pathSegments, Path.segments, Text.splitOn, h, List.splitOn_cons_eq_if_modifyHead]
    simp
  have hne : (cs.splitOn '/').map String.ofList ≠ [] := by
    simp [List.splitOn_ne_nil]
  rw [hparts, spell_eq_intercalate hne, List.map_map, h]
  simp [Function.comp_def, List.intercalate_splitOn]

theorem slashless_of_mem_pathSegments {path w : String} (h : w ∈ pathSegments path) : Slashless w :=
  Path.slashless_of_mem_segments (List.mem_of_mem_tail h)

end Spell

/-! ## The pattern of a route -/

namespace Pattern

/-- A text as a pattern. -/
def chars (cs : List Char) : Pattern :=
  cs.map .char

section Marking

variable {ps rest : Pattern} {cs : List Char}

theorem ne_of_mem_chars {c : Char} (h : c ∉ cs) : ∀ p ∈ chars cs, p ≠ .char c := by
  intro p hp heq
  obtain ⟨d, hd, rfl⟩ := List.mem_map.mp hp
  exact h (Part.char.inj heq ▸ hd)

theorem markOptional_append (h : ∀ p ∈ ps, p ≠ .char '/') : markOptional (ps ++ rest) = ps ++ markOptional rest := by
  induction ps with
  | nil => rfl
  | cons p ps ih =>
    rw [List.forall_mem_cons] at h
    rw [List.cons_append, markOptional.eq_2 _ _ fun _ hp _ => h.1 hp, ih h.2, List.cons_append]

theorem markCatchAll_append (h : ∀ p ∈ ps, p ≠ .char '[') : markCatchAll (ps ++ rest) = ps ++ markCatchAll rest := by
  induction ps with
  | nil => rfl
  | cons p ps ih =>
    rw [List.forall_mem_cons] at h
    rw [List.cons_append, markCatchAll.eq_2 _ _ fun _ hp _ => h.1 hp, ih h.2, List.cons_append]

theorem markDynamic_append (h : ∀ p ∈ ps, p ≠ .char '[') : markDynamic (ps ++ rest) = ps ++ markDynamic rest := by
  induction ps with
  | nil => rfl
  | cons p ps ih =>
    rw [List.forall_mem_cons] at h
    rw [List.cons_append, markDynamic.eq_2 _ _ h.1, ih h.2, List.cons_append]

/-- The closing bracket behind a name is found. -/
theorem afterBracket?_chars (hne : cs ≠ []) (h : ']' ∉ cs) :
    afterBracket? false (chars cs ++ .char ']' :: rest) = some rest := by
  have hrest (cs : List Char) (h : ']' ∉ cs) : afterBracket? true (chars cs ++ .char ']' :: rest) = some rest := by
    induction cs with
    | nil => rfl
    | cons c cs ih =>
      rw [List.mem_cons, not_or] at h
      have hstep : afterBracket? true (chars (c :: cs) ++ .char ']' :: rest) =
          afterBracket? true (chars cs ++ .char ']' :: rest) := by
        simp [chars, afterBracket?, Ne.symm h.1]
      rw [hstep, ih h.2]
  obtain ⟨c, cs, rfl⟩ := List.exists_cons_of_ne_nil hne
  rw [List.mem_cons, not_or] at h
  rw [← hrest cs h.2]
  simp [chars, afterBracket?, Ne.symm h.1]

theorem markOptional_of_afterBracket? {behind : Pattern} (h : afterBracket? false rest = some (.char ']' :: behind)) :
    markOptional (.char '/' :: .char '[' :: .char '[' :: .char '.' :: .char '.' :: .char '.' :: rest) =
      .anySegments :: markOptional behind := by
  rw [markOptional.eq_1]
  split
  · rename_i behind' hbehind
    obtain rfl : behind = behind' := by simpa [h] using hbehind
    rfl
  · rename_i hno
    exact absurd h (hno behind)

theorem markCatchAll_of_afterBracket? {behind : Pattern} (h : afterBracket? false rest = some behind) :
    markCatchAll (.char '[' :: .char '.' :: .char '.' :: .char '.' :: rest) = .segments :: markCatchAll behind := by
  rw [markCatchAll.eq_1]
  split
  · rename_i behind' hbehind
    obtain rfl : behind = behind' := by simpa [h] using hbehind
    rfl
  · rename_i hno
    rw [h] at hno
    cases hno

theorem markDynamic_of_afterBracket? {behind : Pattern} (h : afterBracket? false rest = some behind) :
    markDynamic (.char '[' :: rest) = .segment :: markDynamic behind := by
  rw [markDynamic.eq_1]
  split
  · rename_i behind' hbehind
    obtain rfl : behind = behind' := by simpa [h] using hbehind
    rfl
  · rename_i hno
    rw [h] at hno
    cases hno

end Marking

end Pattern

namespace Segment

open Pattern

/-- A segment when those for any number are marked. -/
def optionalMarked : Segment → Pattern
  | .any _ => [.anySegments]
  | s => .char '/' :: chars s.written.toList

/-- A segment when those for one or more are marked as well. -/
def catchAllMarked : Segment → Pattern
  | .any _ => [.anySegments]
  | .many _ => [.char '/', .segments]
  | s => .char '/' :: chars s.written.toList

/-- The pattern of a segment. -/
def parts : Segment → Pattern
  | .any _ => [.anySegments]
  | .many _ => [.char '/', .segments]
  | .one _ => [.char '/', .segment]
  | .literal text => .char '/' :: chars text.toList

section Marking

variable {s : Segment} {rest : Pattern}

theorem slashless_written (h : s.Legible) : Slashless s.written := by
  cases s with
  | literal text => exact h.2.2
  | one name => simpa [Slashless, written] using h.1.slashless
  | many name => simpa [Slashless, written] using h.slashless
  | any name => simpa [Slashless, written] using h.slashless

/-- The first pass marks segments for any number. What follows a segment must not go on with a bracket, since the segment
may be empty. -/
theorem markOptional_written (h : s.Legible) (hrest : ∀ tail, rest ≠ .char '[' :: tail) :
    markOptional (.char '/' :: chars s.written.toList ++ rest) = s.optionalMarked ++ markOptional rest := by
  have hpass : markOptional (chars s.written.toList ++ rest) = chars s.written.toList ++ markOptional rest :=
    markOptional_append (ne_of_mem_chars (slashless_written h))
  cases s with
  | literal text =>
    rw [List.cons_append, markOptional.eq_2, hpass]
    · rfl
    · intro tail _ heq
      have hopening : '[' ∉ text.toList := h.1
      rcases hcs : text.toList with _ | ⟨c, cs⟩
      · exact hrest _ (by simpa [written, hcs, chars] using heq)
      · rw [hcs, List.mem_cons, not_or] at hopening
        simp [written, hcs, chars, Ne.symm hopening.1] at heq
  | one name =>
    obtain ⟨c, cs, hcons⟩ := List.exists_cons_of_ne_nil (String.toList_eq_nil_iff.not.mpr h.1.ne_empty)
    have hc : c ≠ '[' := fun heq => h.1.opening (by rw [hcons, heq]; exact List.mem_cons_self)
    rw [List.cons_append, markOptional.eq_2, hpass]
    · rfl
    · intro tail _ heq
      simp [written, hcons, chars, hc] at heq
  | many name =>
    rw [List.cons_append, markOptional.eq_2, hpass]
    · rfl
    · intro tail _ heq
      simp [written, chars] at heq
  | any name =>
    have hafter : afterBracket? false (chars name.toList ++ .char ']' :: .char ']' :: rest) = some (.char ']' :: rest) :=
      afterBracket?_chars (String.toList_eq_nil_iff.not.mpr h.ne_empty) h.closing
    have hshape : (.char '/' :: chars (written (.any name)).toList ++ rest : Pattern) =
        .char '/' :: .char '[' :: .char '[' :: .char '.' :: .char '.' :: .char '.' ::
          (chars name.toList ++ .char ']' :: .char ']' :: rest) := by
      simp [written, chars]
    rw [hshape, markOptional_of_afterBracket? hafter]
    rfl

/-- The second pass marks segments for one or more. -/
theorem markCatchAll_marked (h : s.Legible) :
    markCatchAll (s.optionalMarked ++ rest) = s.catchAllMarked ++ markCatchAll rest := by
  cases s with
  | literal text => exact markCatchAll_append (List.forall_mem_cons.mpr ⟨by simp, ne_of_mem_chars h.1⟩)
  | one name =>
    have hname : markCatchAll (chars (name.toList ++ [']']) ++ rest) = chars (name.toList ++ [']']) ++ markCatchAll rest :=
      markCatchAll_append (ne_of_mem_chars (by simpa using h.1.opening))
    have hshape (rest : Pattern) : optionalMarked (.one name) ++ rest =
        .char '/' :: .char '[' :: (chars (name.toList ++ [']']) ++ rest) := by
      simp [optionalMarked, written, chars]
    have hsame : catchAllMarked (.one name) = optionalMarked (.one name) := rfl
    rw [hsame, hshape, hshape, markCatchAll.eq_2 _ _ (by simp), markCatchAll.eq_2, hname]
    -- Three dots would have to stand in the name, since the bracket behind it is none.
    intro tail _ hdots
    apply h.2
    rcases hcs : name.toList with _ | ⟨a, _ | ⟨b, _ | ⟨c, cs⟩⟩⟩
    · simp [hcs, chars] at hdots
    · simp [hcs, chars] at hdots
    · simp [hcs, chars] at hdots
    · obtain ⟨rfl, rfl, rfl, -⟩ : a = '.' ∧ b = '.' ∧ c = '.' ∧ _ := by simpa [hcs, chars] using hdots
      exact ⟨cs, rfl⟩
  | many name =>
    have hafter : afterBracket? false (chars name.toList ++ .char ']' :: rest) = some rest :=
      afterBracket?_chars (String.toList_eq_nil_iff.not.mpr h.ne_empty) h.closing
    have hshape : optionalMarked (.many name) ++ rest =
        .char '/' :: .char '[' :: .char '.' :: .char '.' :: .char '.' :: (chars name.toList ++ .char ']' :: rest) := by
      simp [optionalMarked, written, chars]
    rw [hshape, markCatchAll.eq_2 _ _ (by simp), markCatchAll_of_afterBracket? hafter]
    rfl
  | any name => exact markCatchAll.eq_2 _ _ (by simp)

/-- The third pass marks segments for one. -/
theorem markDynamic_marked (h : s.Legible) :
    markDynamic (s.catchAllMarked ++ rest) = s.parts ++ markDynamic rest := by
  cases s with
  | literal text => exact markDynamic_append (List.forall_mem_cons.mpr ⟨by simp, ne_of_mem_chars h.1⟩)
  | one name =>
    have hafter : afterBracket? false (chars name.toList ++ .char ']' :: rest) = some rest :=
      afterBracket?_chars (String.toList_eq_nil_iff.not.mpr h.1.ne_empty) h.1.closing
    have hshape : catchAllMarked (.one name) ++ rest =
        .char '/' :: .char '[' :: (chars name.toList ++ .char ']' :: rest) := by
      simp [catchAllMarked, written, chars]
    rw [hshape, markDynamic.eq_2 _ _ (by simp), markDynamic_of_afterBracket? hafter]
    rfl
  | many name =>
    have hfree : ∀ p ∈ parts (.many name), p ≠ .char '[' := by simp [parts]
    exact markDynamic_append hfree
  | any name => exact markDynamic.eq_2 _ _ (by simp)

end Marking

end Segment

theorem toList_text {segments : List Segment} (hne : segments ≠ []) :
    (text segments).toList = spell (segments.map Segment.written) := by
  obtain ⟨s, segments, rfl⟩ := List.exists_cons_of_ne_nil hne
  rw [text, Path.toList_rooted, spell_eq_intercalate (by simp)]
  exact List.cons_ne_nil _ _

/-- A pass that changes each segment before others by itself changes all of them. -/
theorem pass_flatMap {segments : List Segment} {f : Pattern → Pattern} {before after : Segment → Pattern}
    (hnil : f [] = [])
    (hstep : ∀ s ∈ segments, ∀ later : List Segment,
      f (before s ++ later.flatMap before) = after s ++ f (later.flatMap before)) :
    f (segments.flatMap before) = segments.flatMap after := by
  induction segments with
  | nil => exact hnil
  | cons s segments ih =>
    rw [List.forall_mem_cons] at hstep
    rw [List.flatMap_cons, hstep.1, ih hstep.2, List.flatMap_cons]

/-- **The pattern of a route is made of the patterns of its segments.** -/
theorem ofRoute_text {segments : List Segment} (hne : segments ≠ []) (h : ∀ s ∈ segments, s.Legible) :
    Pattern.ofRoute (text segments) = segments.flatMap Segment.parts := by
  have hchars : (text segments).toList.map Part.char =
      segments.flatMap fun s => .char '/' :: Pattern.chars s.written.toList := by
    rw [toList_text hne, spell, List.map_flatMap, List.flatMap_map]
    rfl
  -- Behind a segment stands the slash of the next one.
  have hlater (later : List Segment) (tail : Pattern) :
      (later.flatMap fun s => Part.char '/' :: Pattern.chars s.written.toList) ≠ .char '[' :: tail := by
    cases later <;> simp
  rw [Pattern.ofRoute, hchars,
    pass_flatMap Pattern.markOptional.eq_3 fun s hs later => Segment.markOptional_written (h s hs) (hlater later),
    pass_flatMap (by simp [Pattern.markCatchAll]) fun s hs later => Segment.markCatchAll_marked (h s hs),
    pass_flatMap (by simp [Pattern.markDynamic]) fun s hs later => Segment.markDynamic_marked (h s hs)]

/-! ## What a pattern accepts -/

namespace Pattern

section Rests

variable {p : Pattern} {cs r : List Char}

theorem mem_segmentRests : r ∈ segmentRests cs ↔ ∃ a, a ≠ [] ∧ '/' ∉ a ∧ cs = a ++ r := by
  induction cs with
  | nil => simp [segmentRests]
  | cons c cs ih =>
    rw [segmentRests]
    by_cases hc : c = '/'
    · subst hc
      simp only [beq_self_eq_true, if_true, List.not_mem_nil, false_iff]
      rintro ⟨a, hne, hfree, h⟩
      obtain ⟨d, a, rfl⟩ := List.exists_cons_of_ne_nil hne
      exact hfree ((List.cons.inj h).1 ▸ List.mem_cons_self)
    · rw [if_neg (by simpa using hc), List.mem_cons, ih]
      constructor
      · rintro (rfl | ⟨a, -, hfree, rfl⟩)
        · exact ⟨[c], by simp, by simpa using Ne.symm hc, rfl⟩
        · exact ⟨c :: a, by simp, by simp [Ne.symm hc, hfree], rfl⟩
      · rintro ⟨a, hne, hfree, h⟩
        obtain ⟨d, a, rfl⟩ := List.exists_cons_of_ne_nil hne
        obtain ⟨-, rfl⟩ := List.cons.inj h
        by_cases ha : a = []
        · exact Or.inl (by simp [ha])
        · exact Or.inr ⟨a, ha, fun hmem => hfree (List.mem_cons_of_mem _ hmem), rfl⟩

theorem mem_anySegmentsRests_slash :
    r ∈ anySegmentsRests ('/' :: cs) ↔ r = '/' :: cs ∨ ∃ q ∈ segmentRests cs, r ∈ anySegmentsRests q := by
  rw [anySegmentsRests.eq_1, List.mem_cons, List.mem_flatMap]
  simp

theorem self_mem_anySegmentsRests (cs : List Char) : cs ∈ anySegmentsRests cs := by
  by_cases h : ∃ rest, cs = '/' :: rest
  · obtain ⟨rest, rfl⟩ := h
    exact mem_anySegmentsRests_slash.mpr (Or.inl rfl)
  · rw [anySegmentsRests.eq_2 _ fun rest heq => h ⟨rest, heq⟩]
    exact List.mem_singleton_self _

/-- A part for any number of segments takes a slash and a text for each. -/
theorem mem_anySegmentsRests :
    r ∈ anySegmentsRests cs ↔ ∃ ws, (∀ w ∈ ws, w ≠ "" ∧ Slashless w) ∧ cs = spell ws ++ r := by
  constructor
  · intro h
    fun_induction anySegmentsRests cs with
    | case1 cs ih =>
      rcases List.mem_cons.mp h with rfl | h
      · exact ⟨[], by simp, rfl⟩
      · obtain ⟨⟨q, hq⟩, -, hr⟩ := List.mem_flatMap.mp h
        obtain ⟨a, hne, hfree, rfl⟩ := mem_segmentRests.mp hq
        obtain ⟨ws, hws, rfl⟩ := ih q hq hr
        refine ⟨String.ofList a :: ws, List.forall_mem_cons.mpr ⟨?_, hws⟩, by simp [spell_cons]⟩
        exact ⟨by simpa using hne, by simpa [Slashless] using hfree⟩
    | case2 cs _ => exact ⟨[], by simp, (List.mem_singleton.mp h).symm⟩
  · rintro ⟨ws, hws, rfl⟩
    induction ws with
    | nil => exact self_mem_anySegmentsRests r
    | cons w ws ih =>
      rw [List.forall_mem_cons] at hws
      rw [spell_cons, List.cons_append, List.append_assoc, mem_anySegmentsRests_slash]
      refine Or.inr ⟨spell ws ++ r, mem_segmentRests.mpr ⟨w.toList, ?_, hws.1.2, rfl⟩, ih hws.2⟩
      simpa using hws.1.1

theorem accepts_cons {part : Part} : accepts (part :: p) cs = true ↔ ∃ r ∈ rests cs part, accepts p r = true := by
  rw [accepts, List.any_eq_true]

theorem accepts_char_cons {c : Char} : accepts (.char c :: p) cs = true ↔ ∃ r, cs = c :: r ∧ accepts p r = true := by
  rw [accepts_cons]
  cases cs with
  | nil => simp [rests]
  | cons d cs =>
    by_cases hd : d = c
    · simp [rests, hd]
    · simp [rests, hd]

theorem accepts_chars_append (a : List Char) :
    accepts (chars a ++ p) cs = true ↔ ∃ r, cs = a ++ r ∧ accepts p r = true := by
  induction a generalizing cs with
  | nil => simp [chars]
  | cons c a ih =>
    have hshape : chars (c :: a) ++ p = .char c :: (chars a ++ p) := rfl
    rw [hshape, accepts_char_cons]
    constructor
    · rintro ⟨q, rfl, hq⟩
      obtain ⟨r, rfl, hr⟩ := ih.mp hq
      exact ⟨r, rfl, hr⟩
    · rintro ⟨r, rfl, hr⟩
      exact ⟨a ++ r, rfl, ih.mpr ⟨r, rfl, hr⟩⟩

end Rests

end Pattern

section Acceptance

open Pattern

variable {s : Segment} {segments : List Segment} {p : Pattern} {cs : List Char}

/-- **The pattern of a segment takes what the segment stands for.** -/
theorem accepts_parts_append (h : s.Legible) : accepts (s.parts ++ p) cs = true ↔
    ∃ ws, s.Takes ws ∧ (∀ w ∈ ws, Slashless w) ∧ ∃ r, cs = spell ws ++ r ∧ accepts p r = true := by
  cases s with
  | literal text =>
    have hshape : (Segment.literal text).parts ++ p = chars ('/' :: text.toList) ++ p := rfl
    rw [hshape, accepts_chars_append]
    constructor
    · rintro ⟨r, rfl, hr⟩
      exact ⟨[text], rfl, by simpa using h.2.2, r, by simp [spell], hr⟩
    · rintro ⟨ws, rfl, -, r, rfl, hr⟩
      exact ⟨r, by simp [spell], hr⟩
  | one name =>
    have hshape : (Segment.one name).parts ++ p = .char '/' :: .segment :: p := rfl
    rw [hshape, accepts_char_cons]
    simp only [accepts_cons, rests, mem_segmentRests]
    constructor
    · rintro ⟨_, rfl, r, ⟨a, hne, hfree, rfl⟩, hr⟩
      refine ⟨[String.ofList a], ⟨_, by simpa using hne, rfl⟩, by simpa [Slashless] using hfree, r, by simp [spell], hr⟩
    · rintro ⟨ws, ⟨w, hne, rfl⟩, hfree, r, rfl, hr⟩
      refine ⟨w.toList ++ r, by simp [spell], r, ⟨w.toList, by simpa using hne, ?_, rfl⟩, hr⟩
      exact hfree w List.mem_cons_self
  | many name =>
    have hshape : (Segment.many name).parts ++ p = .char '/' :: .segments :: p := rfl
    rw [hshape, accepts_char_cons]
    simp only [accepts_cons, rests, List.mem_flatMap, mem_segmentRests, mem_anySegmentsRests]
    constructor
    · rintro ⟨_, rfl, r, ⟨_, ⟨a, hne, hfree, rfl⟩, ws, hws, rfl⟩, hr⟩
      refine ⟨String.ofList a :: ws, ⟨by simp, List.forall_mem_cons.mpr ⟨by simpa using hne, fun w hw => (hws w hw).1⟩⟩,
        List.forall_mem_cons.mpr ⟨by simpa [Slashless] using hfree, fun w hw => (hws w hw).2⟩, r, ?_, hr⟩
      simp [spell_cons]
    · rintro ⟨ws, ⟨hne, hws⟩, hfree, r, rfl, hr⟩
      obtain ⟨w, ws, rfl⟩ := List.exists_cons_of_ne_nil hne
      rw [List.forall_mem_cons] at hws hfree
      refine ⟨w.toList ++ (spell ws ++ r), by simp [spell_cons], r, ⟨spell ws ++ r, ?_, ws, ?_, rfl⟩, hr⟩
      · exact ⟨w.toList, by simpa using hws.1, hfree.1, rfl⟩
      · exact fun w hw => ⟨hws.2 w hw, hfree.2 w hw⟩
  | any name =>
    have hshape : (Segment.any name).parts ++ p = .anySegments :: p := rfl
    rw [hshape]
    simp only [accepts_cons, rests, mem_anySegmentsRests]
    constructor
    · rintro ⟨r, ⟨ws, hws, rfl⟩, hr⟩
      exact ⟨ws, fun w hw => (hws w hw).1, fun w hw => (hws w hw).2, r, rfl, hr⟩
    · rintro ⟨ws, hws, hfree, r, rfl, hr⟩
      exact ⟨r, ⟨ws, fun w hw => ⟨hws w hw, hfree w hw⟩, rfl⟩, hr⟩

/-- What a pattern accepts on one line ends or begins with a slash, so no segment of a path is cut in two. -/
theorem atSlash_of_accepts (h : ∀ s ∈ segments, s.Legible) (hline : '\n' ∉ cs)
    (haccepts : accepts (segments.flatMap Segment.parts) cs = true) : AtSlash cs := by
  induction segments generalizing cs with
  | nil =>
    cases cs with
    | nil => exact Or.inl rfl
    | cons c cs =>
      by_cases hc : c = '/'
      · exact Or.inr ⟨cs, by rw [hc]⟩
      · have hend : atEnd (c :: cs) = true := by
          have haccepts' : endsPath (c :: cs) = true := haccepts
          rwa [endsPath] at haccepts'
          simpa using hc
        obtain ⟨rfl, -⟩ : c = '\n' ∧ cs = [] := by simpa [atEnd] using hend
        exact absurd List.mem_cons_self hline
  | cons s segments ih =>
    rw [List.forall_mem_cons] at h
    rw [List.flatMap_cons, accepts_parts_append h.1] at haccepts
    obtain ⟨ws, -, -, r, rfl, hr⟩ := haccepts
    exact atSlash_spell_append ws (ih h.2 (fun hmem => hline (List.mem_append_right _ hmem)) hr)

/-- A pattern accepts the segments that its segments stand for, whatever follows them. -/
theorem accepts_spell_iff (h : ∀ s ∈ segments, s.Legible) {ps : List String} (hps : ∀ w ∈ ps, Slashless w)
    (hline : '\n' ∉ spell ps) : accepts (segments.flatMap Segment.parts) (spell ps) = true ↔
      ∃ front back, ps = front ++ back ∧ Matches segments front := by
  induction segments generalizing ps with
  | nil =>
    have hends : endsPath (spell ps) = true := by
      cases ps with
      | nil => rfl
      | cons w ps =>
        rw [spell_cons, List.mem_cons, not_or] at hline
        rw [spell_cons, endsPath, List.dropWhile_eq_nil_iff.mpr (bne_of_not_mem hline.2)]
        rfl
    exact ⟨fun _ => ⟨[], ps, rfl, .nil⟩, fun _ => hends⟩
  | cons s segments ih =>
    rw [List.forall_mem_cons] at h
    rw [List.flatMap_cons, accepts_parts_append h.1]
    constructor
    · rintro ⟨ws, htakes, hws, r, hcut, hr⟩
      have hliner : '\n' ∉ r := fun hmem => hline (hcut ▸ List.mem_append_right _ hmem)
      obtain ⟨rest, rfl, rfl⟩ := exists_of_spell_eq_append hps hws (atSlash_of_accepts h.2 hliner hr) hcut
      obtain ⟨front, back, rfl, hmatches⟩ :=
        (ih h.2 (fun w hw => hps w (List.mem_append_right _ hw)) hliner).mp hr
      exact ⟨ws ++ front, back, (List.append_assoc _ _ _).symm, .cons htakes hmatches⟩
    · rintro ⟨front, back, rfl, hmatches⟩
      cases hmatches with
      | @cons _ ws _ rest htakes hrest =>
        rw [List.append_assoc] at hps hline ⊢
        rw [spell_append] at hline ⊢
        refine ⟨ws, htakes, fun w hw => hps w (List.mem_append_left _ hw), _, rfl, ?_⟩
        rw [ih h.2 (fun w hw => hps w (List.mem_append_right _ hw)) fun hmem => hline (List.mem_append_right _ hmem)]
        exact ⟨rest, back, rfl, hrest⟩

/-- **The pattern of a route accepts the paths of its form.** -/
theorem accepts_ofRoute_iff (hne : segments ≠ []) (h : ∀ s ∈ segments, s.Legible) {path : String}
    (hrooted : path.toList = '/' :: cs) (hline : '\n' ∉ path.toList) :
    (ofRoute (text segments)).accepts path.toList = true ↔ HasForm segments path := by
  have hspell := spell_pathSegments hrooted
  rw [ofRoute_text hne h, ← hspell, accepts_spell_iff h (fun w hw => slashless_of_mem_pathSegments hw) (hspell ▸ hline)]
  rfl

end Acceptance

end ExportAudit.Route
