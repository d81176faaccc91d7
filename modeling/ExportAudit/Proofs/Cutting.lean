import Mathlib
import ExportAudit.Text.Basic

/-!
# Cutting lists of characters

What the readers of targets and documents cut off a list of characters: a front part whose characters all pass a test
(`span_append_cons`, `span_of_all`, `of_span_eq`, `append_inj_of_not_mem`), an end (`reverse_dropWhile_isPrefix`), or parts
with a separator between them (`mem_intercalate`) or with nothing (`toList_join_empty`). A text begins or ends with another
(`startsWith_iff`, `endsWith_iff`), and it is cut at the first occurrence of a character, if it has one
(`cut?_eq_some_iff`, `cut?_eq_none_iff`).
-/

namespace ExportAudit

/-- A test tells characters apart. -/
theorem ne_of_test {p : Char → Bool} {c d : Char} (hc : p c = true) (hd : p d = false) : c ≠ d := by
  rintro rfl
  rw [hd] at hc
  cases hc

/-- The characters of a list differ from one that does not occur in it. -/
theorem bne_of_not_mem {sep : Char} {cs : List Char} (h : sep ∉ cs) : ∀ c ∈ cs, (c != sep) = true := by
  intro c hc
  exact bne_iff_ne.mpr fun heq => h (heq ▸ hc)

section Span

variable {p : Char → Bool} {cs a b rest : List Char} {x : Char}

/-- A front part ends before the first character that fails the test. -/
theorem span_append_cons (ha : ∀ c ∈ a, p c = true) (hx : p x = false) :
    (a ++ x :: rest).span p = (a, x :: rest) := by
  rw [List.span_eq_takeWhile_dropWhile, List.takeWhile_append_of_pos ha, List.dropWhile_append_of_pos ha]
  simp [hx]

theorem span_of_all (ha : ∀ c ∈ a, p c = true) : a.span p = (a, []) := by
  rw [List.span_eq_takeWhile_dropWhile, List.takeWhile_eq_self_iff.mpr ha, List.dropWhile_eq_nil_iff.mpr ha]

theorem of_span_eq (h : cs.span p = (a, b)) :
    cs = a ++ b ∧ (∀ c ∈ a, p c = true) ∧ ∀ x, b.head? = some x → p x = false := by
  rw [List.span_eq_takeWhile_dropWhile] at h
  obtain ⟨rfl, rfl⟩ := Prod.mk.inj h
  refine ⟨List.takeWhile_append_dropWhile.symm, fun c hc => List.mem_takeWhile_imp hc, fun x hx => ?_⟩
  have := List.head?_dropWhile_not p cs
  simpa [hx] using this

/-- What stands before the first occurrence of a character is determined. -/
theorem append_inj_of_not_mem {s t : List Char} (ha : x ∉ a) (hb : x ∉ b) (h : a ++ x :: s = b ++ x :: t) :
    a = b ∧ s = t := by
  have hcut := congrArg (List.span (· != x)) h
  rw [span_append_cons (bne_of_not_mem ha) (by simp), span_append_cons (bne_of_not_mem hb) (by simp)] at hcut
  obtain ⟨hfront, hback⟩ := Prod.mk.inj hcut
  exact ⟨hfront, (List.cons.inj hback).2⟩

/-- What is left when characters are taken off the end. -/
theorem reverse_dropWhile_isPrefix (p : Char → Bool) (cs : List Char) : (cs.reverse.dropWhile p).reverse <+: cs := by
  rw [← List.reverse_suffix, List.reverse_reverse]
  exact List.dropWhile_suffix p

end Span

/-! ## Texts -/

theorem startsWith_iff {s p : String} : Text.startsWith s p = true ↔ ∃ rest, s = p ++ rest := by
  rw [Text.startsWith, List.isPrefixOf_iff_prefix]
  constructor
  · rintro ⟨cs, h⟩
    exact ⟨String.ofList cs, by rw [← String.toList_inj]; simpa using h.symm⟩
  · rintro ⟨rest, rfl⟩
    exact ⟨rest.toList, by simp⟩

theorem endsWith_iff {s p : String} : Text.endsWith s p = true ↔ ∃ front, s = front ++ p := by
  rw [Text.endsWith, List.isSuffixOf_iff_suffix]
  constructor
  · rintro ⟨cs, h⟩
    exact ⟨String.ofList cs, by rw [← String.toList_inj]; simpa using h.symm⟩
  · rintro ⟨front, rfl⟩
    exact ⟨front.toList, by simp⟩

namespace Text

variable {sep : Char} {s before after : String}

theorem cut?_eq_none_iff : cut? sep s = none ↔ sep ∉ s.toList := by
  unfold cut?
  constructor
  · intro h hmem
    rcases hspan : s.toList.span (· != sep) with ⟨front, _ | ⟨c, back⟩⟩
    · obtain ⟨hwhole, hall, -⟩ := of_span_eq hspan
      rw [hwhole, List.append_nil] at hmem
      simpa using hall _ hmem
    · rw [hspan] at h
      cases h
  · intro h
    rw [span_of_all (bne_of_not_mem h)]

theorem cut?_eq_some_iff : cut? sep s = some (before, after) ↔
    s.toList = before.toList ++ sep :: after.toList ∧ sep ∉ before.toList := by
  unfold cut?
  constructor
  · intro h
    rcases hspan : s.toList.span (· != sep) with ⟨front, _ | ⟨c, back⟩⟩
    · rw [hspan] at h
      cases h
    · obtain ⟨hwhole, hall, hhead⟩ := of_span_eq hspan
      obtain rfl : c = sep := by simpa using hhead c rfl
      rw [hspan] at h
      obtain ⟨rfl, rfl⟩ := Prod.mk.inj (Option.some.inj h)
      simp only [String.toList_ofList]
      exact ⟨hwhole, fun hmem => by simpa using hall _ hmem⟩
  · rintro ⟨hwhole, hfree⟩
    rw [hwhole, span_append_cons (bne_of_not_mem hfree) (by simp)]
    simp

end Text

theorem toList_join_empty (parts : List String) : (Text.join "" parts).toList = (parts.map String.toList).flatten := by
  rw [Text.join, String.toList_ofList]
  induction parts with
  | nil => rfl
  | cons part rest ih =>
    cases rest with
    | nil => simp
    | cons next rest => simpa [List.intercalate_cons_cons] using ih

/-- What stands between separators, and the separators themselves. -/
theorem mem_intercalate {sep c : Char} {ps : List (List Char)} (h : c ∈ [sep].intercalate ps) :
    c = sep ∨ ∃ p ∈ ps, c ∈ p := by
  induction ps with
  | nil => simp at h
  | cons p ps ih =>
    cases ps with
    | nil => exact Or.inr ⟨p, List.mem_cons_self, by simpa using h⟩
    | cons q ps =>
      simp only [List.intercalate_cons_cons, List.mem_append, List.mem_singleton] at h
      rcases h with (h | h) | h
      · exact Or.inr ⟨p, List.mem_cons_self, h⟩
      · exact Or.inl h
      · rcases ih h with h | ⟨r, hr, h⟩
        · exact Or.inl h
        · exact Or.inr ⟨r, List.mem_cons_of_mem _ hr, h⟩

end ExportAudit
