import Mathlib
import ExportAudit.Resolution
import ExportAudit.Proofs.Cutting

/-!
# The alias that a reference goes by

A key without a star matches the reference that it is; a key with a star matches every reference that begins with what
stands before its first star and ends with what stands behind it (`KeyMatches`). Of the keys that match, the one with the
longest text before its star is chosen, and the first one of several (`Chosen`).

- One key is tried as `KeyMatches` says (`matchKey?_eq_some_iff`, `matchKey?_eq_none_iff`);
- the loop over the matches keeps the first of the heaviest (`FirstHeaviest`, `foldl_better`);
- so `matchAlias?` answers the chosen key with what its star stands for, and nothing exactly when no key matches
  (`longest_alias_chosen`).
-/

namespace ExportAudit

/-! ## One key -/

/-- A key matches a reference: what its star stands for, and the length of the text that has to agree from the beginning
on. -/
inductive KeyMatches (reference : String) : String → String → Nat → Prop
  /-- A key without a star stands for itself. -/
  | whole (hfree : '*' ∉ reference.toList) : KeyMatches reference reference "" reference.length
  /-- The first star of a key stands for whatever is between its two parts. -/
  | star {before capture after : String} (hfree : '*' ∉ before.toList) (h : reference = before ++ capture ++ after) :
      KeyMatches reference (before ++ "*" ++ after) capture before.length

section Key

variable {reference key capture before after : String} {weight : Nat} {m : AliasMatch}

/-- A text begins and ends with two others that do not overlap exactly when something stands between them. -/
theorem exists_between_iff : (Text.startsWith reference before && Text.endsWith reference after &&
      before.length + after.length ≤ reference.length) = true ↔
    ∃ capture, reference = before ++ capture ++ after := by
  simp only [Text.startsWith, Text.endsWith, Bool.and_eq_true, List.isPrefixOf_iff_prefix, List.isSuffixOf_iff_suffix,
    decide_eq_true_eq, ← String.length_toList, ← String.toList_inj, String.toList_append]
  constructor
  · rintro ⟨⟨⟨rest, hrest⟩, hend⟩, hlength⟩
    have hfits : after.toList.length ≤ rest.length := by
      rw [← hrest, List.length_append] at hlength
      omega
    obtain ⟨middle, rfl⟩ : after.toList <:+ rest :=
      List.suffix_of_suffix_length_le hend (hrest ▸ List.suffix_append _ _) hfits
    exact ⟨String.ofList middle, by rw [String.toList_ofList, List.append_assoc, hrest]⟩
  · rintro ⟨capture, h⟩
    refine ⟨⟨⟨capture.toList ++ after.toList, by rw [h, List.append_assoc]⟩, ⟨_, h.symm⟩⟩, ?_⟩
    rw [h]
    simp only [List.length_append]
    omega

/-- What is left between two texts when they are taken off. -/
theorem dropEnd_drop (before capture after : String) :
    Text.dropEnd (Text.drop (before ++ capture ++ after) before.length) after.length = capture := by
  rw [← String.toList_inj]
  simp [Text.dropEnd, Text.drop, ← String.length_toList]

theorem matchKey?_of_keyMatches (h : KeyMatches reference key capture weight) :
    matchKey? reference key = some ⟨key, capture, weight⟩ := by
  unfold matchKey?
  cases h with
  | whole hfree =>
    rw [Text.cut?_eq_none_iff.mpr hfree]
    simp
  | @star before capture after hfree h =>
    have hcut : Text.cut? '*' (before ++ "*" ++ after) = some (before, after) :=
      Text.cut?_eq_some_iff.mpr ⟨by simp, hfree⟩
    rw [hcut]
    simp only
    rw [if_pos (exists_between_iff.mpr ⟨capture, h⟩), h, dropEnd_drop]

/-- **A key is tried as it should be.** -/
theorem matchKey?_eq_some_iff :
    matchKey? reference key = some m ↔ m.key = key ∧ KeyMatches reference key m.capture m.weight := by
  constructor
  · intro h
    unfold matchKey? at h
    cases hcut : Text.cut? '*' key with
    | none =>
      rw [hcut] at h
      obtain ⟨heq, hm⟩ := Option.ite_none_right_eq_some.mp h
      obtain rfl := Option.some.inj hm
      obtain rfl := beq_iff_eq.mp heq
      exact ⟨rfl, .whole (Text.cut?_eq_none_iff.mp hcut)⟩
    | some parts =>
      obtain ⟨before, after⟩ := parts
      obtain ⟨hwhole, hfree⟩ := Text.cut?_eq_some_iff.mp hcut
      have hkey : key = before ++ "*" ++ after := by
        rw [← String.toList_inj]
        simpa using hwhole
      rw [hcut] at h
      obtain ⟨hfits, hm⟩ := Option.ite_none_right_eq_some.mp h
      obtain rfl := Option.some.inj hm
      obtain ⟨capture, rfl⟩ := exists_between_iff.mp hfits
      refine ⟨rfl, ?_⟩
      rw [dropEnd_drop, hkey]
      exact .star hfree rfl
  · rintro ⟨rfl, h⟩
    exact matchKey?_of_keyMatches h

theorem matchKey?_eq_none_iff :
    matchKey? reference key = none ↔ ∀ capture weight, ¬ KeyMatches reference key capture weight := by
  constructor
  · intro h capture weight hmatches
    rw [matchKey?_of_keyMatches hmatches] at h
    cases h
  · intro h
    cases hm : matchKey? reference key with
    | none => rfl
    | some m => exact absurd (matchKey?_eq_some_iff.mp hm).2 (h _ _)

end Key

/-! ## The loop -/

/-- The first of the heaviest matches: those before it are lighter, those behind it are not heavier. -/
def FirstHeaviest (ms : List AliasMatch) (m : AliasMatch) : Prop :=
  ∃ before after, ms = before ++ m :: after ∧ (∀ a ∈ before, a.weight < m.weight) ∧ ∀ a ∈ after, a.weight ≤ m.weight

section Loop

variable {ms : List AliasMatch} {m b : AliasMatch}

theorem FirstHeaviest.le (h : FirstHeaviest ms m) : ∀ a ∈ ms, a.weight ≤ m.weight := by
  obtain ⟨before, after, rfl, hbefore, hafter⟩ := h
  intro a ha
  rcases List.mem_append.mp ha with ha | ha
  · exact (hbefore a ha).le
  · rcases List.mem_cons.mp ha with rfl | ha
    · exact le_rfl
    · exact hafter a ha

/-- A lighter match in front changes nothing. -/
theorem FirstHeaviest.cons (h : FirstHeaviest ms m) (hb : b.weight < m.weight) : FirstHeaviest (b :: ms) m := by
  obtain ⟨before, after, rfl, hbefore, hafter⟩ := h
  exact ⟨b :: before, after, rfl, List.forall_mem_cons.mpr ⟨hb, hbefore⟩, hafter⟩

/-- A match that is not heavier than the one before it changes nothing. -/
theorem FirstHeaviest.insert (h : FirstHeaviest (b :: ms) m) {a : AliasMatch} (ha : a.weight ≤ b.weight) :
    FirstHeaviest (b :: a :: ms) m := by
  obtain ⟨before, after, heq, hbefore, hafter⟩ := h
  cases before with
  | nil =>
    obtain ⟨rfl, rfl⟩ := List.cons.inj heq
    exact ⟨[], a :: ms, rfl, by simp, List.forall_mem_cons.mpr ⟨ha, hafter⟩⟩
  | cons first before =>
    obtain ⟨rfl, rfl⟩ := List.cons.inj heq
    rw [List.forall_mem_cons] at hbefore
    refine ⟨b :: a :: before, after, rfl, ?_, hafter⟩
    exact List.forall_mem_cons.mpr ⟨hbefore.1, List.forall_mem_cons.mpr ⟨by omega, hbefore.2⟩⟩

/-- **The loop keeps the first of the heaviest matches.** The invariant is that the best match so far may stand for all
that it was compared with. -/
theorem foldl_better (ms : List AliasMatch) (b : AliasMatch) :
    ∃ m, ms.foldl AliasMatch.better (some b) = some m ∧ FirstHeaviest (b :: ms) m := by
  induction ms generalizing b with
  | nil => exact ⟨b, rfl, [], [], rfl, by simp, by simp⟩
  | cons a ms ih =>
    by_cases hlt : b.weight < a.weight
    · obtain ⟨m, hm, hfirst⟩ := ih a
      have hstep : AliasMatch.better (some b) a = some a := if_pos hlt
      refine ⟨m, by rw [List.foldl_cons, hstep, hm], hfirst.cons ?_⟩
      exact lt_of_lt_of_le hlt (hfirst.le a List.mem_cons_self)
    · obtain ⟨m, hm, hfirst⟩ := ih b
      have hstep : AliasMatch.better (some b) a = some b := if_neg hlt
      exact ⟨m, by rw [List.foldl_cons, hstep, hm], hfirst.insert (by omega)⟩

/-- There is only one first of the heaviest. -/
theorem FirstHeaviest.unique (h : FirstHeaviest ms m) {m' : AliasMatch} (h' : FirstHeaviest ms m') : m = m' := by
  have hweight : m.weight = m'.weight := by
    obtain ⟨before, after, heq, -⟩ := id h
    obtain ⟨before', after', heq', -⟩ := id h'
    exact le_antisymm (h'.le m (by simp [heq])) (h.le m' (by simp [heq']))
  obtain ⟨before, after, rfl, hbefore, -⟩ := h
  obtain ⟨before', after', heq, hbefore', -⟩ := h'
  rcases List.append_eq_append_iff.mp heq with ⟨between, rfl, hrest⟩ | ⟨between, rfl, hrest⟩
  · cases between with
    | nil => exact (List.cons.inj hrest).1
    | cons first between =>
      obtain ⟨rfl, -⟩ := List.cons.inj hrest
      have := hbefore' m (by simp)
      omega
  · cases between with
    | nil => exact (List.cons.inj hrest).1.symm
    | cons first between =>
      obtain ⟨rfl, -⟩ := List.cons.inj hrest
      have := hbefore m' (by simp)
      omega

theorem foldl_better_none_eq_some_iff : ms.foldl AliasMatch.better none = some m ↔ FirstHeaviest ms m := by
  cases ms with
  | nil =>
    constructor
    · intro h
      cases h
    · rintro ⟨before, after, h, -⟩
      simp at h
  | cons b ms =>
    obtain ⟨m', hm', hfirst⟩ := foldl_better ms b
    have hfold : (b :: ms).foldl AliasMatch.better none = some m' := hm'
    rw [hfold, Option.some.injEq]
    constructor
    · rintro rfl
      exact hfirst
    · exact hfirst.unique

theorem foldl_better_none_eq_none_iff : ms.foldl AliasMatch.better none = none ↔ ms = [] := by
  cases ms with
  | nil => simp
  | cons b ms =>
    obtain ⟨m, hm, -⟩ := foldl_better ms b
    have hfold : (b :: ms).foldl AliasMatch.better none = some m := hm
    simp [hfold]

end Loop

/-! ## The choice -/

/-- The key of a table that a reference goes by, with what its star stands for. -/
structure Chosen (reference : String) (keys : List String) (m : AliasMatch) : Prop where
  mem : m.key ∈ keys
  matching : KeyMatches reference m.key m.capture m.weight
  /-- No key that matches has a longer text. -/
  longest : ∀ key ∈ keys, ∀ capture weight, KeyMatches reference key capture weight → weight ≤ m.weight
  /-- No key before it that matches has a text as long. -/
  earliest : ∃ before after, keys = before ++ m.key :: after ∧
    ∀ key ∈ before, ∀ capture weight, KeyMatches reference key capture weight → weight < m.weight

section Choice

variable {reference : String} {keys : List String} {m : AliasMatch}

/-- The first of the heaviest matches is that of the chosen key. -/
theorem firstHeaviest_filterMap_iff :
    FirstHeaviest (keys.filterMap (matchKey? reference)) m ↔ Chosen reference keys m := by
  constructor
  · intro h
    have hle := h.le
    obtain ⟨before, after, hms, hbefore, -⟩ := h
    obtain ⟨front, rest, rfl, rfl, hrest⟩ := List.filterMap_eq_append_iff.mp hms
    obtain ⟨skipped, key, back, rfl, hskipped, hkey, -⟩ := List.filterMap_eq_cons_iff.mp hrest
    obtain ⟨rfl, hmatches⟩ := matchKey?_eq_some_iff.mp hkey
    refine ⟨by simp, hmatches, fun key hmem capture weight hkey => ?_, front ++ skipped, back, by simp, ?_⟩
    · exact hle ⟨key, capture, weight⟩ (List.mem_filterMap.mpr ⟨key, hmem, matchKey?_of_keyMatches hkey⟩)
    · intro key hmem capture weight hkey
      rcases List.mem_append.mp hmem with hmem | hmem
      · exact hbefore ⟨key, capture, weight⟩ (List.mem_filterMap.mpr ⟨key, hmem, matchKey?_of_keyMatches hkey⟩)
      · exact absurd hkey (matchKey?_eq_none_iff.mp (hskipped key hmem) _ _)
  · rintro ⟨-, hmatches, hlongest, before, after, rfl, hbefore⟩
    refine ⟨before.filterMap (matchKey? reference), after.filterMap (matchKey? reference), ?_, ?_, ?_⟩
    · rw [List.filterMap_append, List.filterMap_cons_some (matchKey?_of_keyMatches hmatches)]
    · intro a ha
      obtain ⟨key, hmem, hkey⟩ := List.mem_filterMap.mp ha
      exact hbefore key hmem _ _ (matchKey?_eq_some_iff.mp hkey).2
    · intro a ha
      obtain ⟨key, hmem, hkey⟩ := List.mem_filterMap.mp ha
      exact hlongest key (by simp [hmem]) _ _ (matchKey?_eq_some_iff.mp hkey).2

theorem matchAlias?_eq_some_iff : matchAlias? reference keys = some m ↔ Chosen reference keys m := by
  rw [matchAlias?, foldl_better_none_eq_some_iff, firstHeaviest_filterMap_iff]

theorem matchAlias?_eq_none_iff : matchAlias? reference keys = none ↔
    ∀ key ∈ keys, ∀ capture weight, ¬ KeyMatches reference key capture weight := by
  rw [matchAlias?, foldl_better_none_eq_none_iff, List.filterMap_eq_nil_iff]
  simp only [matchKey?_eq_none_iff]

/-- **The alias of a reference is the longest that matches, and the first of several.** There is one exactly when some key
matches. -/
theorem longest_alias_chosen (reference : String) (keys : List String) :
    (matchAlias? reference keys = none ↔
        ∀ key ∈ keys, ∀ capture weight, ¬ KeyMatches reference key capture weight) ∧
      ∀ m, matchAlias? reference keys = some m ↔ Chosen reference keys m :=
  ⟨matchAlias?_eq_none_iff, fun _ => matchAlias?_eq_some_iff⟩

end Choice

-- A key that is the reference and one that begins with it weigh the same, so the order of the table decides.
example : matchAlias? "@/ui" ["@/*", "@/ui*", "@/ui"] = some ⟨"@/ui*", "", 4⟩ := by decide

-- The parts of a key may not overlap, and only its first star stands for something.
example : matchAlias? "aba" ["ab*ba", "a*b*a"] = none := by decide

end ExportAudit
