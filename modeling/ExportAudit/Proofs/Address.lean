import Mathlib
import ExportAudit.Url
import ExportAudit.Proofs.Cutting

/-!
# The grammar of addresses in brackets

- `Pieces`: groups of hexadecimal digits, the last two of which may be written as an address of the fourth version;
- `Sixth`: eight groups, or fewer with one omission, written with colons between (`isSixthPlain_iff`);
- `Address`: what may stand in brackets, an address of the sixth version with or without a zone or an address of a
  future version (`checkAddress_eq_ok_iff`).
-/

namespace ExportAudit.Url

/-! ## Characters -/

theorem isHexDigit_of_isDigit {c : Char} (h : c.isDigit = true) : isHexDigit c = true := by
  unfold isHexDigit
  rw [h]
  rfl

theorem isGroup_iff {g : List Char} :
    isGroup g = true ↔ g ≠ [] ∧ g.length ≤ 4 ∧ ∀ c ∈ g, isHexDigit c = true := by
  unfold isGroup
  simp [and_assoc]

theorem isDigit_of_isOctet {ds : List Char} (h : isOctet ds = true) : ∀ c ∈ ds, c.isDigit = true := by
  intro c hc
  match ds, h with
  | [d], h =>
    rw [List.mem_singleton.mp hc]
    exact h
  | d :: e :: ds, h =>
    simp only [isOctet, Bool.and_eq_true, List.all_eq_true] at h
    exact h.1.1.1 c hc

/-- Only digits and dots stand in an address of the fourth version. -/
theorem isDigit_or_dot_of_isFourth {cs : List Char} (h : isFourth cs = true) :
    ∀ c ∈ cs, c.isDigit = true ∨ c = '.' := by
  intro c hc
  simp only [isFourth, Bool.and_eq_true, List.all_eq_true] at h
  have hjoin : ['.'].intercalate (cs.splitOn '.') = cs := List.intercalate_splitOn '.'
  rw [← hjoin] at hc
  rcases mem_intercalate hc with hc | ⟨part, hpart, hc⟩
  · exact Or.inr hc
  · exact Or.inl (isDigit_of_isOctet (h.2 part hpart) c hc)

/-! ## The grammar -/

/-- Pieces with colons between them. -/
def joined (ps : List (List Char)) : List Char :=
  [':'].intercalate ps

/-- Pieces of an address, and for how many groups they stand: an address of the fourth version at the end stands for
two. -/
inductive Pieces : List (List Char) → Nat → Prop
  | groups {gs : List (List Char)} (hg : ∀ g ∈ gs, isGroup g = true) : Pieces gs gs.length
  | fourth {gs : List (List Char)} {q : List Char} (hg : ∀ g ∈ gs, isGroup g = true) (hq : isFourth q = true) :
      Pieces (gs ++ [q]) (gs.length + 2)

/-- Addresses of the sixth version without a zone: eight groups, or fewer with one omission. -/
inductive Sixth : List Char → Prop
  | full {ps : List (List Char)} (hp : Pieces ps 8) : Sixth (joined ps)
  | shortened {gs ps : List (List Char)} {n : Nat} (hg : ∀ g ∈ gs, isGroup g = true) (hp : Pieces ps n)
      (hn : gs.length + n < 8) : Sixth (joined gs ++ ':' :: ':' :: joined ps)

/-- What may stand in brackets. -/
inductive Address : List Char → Prop
  | sixth {cs : List Char} (h : Sixth cs) : Address cs
  | zoned {cs zone : List Char} (h : Sixth cs) (hz : zone ≠ []) (hp : '%' ∉ zone) : Address (cs ++ '%' :: zone)
  | future {version body : List Char} (hv : version ≠ []) (hh : ∀ c ∈ version, isHexDigit c = true)
      (hb : body ≠ []) : Address ('v' :: version ++ '.' :: body)

theorem length_of_pieces {ps : List (List Char)} {n : Nat} (h : Pieces ps n) :
    n = ps.length ∨ n = ps.length + 1 ∧ ps ≠ [] := by
  cases h with
  | groups => exact Or.inl rfl
  | fourth => exact Or.inr ⟨by simp, by simp⟩

/-- The characters of pieces. -/
theorem hexDigit_or_dot_of_pieces {ps : List (List Char)} {n : Nat} (h : Pieces ps n) :
    ∀ p ∈ ps, ∀ c ∈ p, isHexDigit c = true ∨ c = '.' := by
  intro p hp c hc
  cases h with
  | groups hg => exact Or.inl ((isGroup_iff.mp (hg p hp)).2.2 c hc)
  | fourth hg hq =>
    rcases List.mem_append.mp hp with hp | hp
    · exact Or.inl ((isGroup_iff.mp (hg p hp)).2.2 c hc)
    · rw [List.mem_singleton.mp hp] at hc
      exact (isDigit_or_dot_of_isFourth hq c hc).imp isHexDigit_of_isDigit id

/-- The characters of an address of the sixth version. -/
theorem chars_of_sixth {cs : List Char} (h : Sixth cs) :
    ∀ c ∈ cs, isHexDigit c = true ∨ c = '.' ∨ c = ':' := by
  have hjoined : ∀ {ps n}, Pieces ps n → ∀ c ∈ joined ps, isHexDigit c = true ∨ c = '.' ∨ c = ':' := by
    intro ps n hp c hc
    rcases mem_intercalate hc with hc | ⟨p, hpp, hc⟩
    · exact Or.inr (Or.inr hc)
    · exact (hexDigit_or_dot_of_pieces hp p hpp c hc).imp id Or.inl
  intro c hc
  cases h with
  | full hp => exact hjoined hp c hc
  | shortened hg hp hn =>
    simp only [List.mem_append, List.mem_cons] at hc
    rcases hc with hc | hc | hc | hc
    · exact hjoined (Pieces.groups hg) c hc
    · exact Or.inr (Or.inr hc)
    · exact Or.inr (Or.inr hc)
    · exact hjoined hp c hc

/-! ## Reading groups -/

theorem joined_append {b a : List (List Char)} (hb : b ≠ []) (ha : a ≠ []) :
    joined (b ++ a) = joined b ++ ':' :: joined a := by
  induction b with
  | nil => exact absurd rfl hb
  | cons p b ih =>
    cases b with
    | nil => simp [joined, List.intercalate_cons_of_ne_nil ha]
    | cons q b =>
      have ih' := ih (List.cons_ne_nil q b)
      simp only [joined, List.cons_append] at ih' ⊢
      rw [List.intercalate_cons_cons, List.intercalate_cons_cons, ih', List.append_assoc _ _ (':' :: _)]

/-- An omission is an empty piece inside. -/
theorem joined_gap {b a : List (List Char)} (hb : b ≠ []) (ha : a ≠ []) :
    joined (b ++ [] :: a) = joined b ++ ':' :: ':' :: joined a := by
  rw [joined_append hb (List.cons_ne_nil _ _), joined, joined, joined, List.intercalate_cons_of_ne_nil ha]
  rfl

/-- One side of an omission, where nothing is written as one empty piece. -/
def side (ps : List (List Char)) : List (List Char) :=
  if ps = [] then [[]] else ps

theorem side_ne_nil (ps : List (List Char)) : side ps ≠ [] := by
  unfold side
  split <;> simp_all

theorem side_of_ne_nil {ps : List (List Char)} (h : ps ≠ []) : side ps = ps :=
  if_neg h

theorem joined_side (ps : List (List Char)) : joined (side ps) = joined ps := by
  unfold side
  split
  · simp_all [joined]
  · rfl

theorem joined_omission (gs ps : List (List Char)) :
    joined (side gs ++ [] :: side ps) = joined gs ++ ':' :: ':' :: joined ps := by
  rw [joined_gap (side_ne_nil gs) (side_ne_nil ps), joined_side, joined_side]

theorem groups?_joined {ps : List (List Char)} {last : List Char} (hc : ∀ p ∈ ps ++ [last], ':' ∉ p)
    (hn : 2 ≤ ps.length) (hd : '.' ∉ last) : groups? (joined (ps ++ [last])) = some (ps ++ [last]) := by
  unfold groups? joined
  rw [List.splitOn_intercalate ':' hc (by simp)]
  simp [hd, show ¬ ps.length + 1 < 3 by omega]

theorem groups?_joined_fourth {ps : List (List Char)} {q : List Char} (hc : ∀ p ∈ ps ++ [q], ':' ∉ p)
    (hn : 2 ≤ ps.length) (hq : isFourth q = true) :
    groups? (joined (ps ++ [q])) = some (ps ++ [['0'], ['0']]) := by
  have hd : '.' ∈ q := by
    by_contra hd
    simp [isFourth, List.splitOn_eq_singleton hd] at hq
  unfold groups? joined
  rw [List.splitOn_intercalate ':' hc (by simp)]
  simp [hd, hq, show ¬ ps.length + 1 < 3 by omega]

/-- The groups of a text are its pieces, with two zeroes for an address of the fourth version at the end. -/
theorem exists_of_groups? {cs : List Char} {gs : List (List Char)} (h : groups? cs = some gs) :
    cs = joined gs ∨ ∃ ps q, cs = joined (ps ++ [q]) ∧ isFourth q = true ∧ gs = ps ++ [['0'], ['0']] := by
  have hjoin : joined (cs.splitOn ':') = cs := List.intercalate_splitOn ':'
  unfold groups? at h
  simp only at h
  split at h
  · rename_i last hlast
    obtain ⟨ps, hps⟩ := List.getLast?_eq_some_iff.mp hlast
    split_ifs at h with hshort hdot hfourth
    · rw [hps, List.dropLast_concat] at h
      exact Or.inr ⟨ps, last, by rw [← hps, hjoin], hfourth, (Option.some.inj h).symm⟩
    · rw [← Option.some.inj h]
      exact Or.inl hjoin.symm
  · exact absurd h (by simp)

/-! ## Omissions -/

theorem mem_innerGaps {ps : List (List Char)} {i : Nat} :
    i ∈ innerGaps ps ↔ 0 < i ∧ i + 1 < ps.length ∧ ps[i]? = some [] := by
  unfold innerGaps
  rw [List.mem_filter, List.mem_range, Bool.and_eq_true, Bool.and_eq_true, decide_eq_true_iff, decide_eq_true_iff]
  constructor
  · rintro ⟨hi, ⟨h0, hl⟩, hg⟩
    rw [List.getElem?_eq_getElem hi] at hg ⊢
    exact ⟨h0, hl, by simpa using hg⟩
  · rintro ⟨h0, hl, hg⟩
    exact ⟨by omega, ⟨h0, hl⟩, by rw [hg]; rfl⟩

theorem innerGaps_eq_singleton {ps : List (List Char)} {i : Nat} (h : ∀ j, j ∈ innerGaps ps ↔ j = i) :
    innerGaps ps = [i] := by
  have hnodup : (innerGaps ps).Nodup := List.nodup_range.filter _
  refine List.perm_singleton.mp ((List.perm_ext_iff_of_nodup hnodup (List.nodup_singleton i)).mpr ?_)
  simpa using h

theorem innerGaps_eq_nil {ps : List (List Char)} (h : ∀ p ∈ ps, p ≠ []) : innerGaps ps = [] := by
  refine List.eq_nil_iff_forall_not_mem.mpr fun i hi => ?_
  exact h [] (List.mem_of_getElem? (mem_innerGaps.mp hi).2.2) rfl

/-- An empty piece of a side stands alone there. -/
theorem side_of_getElem? {ps : List (List Char)} {i : Nat} (h : ∀ p ∈ ps, p ≠ []) (hi : (side ps)[i]? = some []) :
    i = 0 ∧ (side ps).length = 1 := by
  unfold side at hi ⊢
  split at hi
  · obtain ⟨hlt, -⟩ := List.getElem?_eq_some_iff.mp hi
    simp at hlt
    exact ⟨hlt, by simp_all⟩
  · exact absurd rfl (h [] (List.mem_of_getElem? hi))

/-- Between sides without empty pieces there is one omission. -/
theorem innerGaps_omission {gs ps : List (List Char)} (hg : ∀ g ∈ gs, g ≠ []) (hp : ∀ p ∈ ps, p ≠ []) :
    innerGaps (side gs ++ [] :: side ps) = [(side gs).length] := by
  apply innerGaps_eq_singleton
  intro j
  rw [mem_innerGaps, List.length_append, List.length_cons]
  have hgl := List.length_pos_iff.mpr (side_ne_nil gs)
  have hpl := List.length_pos_iff.mpr (side_ne_nil ps)
  constructor
  · rintro ⟨h0, hl, hj⟩
    rcases Nat.lt_trichotomy j (side gs).length with hlt | heq | hgt
    · rw [List.getElem?_append_left hlt] at hj
      have := (side_of_getElem? hg hj).1
      omega
    · exact heq
    · rw [List.getElem?_append_right (by omega), List.getElem?_cons, if_neg (by omega)] at hj
      have := side_of_getElem? hp hj
      omega
  · rintro rfl
    refine ⟨hgl, by omega, ?_⟩
    rw [List.getElem?_append_right (Nat.le_refl _), Nat.sub_self]
    rfl

theorem exists_side {b : List (List Char)} (hb : b ≠ []) : ∃ gs, gs ≠ [[]] ∧ b = side gs := by
  by_cases h : b = [[]]
  · exact ⟨[], by simp, h⟩
  · exact ⟨b, h, (if_neg hb).symm⟩

theorem isShortened_side {gs ps : List (List Char)} (hg : gs ≠ [[]]) (hp : ps ≠ [[]]) :
    isShortened (side gs) (side ps) = true ↔
      (∀ g ∈ gs, isGroup g = true) ∧ (∀ p ∈ ps, isGroup p = true) ∧ gs.length + ps.length < 8 := by
  have htrim : ∀ {qs : List (List Char)}, qs ≠ [[]] → (if side qs == [[]] then [] else side qs) = qs := by
    intro qs hq
    unfold side
    by_cases h : qs = [] <;> simp [h, hq]
  unfold isShortened
  simp only [htrim hg, htrim hp, Bool.and_eq_true, List.all_eq_true, decide_eq_true_iff, and_assoc]

/-! ## Reading addresses -/

theorem eq_take_append_drop {ps : List (List Char)} {i : Nat} (h : ps[i]? = some []) :
    ps = ps.take i ++ [] :: ps.drop (i + 1) := by
  obtain ⟨hi, hg⟩ := List.getElem?_eq_some_iff.mp h
  calc
    ps = ps.take i ++ ps.drop i := (List.take_append_drop i ps).symm
    _ = ps.take i ++ [] :: ps.drop (i + 1) := by rw [List.drop_eq_getElem_cons hi, hg]

theorem sixth_of_full {cs : List Char} {gs : List (List Char)} (h : groups? cs = some gs) (hn : gs.length = 8)
    (hg : ∀ g ∈ gs, isGroup g = true) : Sixth cs := by
  rcases exists_of_groups? h with rfl | ⟨ps, q, rfl, hq, rfl⟩
  · exact Sixth.full (hn ▸ Pieces.groups hg)
  · have hlen : ps.length + 2 = 8 := by simpa using hn
    exact Sixth.full (hlen ▸ Pieces.fourth (fun g hgp => hg g (List.mem_append_left _ hgp)) hq)

theorem sixth_of_gap {cs : List Char} {gs : List (List Char)} {i : Nat} (h : groups? cs = some gs)
    (hi : i ∈ innerGaps gs) (hs : isShortened (gs.take i) (gs.drop (i + 1)) = true) : Sixth cs := by
  obtain ⟨h0, hl, hgap⟩ := mem_innerGaps.mp hi
  obtain ⟨b, hb, hbs⟩ := exists_side (b := gs.take i) (by simp; grind)
  obtain ⟨a, ha, has⟩ := exists_side (b := gs.drop (i + 1)) (by simp; omega)
  rw [hbs, has, isShortened_side hb ha] at hs
  obtain ⟨hbg, hag, hn⟩ := hs
  rcases exists_of_groups? h with rfl | ⟨ps, q, rfl, hq, rfl⟩
  · rw [eq_take_append_drop hgap, hbs, has, joined_omission]
    exact Sixth.shortened hbg (Pieces.groups hag) hn
  · -- the two zeroes are no omission, so the omission stands before them
    have hlt : i < ps.length := by
      by_contra hge
      rw [List.getElem?_append_right (by omega)] at hgap
      have : i - ps.length = 0 ∨ i - ps.length = 1 := by simp at hl; omega
      rcases this with h' | h' <;> simp [h'] at hgap
    rw [List.getElem?_append_left hlt] at hgap
    rw [List.take_append_of_le_length (by omega)] at hbs
    rw [List.drop_append_of_le_length (by omega)] at has
    have haeq : a = ps.drop (i + 1) ++ [['0'], ['0']] := by
      unfold side at has
      split at has
      · have := congrArg List.length has
        simp at this
      · exact has.symm
    have hdrop : ∀ g ∈ ps.drop (i + 1), isGroup g = true := by
      intro g hg
      exact hag g (haeq ▸ List.mem_append_left _ hg)
    have hlen : a.length = (ps.drop (i + 1)).length + 2 := by simp [haeq]
    rw [eq_take_append_drop hgap, List.append_assoc, List.cons_append, hbs,
      joined_gap (side_ne_nil b) (by simp), joined_side]
    exact Sixth.shortened hbg (Pieces.fourth hdrop hq) (hlen ▸ hn)

theorem colon_not_mem_of_pieces {ps : List (List Char)} {n : Nat} (h : Pieces ps n) : ∀ p ∈ ps, ':' ∉ p := by
  intro p hp hc
  rcases hexDigit_or_dot_of_pieces h p hp ':' hc with h | h <;> exact absurd h (by decide)

/-- Pieces behind others are read as the groups that they stand for. -/
theorem groups?_of_pieces (pre : List (List Char)) {ps : List (List Char)} {n : Nat} (hp : Pieces ps n) (hne : ps ≠ [])
    (hpre : ∀ p ∈ pre, ':' ∉ p) (hl : 3 ≤ (pre ++ ps).length) :
    ∃ gs, gs.length = n ∧ (∀ g ∈ gs, isGroup g = true) ∧ groups? (joined (pre ++ ps)) = some (pre ++ gs) := by
  have hcolon : ∀ p ∈ pre ++ ps, ':' ∉ p := by
    intro p hpp
    exact (List.mem_append.mp hpp).elim (hpre p) (colon_not_mem_of_pieces hp p)
  cases hp with
  | groups hg =>
    obtain ⟨init, last, rfl⟩ := List.eq_nil_or_concat ps |>.resolve_left hne
    rw [List.concat_eq_append, ← List.append_assoc] at hcolon hl ⊢
    have hlast : '.' ∉ last := by
      intro hd
      have := (isGroup_iff.mp (hg last (by simp))).2.2 '.' hd
      exact absurd this (by decide)
    refine ⟨init ++ [last], by simp, by simpa using hg, ?_⟩
    rw [groups?_joined hcolon (by simp at hl ⊢; omega) hlast, List.append_assoc]
  | @fourth gs q hg hq =>
    rw [← List.append_assoc] at hcolon hl ⊢
    refine ⟨gs ++ [['0'], ['0']], by simp, ?_, ?_⟩
    · intro g hgm
      rcases List.mem_append.mp hgm with hgm | hgm
      · exact hg g hgm
      · have : g = ['0'] := by simpa using hgm
        rw [this]
        decide
    · rw [groups?_joined_fourth hcolon (by simp at hl ⊢; omega) hq, List.append_assoc]

theorem isSixthPlain_of_full {ps : List (List Char)} (hp : Pieces ps 8) : isSixthPlain (joined ps) = true := by
  have hl : 3 ≤ ps.length := by
    rcases length_of_pieces hp with h | h <;> omega
  obtain ⟨gs, hn, hg, hgroups⟩ := groups?_of_pieces [] hp (List.ne_nil_of_length_pos (by omega)) (by simp) hl
  have hgaps := innerGaps_eq_nil fun g hgm => (isGroup_iff.mp (hg g hgm)).1
  rw [List.nil_append, List.nil_append] at hgroups
  unfold isSixthPlain
  rw [hgroups]
  simpa [hgaps, hn] using hg

/-- What stands behind an omission is read as the groups that it stands for. -/
theorem groups?_omission {gs ps : List (List Char)} {n : Nat} (hg : ∀ g ∈ gs, isGroup g = true) (hp : Pieces ps n) :
    ∃ rest, rest.length = n ∧ (∀ g ∈ rest, isGroup g = true) ∧
      groups? (joined (side gs ++ [] :: side ps)) = some (side gs ++ [] :: side rest) := by
  have hside : ∀ p ∈ side gs ++ [[]], ':' ∉ p := by
    intro p hpm
    rcases List.mem_append.mp hpm with hpm | hpm
    · unfold side at hpm
      split at hpm
      · simp [List.mem_singleton.mp hpm]
      · exact colon_not_mem_of_pieces (Pieces.groups hg) p hpm
    · simp [List.mem_singleton.mp hpm]
  have hgl := List.length_pos_iff.mpr (side_ne_nil gs)
  rw [List.append_cons _ _ (side ps)]
  by_cases hps : ps = []
  · subst hps
    have hn : n = 0 := by simpa using length_of_pieces hp
    refine ⟨[], hn.symm, by simp, ?_⟩
    have hcolon : ∀ p ∈ side gs ++ [[]] ++ [[]], ':' ∉ p := by
      intro p hpm
      rcases List.mem_append.mp hpm with hpm | hpm
      · exact hside p hpm
      · simp [List.mem_singleton.mp hpm]
    rw [List.append_cons _ _ (side [])]
    exact groups?_joined hcolon (by simp; omega) (by simp)
  · have hpl := List.length_pos_iff.mpr hps
    obtain ⟨rest, hn, hrest, h⟩ := groups?_of_pieces _ hp hps hside (by simp; omega)
    have hrest' : rest ≠ [] := by
      rintro rfl
      rcases length_of_pieces hp with h | h <;> simp at hn <;> omega
    refine ⟨rest, hn, hrest, ?_⟩
    rw [side_of_ne_nil hps, side_of_ne_nil hrest', h, List.append_assoc, List.singleton_append]

theorem length_side (ps : List (List Char)) : (side ps).length = max 1 ps.length := by
  unfold side
  split
  · simp_all
  · rename_i h
    have := List.length_pos_iff.mpr h
    omega

theorem ne_of_groups {gs : List (List Char)} (h : ∀ g ∈ gs, isGroup g = true) : gs ≠ [[]] := by
  rintro rfl
  exact absurd (h [] List.mem_cons_self) (by decide)

theorem isSixthPlain_of_shortened {gs ps : List (List Char)} {n : Nat} (hg : ∀ g ∈ gs, isGroup g = true)
    (hp : Pieces ps n) (hn : gs.length + n < 8) : isSixthPlain (joined gs ++ ':' :: ':' :: joined ps) = true := by
  obtain ⟨rest, hlen, hrest, hgroups⟩ := groups?_omission hg hp
  have hgaps : innerGaps (side gs ++ [] :: side rest) = [(side gs).length] :=
    innerGaps_omission (fun g hgm => (isGroup_iff.mp (hg g hgm)).1) (fun g hgm => (isGroup_iff.mp (hrest g hgm)).1)
  have hshort : isShortened (side gs) (side rest) = true :=
    (isShortened_side (ne_of_groups hg) (ne_of_groups hrest)).mpr ⟨hg, hrest, by omega⟩
  have hnine : ¬ (side gs ++ [] :: side rest).length > 9 := by
    simp only [List.length_append, List.length_cons, length_side]
    omega
  have htake : (side gs ++ [] :: side rest).take (side gs).length = side gs := List.take_left
  have hdrop : (side gs ++ [] :: side rest).drop ((side gs).length + 1) = side rest := by
    rw [← List.drop_drop, List.drop_left]
    rfl
  rw [← joined_omission]
  unfold isSixthPlain
  simp only [hgroups, hgaps, if_neg hnine, htake, hdrop, hshort]

theorem isSixthPlain_iff {cs : List Char} : isSixthPlain cs = true ↔ Sixth cs := by
  constructor
  · intro h
    unfold isSixthPlain at h
    split at h
    · exact absurd h (by simp)
    · rename_i gs hgroups
      split_ifs at h with hnine
      split at h
      · simp only [Bool.and_eq_true, beq_iff_eq, List.all_eq_true] at h
        exact sixth_of_full hgroups h.1 h.2
      · rename_i i hgaps
        exact sixth_of_gap hgroups (by rw [hgaps]; exact List.mem_singleton_self i) h
      · exact absurd h (by simp)
  · rintro (hp | ⟨hg, hp, hn⟩)
    · exact isSixthPlain_of_full hp
    · exact isSixthPlain_of_shortened hg hp hn

/-- There is a colon in every address of the sixth version. -/
theorem colon_mem_of_sixth {cs : List Char} (h : Sixth cs) : ':' ∈ cs := by
  by_contra hc
  have hplain := isSixthPlain_iff.mpr h
  unfold isSixthPlain groups? at hplain
  simp [List.splitOn_eq_singleton hc] at hplain

theorem percent_not_mem_of_sixth {cs : List Char} (h : Sixth cs) : '%' ∉ cs := by
  intro hc
  rcases chars_of_sixth h '%' hc with h | h | h <;> exact absurd h (by decide)

theorem isSixth_iff {cs : List Char} : isSixth cs = true ↔
    Sixth cs ∨ ∃ a zone, cs = a ++ '%' :: zone ∧ Sixth a ∧ zone ≠ [] ∧ '%' ∉ zone := by
  have hpass : ∀ {a}, Sixth a → ∀ c ∈ a, (c != '%') = true :=
    fun h => bne_of_not_mem (percent_not_mem_of_sixth h)
  unfold isSixth
  constructor
  · intro h
    split at h
    · rename_i a heq
      obtain ⟨rfl, -, -⟩ := of_span_eq heq
      rw [List.append_nil]
      exact Or.inl (isSixthPlain_iff.mp h)
    · rename_i a c zone heq
      obtain ⟨rfl, -, hc⟩ := of_span_eq heq
      have hc' : c = '%' := by simpa using hc c rfl
      simp only [Bool.and_eq_true, Bool.not_eq_true', List.isEmpty_eq_false_iff, List.contains_eq_mem,
        decide_eq_false_iff_not] at h
      exact Or.inr ⟨a, zone, by rw [hc'], isSixthPlain_iff.mp h.2, h.1.1, h.1.2⟩
  · rintro (h | ⟨a, zone, rfl, h, hz, hp⟩)
    · rw [span_of_all (hpass h)]
      exact isSixthPlain_iff.mpr h
    · rw [span_append_cons (hpass h) rfl]
      simp [hz, hp, isSixthPlain_iff.mpr h]

theorem isFuture_iff {cs : List Char} : isFuture cs = true ↔
    ∃ version body, cs = version ++ '.' :: body ∧ version ≠ [] ∧ (∀ c ∈ version, isHexDigit c = true) ∧ body ≠ [] := by
  unfold isFuture
  constructor
  · intro h
    split at h
    · rename_i c version body heq
      obtain ⟨rfl, hv, -⟩ := of_span_eq heq
      exact ⟨c :: version, body, rfl, List.cons_ne_nil _ _, hv, by simpa using h⟩
    · exact absurd h (by simp)
  · rintro ⟨version, body, rfl, hv, hh, hb⟩
    obtain ⟨c, version, rfl⟩ := List.exists_cons_of_ne_nil hv
    rw [span_append_cons hh (by decide)]
    simp [hb]

/-- The check of what stands in brackets passes exactly the addresses. -/
theorem checkAddress_eq_ok_iff {cs : List Char} : checkAddress (String.ofList cs) = .ok () ↔ Address cs := by
  unfold checkAddress
  rw [String.toList_ofList]
  split
  · rename_i rest
    have hno : ∀ {a b}, Sixth a → 'v' :: rest ≠ a ++ b := by
      intro a b h heq
      obtain ⟨c, a, rfl⟩ := List.exists_cons_of_ne_nil (List.ne_nil_of_mem (colon_mem_of_sixth h))
      obtain ⟨rfl, -⟩ := List.cons.inj heq
      rcases chars_of_sixth h 'v' List.mem_cons_self with h | h | h <;> exact absurd h (by decide)
    constructor
    · intro h
      split_ifs at h with hf
      obtain ⟨version, body, rfl, hv, hh, hb⟩ := isFuture_iff.mp hf
      exact Address.future hv hh hb
    · intro h
      rw [if_pos]
      generalize hcs : 'v' :: rest = cs at h
      cases h with
      | sixth h => exact absurd (by rw [List.append_nil]; exact hcs) (hno (b := []) h)
      | zoned h => exact absurd hcs (hno h)
      | future hv hh hb =>
        obtain ⟨-, rfl⟩ := List.cons.inj hcs
        exact isFuture_iff.mpr ⟨_, _, rfl, hv, hh, hb⟩
  · rename_i hv
    constructor
    · intro h
      split_ifs at h with hfourth hsixth
      rcases isSixth_iff.mp hsixth with h | ⟨a, zone, rfl, h, hz, hp⟩
      · exact Address.sixth h
      · exact Address.zoned h hz hp
    · intro h
      have hfourth : ':' ∈ cs → ¬ isFourth cs = true := by
        intro hc hf
        rcases isDigit_or_dot_of_isFourth hf ':' hc with h | h <;> exact absurd h (by decide)
      cases h with
      | sixth h =>
        rw [if_neg (hfourth (colon_mem_of_sixth h)), if_pos (isSixth_iff.mpr (Or.inl h))]
      | zoned h hz hp =>
        rw [if_neg (hfourth (List.mem_append_left _ (colon_mem_of_sixth h))),
          if_pos (isSixth_iff.mpr (Or.inr ⟨_, _, rfl, h, hz, hp⟩))]
      | future => exact absurd rfl (hv _)

end ExportAudit.Url
