import Mathlib
import ExportAudit.Regex

/-!
# What a regular expression takes

`Regex.Leaves` says what an expression may leave of a text, without an order and without a bound on repetition: the star
takes any number of rounds, whatever each takes. The matcher tries only rounds that take something. It loses nothing by
that, since all that it leaves is an end of the text (`suffix_of_leaves`), so `Regex.rests` lists what an expression may
leave (`mem_rests_iff`).

- A text begins with what an expression takes exactly when `matchesFront` says so (`matchesFront_iff`);
- where an expression takes nothing within a text, replacing leaves it (`replaceFrom_append`), and where it can be taken in
  one way, its replacement is put there (`replaceFrom_of_leaves`);
- a reader that has read one text goes on with the next (`Reader.advance_append`).
-/

namespace ExportAudit.Regex

/-! ## The meaning of expressions -/

/-- An expression may take the front of the text `cs` and leave `r`, both at the end of `whole`. -/
def Leaves (whole : List Char) : Regex → List Char → List Char → Prop
  | .empty, cs, r => r = cs
  | .char c, cs, r => cs = c :: r
  | .anyChar, cs, r => ∃ c, c ≠ '\n' ∧ cs = c :: r
  | .noneOf members, cs, r => ∃ c, c ∉ members ∧ cs = c :: r
  | .start, cs, r => cs = whole ∧ r = cs
  | .finish, cs, r => (cs = [] ∨ cs = ['\n']) ∧ r = cs
  | .seq first second, cs, r => ∃ mid, Leaves whole first cs mid ∧ Leaves whole second mid r
  | .group inner, cs, r => Leaves whole inner cs r
  | .star inner, cs, r => Relation.ReflTransGen (Leaves whole inner) cs r
  | .plus inner, cs, r => ∃ mid, Leaves whole inner cs mid ∧ Relation.ReflTransGen (Leaves whole inner) mid r
  | .optional inner, cs, r => Leaves whole inner cs r ∨ r = cs

section Rests

variable {whole cs r : List Char} {e : Regex}

theorem mem_charRests {p : Char → Bool} : r ∈ charRests p cs ↔ ∃ c, p c = true ∧ cs = c :: r := by
  cases cs with
  | nil => simp [charRests]
  | cons d cs =>
    rw [charRests]
    split
    · rename_i hd
      constructor
      · intro hr
        exact ⟨d, hd, by rw [List.mem_singleton.mp hr]⟩
      · rintro ⟨c, -, heq⟩
        exact List.mem_singleton.mpr (List.cons.inj heq).2.symm
    · rename_i hd
      constructor
      · intro hr
        cases hr
      · rintro ⟨c, hc, heq⟩
        exact absurd ((List.cons.inj heq).1 ▸ hc) hd

theorem mem_roundRests {round : List Char → List (List Char)} :
    r ∈ roundRests round cs ↔ r = cs ∨ ∃ mid ∈ round cs, mid.length < cs.length ∧ r ∈ roundRests round mid := by
  rw [roundRests, List.mem_append, List.mem_singleton, List.mem_flatMap, or_comm]
  refine or_congr_right ⟨?_, ?_⟩
  · rintro ⟨⟨mid, hmid⟩, -, hr⟩
    obtain ⟨hround, hshorter⟩ := List.mem_filter.mp hmid
    exact ⟨mid, hround, by simpa using hshorter, hr⟩
  · rintro ⟨mid, hround, hshorter, hr⟩
    exact ⟨⟨mid, List.mem_filter.mpr ⟨hround, by simpa using hshorter⟩⟩, List.mem_attach _ _, hr⟩

/-- Rounds that take nothing may be left out. -/
theorem mem_roundRests_iff {round : List Char → List (List Char)} (hround : ∀ cs, ∀ mid ∈ round cs, mid <:+ cs) :
    r ∈ roundRests round cs ↔ Relation.ReflTransGen (fun a b => b ∈ round a) cs r := by
  constructor
  · intro h
    induction hn : cs.length using Nat.strong_induction_on generalizing cs with
    | _ n ih =>
      rcases mem_roundRests.mp h with rfl | ⟨mid, hmid, hshorter, hr⟩
      · exact .refl
      · exact .head hmid (ih _ (hn ▸ hshorter) hr rfl)
  · intro h
    induction h using Relation.ReflTransGen.head_induction_on with
    | refl => exact mem_roundRests.mpr (Or.inl rfl)
    | @head a b hab _ ih =>
      rcases Nat.lt_or_ge b.length a.length with hshorter | hsame
      · exact mem_roundRests.mpr (Or.inr ⟨b, hab, hshorter, ih⟩)
      · rwa [(hround a b hab).eq_of_length_le hsame] at ih

/-- Rounds that each leave an end leave an end. -/
theorem suffix_of_rounds {round : List Char → List Char → Prop} (hround : ∀ a b, round a b → b <:+ a)
    (h : Relation.ReflTransGen round cs r) : r <:+ cs := by
  induction h with
  | refl => exact List.suffix_refl cs
  | tail _ hstep ih => exact (hround _ _ hstep).trans ih

theorem suffix_of_leaves (h : Leaves whole e cs r) : r <:+ cs := by
  induction e generalizing cs r with
  | empty => exact h ▸ List.suffix_refl _
  | char c => exact h ▸ List.suffix_cons c r
  | anyChar | noneOf members =>
    obtain ⟨c, -, rfl⟩ := h
    exact List.suffix_cons c r
  | start | finish => exact h.2 ▸ List.suffix_refl _
  | seq first second ihfirst ihsecond =>
    obtain ⟨mid, hfirst, hsecond⟩ := h
    exact (ihsecond hsecond).trans (ihfirst hfirst)
  | group inner ih => exact ih h
  | star inner ih => exact suffix_of_rounds (fun a b hab => ih hab) h
  | plus inner ih =>
    obtain ⟨mid, hmid, hrounds⟩ := h
    exact (suffix_of_rounds (fun a b hab => ih hab) hrounds).trans (ih hmid)
  | optional inner ih =>
    rcases h with h | rfl
    · exact ih h
    · exact List.suffix_refl _

/-- **The matcher lists what an expression may leave.** -/
theorem mem_rests_iff : r ∈ rests whole e cs ↔ Leaves whole e cs r := by
  induction e generalizing cs r with
  | empty => simp [rests, Leaves]
  | char c => simp [rests, Leaves, mem_charRests]
  | anyChar => simp [rests, Leaves, mem_charRests]
  | noneOf members => simp [rests, Leaves, mem_charRests]
  | start =>
    rw [rests, Leaves]
    split <;> simp_all
  | finish =>
    rw [rests, Leaves]
    split <;> simp_all
  | seq first second ihfirst ihsecond => simp [rests, Leaves, List.mem_flatMap, ihfirst, ihsecond]
  | group inner ih => exact ih
  | star inner ih =>
    have hround : ∀ cs, ∀ mid ∈ rests whole inner cs, mid <:+ cs := fun cs mid hmid => suffix_of_leaves (ih.mp hmid)
    rw [rests, Leaves, mem_roundRests_iff hround]
    simp only [ih]
  | plus inner ih =>
    have hround : ∀ cs, ∀ mid ∈ rests whole inner cs, mid <:+ cs := fun cs mid hmid => suffix_of_leaves (ih.mp hmid)
    rw [rests, Leaves, List.mem_flatMap]
    simp only [mem_roundRests_iff hround, ih]
  | optional inner ih => simp [rests, Leaves, ih]

theorem matchesFront_iff {text : List Char} : e.matchesFront text = true ↔ ∃ r, Leaves text e text r := by
  simp only [matchesFront, Bool.not_eq_true', List.isEmpty_eq_false_iff_exists_mem, mem_rests_iff]

end Rests

/-! ## Expressions one after the other -/

section Sequences

variable {whole cs r : List Char} {es fs : List Regex}

@[simp] theorem leaves_char {c : Char} : Leaves whole (.char c) cs r ↔ cs = c :: r :=
  Iff.rfl

@[simp] theorem leaves_ofList_singleton {e : Regex} : Leaves whole (ofList [e]) cs r ↔ Leaves whole e cs r := by
  constructor
  · rintro ⟨mid, he, rfl⟩
    exact he
  · intro he
    exact ⟨r, he, rfl⟩

theorem leaves_ofList_cons {e : Regex} :
    Leaves whole (ofList (e :: es)) cs r ↔ ∃ mid, Leaves whole e cs mid ∧ Leaves whole (ofList es) mid r :=
  Iff.rfl

theorem leaves_ofList_append :
    Leaves whole (ofList (es ++ fs)) cs r ↔ ∃ mid, Leaves whole (ofList es) cs mid ∧ Leaves whole (ofList fs) mid r := by
  induction es generalizing cs with
  | nil => simp [ofList, Leaves]
  | cons e es ih =>
    simp only [List.cons_append, ofList, Leaves, ih]
    constructor
    · rintro ⟨mid, he, mid', hes, hfs⟩
      exact ⟨mid', ⟨mid, he, hes⟩, hfs⟩
    · rintro ⟨mid', ⟨mid, he, hes⟩, hfs⟩
      exact ⟨mid, he, mid', hes, hfs⟩

theorem leaves_chars (a : List Char) : Leaves whole (ofList (a.map .char)) cs r ↔ cs = a ++ r := by
  induction a generalizing cs with
  | nil => exact eq_comm
  | cons c a ih =>
    simp only [List.map_cons, ofList, Leaves, ih]
    constructor
    · rintro ⟨_, rfl, rfl⟩
      rfl
    · rintro rfl
      exact ⟨_, rfl, rfl⟩

/-- Rounds that take a character of a class each take characters of the class. -/
theorem rounds_char_iff {p : Char → Prop} :
    Relation.ReflTransGen (fun a b => ∃ c, p c ∧ a = c :: b) cs r ↔ ∃ a, (∀ c ∈ a, p c) ∧ cs = a ++ r := by
  constructor
  · intro h
    induction h using Relation.ReflTransGen.head_induction_on with
    | refl => exact ⟨[], by simp, rfl⟩
    | head hstep _ ih =>
      obtain ⟨c, hc, rfl⟩ := hstep
      obtain ⟨a, ha, rfl⟩ := ih
      exact ⟨c :: a, List.forall_mem_cons.mpr ⟨hc, ha⟩, rfl⟩
  · rintro ⟨a, ha, rfl⟩
    induction a with
    | nil => exact .refl
    | cons c a ih =>
      rw [List.forall_mem_cons] at ha
      exact .head ⟨c, ha.1, rfl⟩ (ih ha.2)

theorem leaves_star_anyChar : Leaves whole (.star .anyChar) cs r ↔ ∃ a, '\n' ∉ a ∧ cs = a ++ r := by
  refine rounds_char_iff.trans (exists_congr fun a => and_congr_left' ?_)
  exact ⟨fun h hmem => h _ hmem rfl, fun h c hc heq => h (heq ▸ hc)⟩

theorem leaves_plus_noneOf {c : Char} :
    Leaves whole (.plus (.noneOf [c])) cs r ↔ ∃ a, a ≠ [] ∧ c ∉ a ∧ cs = a ++ r := by
  have hrounds {mid : List Char} :
      Relation.ReflTransGen (Leaves whole (.noneOf [c])) mid r ↔ ∃ a, (∀ d ∈ a, d ∉ [c]) ∧ mid = a ++ r :=
    rounds_char_iff
  rw [Leaves]
  simp only [hrounds]
  constructor
  · rintro ⟨_, ⟨d, hd, rfl⟩, a, ha, rfl⟩
    refine ⟨d :: a, List.cons_ne_nil _ _, fun hmem => ?_, rfl⟩
    rcases List.mem_cons.mp hmem with rfl | hmem
    · exact hd List.mem_cons_self
    · exact ha _ hmem List.mem_cons_self
  · rintro ⟨a, hne, hfree, rfl⟩
    obtain ⟨d, a, rfl⟩ := List.exists_cons_of_ne_nil hne
    rw [List.mem_cons, not_or] at hfree
    refine ⟨a ++ r, ⟨d, by simpa using Ne.symm hfree.1, rfl⟩, a, fun x hx heq => ?_, rfl⟩
    exact hfree.2 (List.mem_singleton.mp heq ▸ hx)

end Sequences

/-! ## Replacing -/

section Replacing

variable {e : Regex} {x whole cs r : List Char} {c : Char}

/-- Where an expression can be taken in one way, the matcher finds it first. -/
theorem head?_rests (h : ∀ t, Leaves whole e cs t ↔ t = r) : (rests whole e cs).head? = some r := by
  have hmem : r ∈ rests whole e cs := mem_rests_iff.mpr ((h r).mpr rfl)
  cases hrests : rests whole e cs with
  | nil => simp [hrests] at hmem
  | cons t ts =>
    have ht : t = r := (h t).mp (mem_rests_iff.mp (hrests ▸ List.mem_cons_self))
    rw [ht]
    rfl

theorem replaceFrom_of_leaves (h : ∀ t, Leaves whole e (c :: cs) t ↔ t = r) (hshorter : r.length ≤ cs.length) :
    e.replaceFrom x whole (c :: cs) = x ++ e.replaceFrom x whole r := by
  rw [replaceFrom, head?_rests h]
  exact if_pos hshorter

theorem replaceFrom_cons (h : ∀ t, ¬ Leaves whole e (c :: cs) t) :
    e.replaceFrom x whole (c :: cs) = c :: e.replaceFrom x whole cs := by
  have hnone : rests whole e (c :: cs) = [] :=
    List.eq_nil_iff_forall_not_mem.mpr fun t ht => h t (mem_rests_iff.mp ht)
  rw [replaceFrom, hnone]
  rfl

/-- A text within which nothing is taken stays as it is. -/
theorem replaceFrom_append {a : List Char}
    (h : ∀ front c back, a = front ++ c :: back → ∀ t, ¬ Leaves whole e (c :: (back ++ cs)) t) :
    e.replaceFrom x whole (a ++ cs) = a ++ e.replaceFrom x whole cs := by
  induction a with
  | nil => rfl
  | cons c a ih =>
    have hlater := ih fun front d back hback => h (c :: front) d back (by rw [hback]; rfl)
    rw [List.cons_append, replaceFrom_cons (h [] c a rfl), hlater, List.cons_append]

end Replacing

theorem Reader.advance_append (r : Reader) (a b : List Char) :
    r.advance (a ++ b) = (r.advance a).bind fun next => next.advance b := by
  induction a generalizing r with
  | nil => rfl
  | cons c a ih =>
    rw [List.cons_append, advance, advance]
    cases r.step c with
    | none => rfl
    | some next => exact ih next

end ExportAudit.Regex
