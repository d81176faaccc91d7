import Mathlib
import ExportAudit.Route.Expression
import ExportAudit.Proofs.Cutting
import ExportAudit.Proofs.RegexMatching
import ExportAudit.Proofs.RouteForms

/-!
# The meaning of the expression of a route

The expression of a route is made by three replacements in an escaped text. They are the passes over the characters of the
route that find its pattern, and the expression takes what the pattern accepts.

- Escapes keep their places: an escaped text is found in the text of a pattern only where its characters are parts
  (`rendered_eq_escape_append_iff`), and the first closing bracket that is escaped is a part as well, since the parts that
  stand for segments have a slash before theirs (`exists_of_rendered_eq_closing`);
- so an expression for a name in brackets takes just the names that a pattern begins with (`leaves_rendered_iff`), none
  begins within a part (`not_leaves_within`), and each replacement is a pass (`replaceFrom_rendered`). The expression of a
  route is the text of its pattern (`expression_eq_text`);
- this text is read part by part (`read?_text`), and what is read takes what the parts take (`exists_compile?`). So the
  expression of a route takes the paths of its form (`expression_takes_form`).
-/

namespace ExportAudit.Route

open Pattern Regex

/-! ## Escaped texts -/

/-- The text of a pattern without its frame. -/
def Pattern.rendered (p : Pattern) : List Char :=
  p.flatMap fun part => (partText part).toList

section Escaping

variable {p q : Pattern} {part : Part} {c d : Char} {cs s t : List Char}

theorem isSpecial_backslash : isSpecial '\\' = true := by
  decide

theorem escape_of_special (h : isSpecial c = true) : escape [c] = ['\\', c] := by
  simp [escape, h]

theorem escape_of_not_special (h : ¬ isSpecial c = true) : escape [c] = [c] := by
  simp [escape, h]

theorem escape_cons : escape (c :: cs) = escape [c] ++ escape cs := by
  simp [escape]

theorem rendered_cons : rendered (part :: p) = (partText part).toList ++ rendered p :=
  List.flatMap_cons

theorem rendered_append : rendered (p ++ q) = rendered p ++ rendered q :=
  List.flatMap_append

theorem toList_partText_char : (partText (.char c)).toList = escape [c] := by
  rw [partText]
  split
  · rename_i hc
    rw [String.toList_ofList, escape_of_special hc]
  · rename_i hc
    rw [String.toList_ofList, escape_of_not_special hc]

theorem rendered_chars : rendered (chars cs) = escape cs := by
  induction cs with
  | nil => rfl
  | cons c cs ih =>
    have hcons : chars (c :: cs) = .char c :: chars cs := rfl
    rw [hcons, rendered_cons, toList_partText_char, ih, ← escape_cons]

theorem not_mem_escape (hd : d ≠ '\\') (h : d ∉ cs) : d ∉ escape cs := by
  intro hmem
  obtain ⟨c, hc, hd'⟩ := List.mem_flatMap.mp hmem
  have hcd : d ≠ c := fun heq => h (heq ▸ hc)
  split at hd' <;> simp [hd, hcd] at hd'

theorem escape_ne_nil (h : cs ≠ []) : escape cs ≠ [] := by
  obtain ⟨c, cs, rfl⟩ := List.exists_cons_of_ne_nil h
  rw [escape_cons]
  by_cases hc : isSpecial c = true
  · simp [escape_of_special hc]
  · simp [escape_of_not_special hc]

/-- An escaped character begins with a backslash or with one that needs none before it. -/
theorem escape_append_ne_cons (hc : isSpecial c = true) (hne : c ≠ '\\') : escape [d] ++ t ≠ c :: s := by
  intro h
  by_cases hd : isSpecial d = true
  · rw [escape_of_special hd] at h
    exact hne (List.cons.inj h).1.symm
  · rw [escape_of_not_special hd] at h
    exact hd ((List.cons.inj h).1 ▸ hc)

/-- No escaped character is the beginning of another. -/
theorem escape_append_inj (h : escape [c] ++ s = escape [d] ++ t) : c = d ∧ s = t := by
  by_cases hc : isSpecial c = true
  · by_cases hd : isSpecial d = true
    · rw [escape_of_special hc, escape_of_special hd] at h
      simpa using h
    · rw [escape_of_special hc, escape_of_not_special hd] at h
      exact absurd ((List.cons.inj h).1 ▸ isSpecial_backslash) hd
  · by_cases hd : isSpecial d = true
    · rw [escape_of_not_special hc, escape_of_special hd] at h
      exact absurd ((List.cons.inj h).1 ▸ isSpecial_backslash) hc
    · rw [escape_of_not_special hc, escape_of_not_special hd] at h
      simpa using h

/-- A part that stands for segments begins with a character that is escaped where it stands for itself. -/
theorem exists_partText_cons (h : ∀ c, part ≠ .char c) :
    ∃ c t, (partText part).toList = c :: t ∧ isSpecial c = true ∧ c ≠ '\\' ∧ c ≠ ']' := by
  cases part with
  | char c => exact absurd rfl (h c)
  | segment => exact ⟨'[', "^/]+".toList, rfl, by decide, by decide, by decide⟩
  | segments => exact ⟨'[', "^/]+(?:/[^/]+)*".toList, rfl, by decide, by decide, by decide⟩
  | anySegments => exact ⟨'(', "?:/[^/]+)*".toList, rfl, by decide, by decide, by decide⟩

/-- An escaped character in front of a text of parts is a part by itself. -/
theorem exists_of_rendered_eq_escape (h : rendered p = escape [d] ++ t) : ∃ q, p = .char d :: q ∧ t = rendered q := by
  cases p with
  | nil => exact absurd (List.append_eq_nil_iff.mp h.symm).1 (escape_ne_nil (List.cons_ne_nil d []))
  | cons part p =>
    rw [rendered_cons] at h
    by_cases hpart : ∃ c, part = .char c
    · obtain ⟨c, rfl⟩ := hpart
      rw [toList_partText_char] at h
      obtain ⟨rfl, rfl⟩ := escape_append_inj h
      exact ⟨p, rfl, rfl⟩
    · obtain ⟨c, front, hfront, hc, hne, -⟩ := exists_partText_cons fun c heq => hpart ⟨c, heq⟩
      rw [hfront] at h
      exact absurd h.symm (escape_append_ne_cons hc hne)

/-- **Escapes keep their places:** an escaped text in front of a text of parts is made of parts by itself. -/
theorem rendered_eq_escape_append_iff : rendered p = escape cs ++ t ↔ ∃ q, p = chars cs ++ q ∧ t = rendered q := by
  constructor
  · intro h
    induction cs generalizing p with
    | nil => exact ⟨p, rfl, h.symm⟩
    | cons c cs ih =>
      rw [escape_cons, List.append_assoc] at h
      obtain ⟨p, rfl, hp⟩ := exists_of_rendered_eq_escape h
      obtain ⟨q, rfl, hq⟩ := ih hp.symm
      exact ⟨q, rfl, hq⟩
  · rintro ⟨q, rfl, rfl⟩
    rw [rendered_append, rendered_chars]

theorem rendered_ne_closing_cons : rendered p ≠ ']' :: t := by
  intro h
  cases p with
  | nil => cases h
  | cons part p =>
    rw [rendered_cons] at h
    by_cases hpart : ∃ c, part = .char c
    · obtain ⟨c, rfl⟩ := hpart
      rw [toList_partText_char] at h
      exact escape_append_ne_cons (by decide) (by decide) h
    · obtain ⟨c, front, hfront, -, -, hne⟩ := exists_partText_cons fun c heq => hpart ⟨c, heq⟩
      rw [hfront] at h
      exact hne (List.cons.inj h).1

/-- A part that stands for segments has a closing bracket, with a slash before it. -/
theorem exists_partText_closing (h : ∀ c, part ≠ .char c) :
    ∃ front back, (partText part).toList = (front ++ ['/']) ++ ']' :: back ∧ ']' ∉ front ++ ['/'] := by
  cases part with
  | char c => exact absurd rfl (h c)
  | segment => exact ⟨"[^".toList, "+".toList, rfl, by decide⟩
  | segments => exact ⟨"[^".toList, "+(?:/[^/]+)*".toList, rfl, by decide⟩
  | anySegments => exact ⟨"(?:/[^".toList, "+)*".toList, rfl, by decide⟩

/-- **The first closing bracket of a text of parts:** if it is escaped, it is a part by itself, and so is each character
before it. -/
theorem exists_of_rendered_eq_closing {u : List Char} (hu : ']' ∉ u) (h : rendered p = u ++ '\\' :: ']' :: t) :
    ∃ cs q, ']' ∉ cs ∧ u = escape cs ∧ p = chars cs ++ .char ']' :: q ∧ t = rendered q := by
  induction p generalizing u with
  | nil => simp [rendered] at h
  | cons part p ih =>
    rw [rendered_cons] at h
    by_cases hpart : ∃ c, part = .char c
    · obtain ⟨c, rfl⟩ := hpart
      rw [toList_partText_char] at h
      by_cases hc : isSpecial c = true
      · rw [escape_of_special hc] at h
        rcases u with _ | ⟨x, _ | ⟨y, u⟩⟩
        · obtain ⟨rfl, rfl⟩ : c = ']' ∧ rendered p = t := by simpa using h
          exact ⟨[], p, by simp, rfl, rfl, rfl⟩
        · obtain ⟨-, -, hclosing⟩ : '\\' = x ∧ c = '\\' ∧ rendered p = ']' :: t := by simpa using h
          exact absurd hclosing rendered_ne_closing_cons
        · obtain ⟨rfl, rfl, hrest⟩ : '\\' = x ∧ c = y ∧ rendered p = u ++ '\\' :: ']' :: t := by simpa using h
          simp only [List.mem_cons, not_or] at hu
          obtain ⟨cs, q, hcs, rfl, rfl, rfl⟩ := ih hu.2.2 hrest
          exact ⟨c :: cs, q, by simp [hu.2.1, hcs], by rw [escape_cons, escape_of_special hc]; rfl, rfl, rfl⟩
      · rw [escape_of_not_special hc] at h
        rcases u with _ | ⟨x, u⟩
        · obtain ⟨rfl, -⟩ : c = '\\' ∧ rendered p = ']' :: t := by simpa using h
          exact absurd (by decide) hc
        · obtain ⟨rfl, hrest⟩ : c = x ∧ rendered p = u ++ '\\' :: ']' :: t := by simpa using h
          rw [List.mem_cons, not_or] at hu
          obtain ⟨cs, q, hcs, rfl, rfl, rfl⟩ := ih hu.2 hrest
          exact ⟨c :: cs, q, by simp [hu.1, hcs], by rw [escape_cons, escape_of_not_special hc]; rfl, rfl, rfl⟩
    · obtain ⟨front, back, hfront, hfree⟩ := exists_partText_closing fun c heq => hpart ⟨c, heq⟩
      have hcut : (front ++ ['/']) ++ ']' :: (back ++ rendered p) = (u ++ ['\\']) ++ ']' :: t := by
        rw [hfront] at h
        simpa using h
      obtain ⟨hlast, -⟩ := append_inj_of_not_mem hfree (by simp [hu]) hcut
      simp at hlast

end Escaping

/-! ## Names in brackets -/

/-- An expression for a name between an opening and a closing text, as it is written when it is escaped. -/
def nameExpression (opening closing : List Char) : Regex :=
  ofList ((escape opening).map .char ++ .plus (.noneOf [']']) :: (escape (']' :: closing)).map .char)

theorem read?_optionalName : Regex.read? optionalName = some (nameExpression "/[[...".toList "]".toList) := by
  decide +kernel

theorem read?_catchAllName : Regex.read? catchAllName = some (nameExpression "[...".toList []) := by
  decide +kernel

theorem read?_dynamicName : Regex.read? dynamicName = some (nameExpression "[".toList []) := by
  decide +kernel

/-- A pattern begins with a name in brackets, and `q` follows. -/
def Names (opening closing : List Char) (p q : Pattern) : Prop :=
  ∃ name, name ≠ [] ∧ ']' ∉ name ∧ p = chars opening ++ (chars name ++ .char ']' :: (chars closing ++ q))

section Names

variable {opening closing : List Char} {p q : Pattern} {whole r t : List Char}

theorem leaves_nameExpression : Leaves whole (nameExpression opening closing) t r ↔
    ∃ u, u ≠ [] ∧ ']' ∉ u ∧ t = escape opening ++ (u ++ '\\' :: ']' :: (escape closing ++ r)) := by
  have hclosing : escape (']' :: closing) = '\\' :: ']' :: escape closing := rfl
  rw [nameExpression, leaves_ofList_append]
  simp only [leaves_chars, leaves_ofList_cons, leaves_plus_noneOf, hclosing, List.cons_append]
  constructor
  · rintro ⟨_, rfl, _, ⟨u, hne, hfree, rfl⟩, rfl⟩
    exact ⟨u, hne, hfree, rfl⟩
  · rintro ⟨u, hne, hfree, rfl⟩
    exact ⟨_, rfl, _, ⟨u, hne, hfree, rfl⟩, rfl⟩

/-- **An expression for names takes the names that a pattern begins with.** -/
theorem leaves_rendered_iff : Leaves whole (nameExpression opening closing) (rendered p) r ↔
    ∃ q, Names opening closing p q ∧ r = rendered q := by
  rw [leaves_nameExpression]
  constructor
  · rintro ⟨u, hne, hfree, h⟩
    obtain ⟨p, rfl, hp⟩ := rendered_eq_escape_append_iff.mp h
    obtain ⟨name, q, hname, rfl, rfl, hq⟩ := exists_of_rendered_eq_closing hfree hp.symm
    obtain ⟨q, rfl, rfl⟩ := rendered_eq_escape_append_iff.mp hq.symm
    refine ⟨q, ⟨name, ?_, hname, rfl⟩, rfl⟩
    rintro rfl
    exact hne rfl
  · rintro ⟨q, ⟨name, hne, hname, rfl⟩, rfl⟩
    refine ⟨escape name, escape_ne_nil hne, not_mem_escape (by decide) hname, ?_⟩
    simp only [rendered_append, rendered_chars, rendered_cons]
    rfl

/-- A pass over a pattern puts a part in the place of each name. -/
structure Pass (opening closing : List Char) (mark : Pattern → Pattern) (part : Part) : Prop where
  nil : mark [] = []
  named : ∀ p q, Names opening closing p q → mark p = part :: mark q
  other : ∀ first p, (∀ q, ¬ Names opening closing (first :: p) q) → mark (first :: p) = first :: mark p

theorem eq_of_names {q' : Pattern} (h : Names opening closing p q) (h' : Names opening closing p q') : q = q' := by
  obtain ⟨name, hne, hfree, rfl⟩ := h
  obtain ⟨name', hne', hfree', heq⟩ := h'
  have hbehind : some (chars closing ++ q) = some (chars closing ++ q') := by
    rw [← afterBracket?_chars hne hfree, List.append_cancel_left heq, afterBracket?_chars hne' hfree']
  exact List.append_cancel_left (Option.some.inj hbehind)

theorem exists_append_of_names (h : Names opening closing p q) : ∃ front, front ≠ [] ∧ p = front ++ q := by
  obtain ⟨name, -, -, rfl⟩ := h
  exact ⟨chars opening ++ (chars name ++ .char ']' :: chars closing), by simp, by simp⟩

theorem length_lt_of_leaves_nameExpression (h : Leaves whole (nameExpression opening closing) t r) :
    r.length < t.length := by
  obtain ⟨u, -, -, rfl⟩ := leaves_nameExpression.mp h
  simp only [List.length_append, List.length_cons]
  omega

/-- No name begins behind the backslash of an escape. -/
theorem not_leaves_of_special {first c : Char} (hfirst : first ≠ '\\') (hopening : ']' ∉ first :: opening)
    (hc : isSpecial c = true) : ¬ Leaves whole (nameExpression (first :: opening) closing) (c :: rendered p) r := by
  rw [leaves_nameExpression, escape_cons]
  rintro ⟨u, -, hfree, h⟩
  by_cases hspecial : isSpecial first = true
  · -- The backslash would be the escaped character, and the bracket would follow as it is.
    rw [escape_of_special hspecial] at h
    obtain ⟨-, hrest⟩ := List.cons.inj h
    have hfront : ']' ∉ first :: (escape opening ++ u) := by
      rw [List.mem_cons, not_or] at hopening ⊢
      exact ⟨hopening.1, fun hmem => (List.mem_append.mp hmem).elim (not_mem_escape (by decide) hopening.2) hfree⟩
    obtain ⟨cs, -, -, hcs, -, -⟩ := exists_of_rendered_eq_closing hfront (by simpa using hrest)
    cases cs with
    | nil => cases hcs
    | cons d cs =>
      rw [escape_cons] at hcs
      exact escape_append_ne_cons hspecial hfirst hcs.symm
  · rw [escape_of_not_special hspecial] at h
    exact hspecial ((List.cons.inj h).1 ▸ hc)

/-- No name begins within the text of a part. If the part stands for segments, names must begin with a bracket: its escape
has a backslash, and the part has none. -/
theorem not_leaves_within {first c : Char} {head : Part} {front back : List Char} (hfirst : first ≠ '\\')
    (hopening : ']' ∉ first :: opening) (hhead : first = '[' ∨ ∃ d, head = .char d)
    (hfront : (partText head).toList = front ++ c :: back) (hne : front ≠ []) :
    ¬ Leaves whole (nameExpression (first :: opening) closing) (c :: (back ++ rendered p)) r := by
  by_cases hchar : ∃ d, head = .char d
  · obtain ⟨d, rfl⟩ := hchar
    obtain ⟨x, front, rfl⟩ := List.exists_cons_of_ne_nil hne
    rw [toList_partText_char] at hfront
    by_cases hd : isSpecial d = true
    · rw [escape_of_special hd] at hfront
      obtain ⟨-, hfront⟩ := List.cons.inj hfront
      obtain ⟨rfl, hback⟩ := List.append_eq_singleton_iff.mp hfront.symm |>.resolve_right (by simp)
      obtain ⟨rfl, rfl⟩ := List.cons.inj hback
      exact not_leaves_of_special hfirst hopening hd
    · simp [escape_of_not_special hd] at hfront
  · obtain rfl := hhead.resolve_right hchar
    intro h
    obtain ⟨u, -, -, htext⟩ := leaves_nameExpression.mp h
    have hbackslash : '\\' ∈ (partText head).toList := by
      rw [hfront, (List.cons.inj htext).1]
      simp
    cases head with
    | char d => exact hchar ⟨d, rfl⟩
    | segment | segments | anySegments => exact absurd hbackslash (by decide)

/-- A name that a pattern begins with is replaced. -/
theorem replaceFrom_named {x : List Char} (h : Names opening closing p q) :
    (nameExpression opening closing).replaceFrom x whole (rendered p) =
      x ++ (nameExpression opening closing).replaceFrom x whole (rendered q) := by
  have honly (t : List Char) : Leaves whole (nameExpression opening closing) (rendered p) t ↔ t = rendered q := by
    rw [leaves_rendered_iff]
    constructor
    · rintro ⟨q', hq', rfl⟩
      rw [eq_of_names h hq']
    · rintro rfl
      exact ⟨q, h, rfl⟩
  have hshorter := length_lt_of_leaves_nameExpression ((honly _).mpr rfl)
  cases htext : rendered p with
  | nil => simp [htext] at hshorter
  | cons c cs =>
    rw [htext] at honly hshorter
    exact replaceFrom_of_leaves honly (Nat.le_of_lt_succ hshorter)

/-- A part at which no name begins stays. -/
theorem replaceFrom_other {first : Char} {head : Part} {x : List Char} (hfirst : first ≠ '\\')
    (hopening : ']' ∉ first :: opening) (hhead : first = '[' ∨ ∃ d, head = .char d)
    (h : ∀ q, ¬ Names (first :: opening) closing (head :: p) q) :
    (nameExpression (first :: opening) closing).replaceFrom x whole (rendered (head :: p)) =
      (partText head).toList ++ (nameExpression (first :: opening) closing).replaceFrom x whole (rendered p) := by
  rw [rendered_cons]
  apply replaceFrom_append
  intro front c back hfront t hleaves
  by_cases hne : front = []
  · have haligned : c :: (back ++ rendered p) = rendered (head :: p) := by
      rw [rendered_cons, hfront, hne]
      rfl
    rw [haligned, leaves_rendered_iff] at hleaves
    obtain ⟨q, hq, -⟩ := hleaves
    exact h q hq
  · exact not_leaves_within hfirst hopening hhead hfront hne hleaves

/-- **A pass over the text of a pattern is a pass over its parts.** -/
theorem replaceFrom_rendered {first : Char} {mark : Pattern → Pattern} {part : Part}
    (hpass : Pass (first :: opening) closing mark part) (hfirst : first ≠ '\\') (hopening : ']' ∉ first :: opening)
    (hparts : ∀ head ∈ p, first = '[' ∨ ∃ d, head = .char d) :
    (nameExpression (first :: opening) closing).replaceFrom (partText part).toList whole (rendered p) =
      rendered (mark p) := by
  -- A name has several parts, so the induction is on the number of parts.
  induction hn : p.length using Nat.strong_induction_on generalizing p with
  | _ n ih =>
    cases p with
    | nil =>
      rw [hpass.nil]
      simp [rendered, replaceFrom]
    | cons head p =>
      by_cases hname : ∃ q, Names (first :: opening) closing (head :: p) q
      · obtain ⟨q, hq⟩ := hname
        obtain ⟨front, hne, hfront⟩ := exists_append_of_names hq
        have hshorter : q.length < n := by
          have := List.length_pos_iff.mpr hne
          rw [← hn, hfront, List.length_append]
          omega
        rw [replaceFrom_named hq, hpass.named _ q hq, rendered_cons,
          ih _ hshorter (fun head hhead => hparts head (hfront ▸ List.mem_append_right front hhead)) rfl]
      · rw [List.forall_mem_cons] at hparts
        have hnone := not_exists.mp hname
        rw [replaceFrom_other hfirst hopening hparts.1 hnone, hpass.other head p hnone, rendered_cons,
          ih _ (hn ▸ Nat.lt_succ_self _) hparts.2 rfl]

end Names

/-! ## The three passes -/

section Passes

variable {p rest behind : Pattern}

/-- What is found behind a closing bracket stands behind a name. -/
theorem exists_of_afterBracket? {some_before : Bool} (h : afterBracket? some_before p = some behind) :
    ∃ name, (some_before = false → name ≠ []) ∧ ']' ∉ name ∧ p = chars name ++ .char ']' :: behind := by
  fun_induction afterBracket? some_before p with
  | case1 rest =>
    obtain rfl := Option.some.inj h
    exact ⟨[], by simp, by simp, rfl⟩
  | case2 rest => cases h
  | case3 some_before c rest hc ih =>
    obtain ⟨name, -, hfree, rfl⟩ := ih h
    exact ⟨c :: name, by simp, by simpa [hfree] using Ne.symm hc, rfl⟩
  | case4 => cases h

theorem names_of_afterBracket? {opening closing : List Char}
    (h : afterBracket? false rest = some (chars closing ++ behind)) :
    Names opening closing (chars opening ++ rest) behind := by
  obtain ⟨name, hne, hfree, rfl⟩ := exists_of_afterBracket? h
  exact ⟨name, hne rfl, hfree, rfl⟩

theorem pass_markOptional : Pass "/[[...".toList "]".toList markOptional .anySegments where
  nil := markOptional.eq_3
  named := by
    rintro p q ⟨name, hne, hfree, rfl⟩
    exact markOptional_of_afterBracket? (afterBracket?_chars hne hfree)
  other first p hnone := by
    by_cases hshape : first = .char '/' ∧ ∃ rest, p = chars "[[...".toList ++ rest
    · obtain ⟨rfl, rest, rfl⟩ := hshape
      refine (markOptional.eq_1 rest).trans ?_
      split
      · rename_i behind h
        exact absurd (names_of_afterBracket? h) (hnone behind)
      · rfl
    · exact markOptional.eq_2 _ _ fun rest hfirst hrest => hshape ⟨hfirst, rest, hrest⟩

theorem pass_markCatchAll : Pass "[...".toList [] markCatchAll .segments where
  nil := markCatchAll.eq_3
  named := by
    rintro p q ⟨name, hne, hfree, rfl⟩
    exact markCatchAll_of_afterBracket? (afterBracket?_chars hne hfree)
  other first p hnone := by
    by_cases hshape : first = .char '[' ∧ ∃ rest, p = chars "...".toList ++ rest
    · obtain ⟨rfl, rest, rfl⟩ := hshape
      refine (markCatchAll.eq_1 rest).trans ?_
      split
      · rename_i behind h
        exact absurd (names_of_afterBracket? h) (hnone behind)
      · rfl
    · exact markCatchAll.eq_2 _ _ fun rest hfirst hrest => hshape ⟨hfirst, rest, hrest⟩

theorem pass_markDynamic : Pass "[".toList [] markDynamic .segment where
  nil := markDynamic.eq_3
  named := by
    rintro p q ⟨name, hne, hfree, rfl⟩
    exact markDynamic_of_afterBracket? (afterBracket?_chars hne hfree)
  other first p hnone := by
    by_cases hshape : first = .char '['
    · subst hshape
      refine (markDynamic.eq_1 p).trans ?_
      split
      · rename_i behind h
        exact absurd (names_of_afterBracket? h) (hnone behind)
      · rfl
    · exact markDynamic.eq_2 _ _ hshape

/-- Replacing names in the text of a pattern, by an expression that is read as one for them, is a pass over its parts. -/
theorem substitute_rendered {first : Char} {opening closing : List Char} {mark : Pattern → Pattern} {part : Part}
    {expression : String} (hread : Regex.read? expression = some (nameExpression (first :: opening) closing))
    (hpass : Pass (first :: opening) closing mark part) (hfirst : first ≠ '\\') (hopening : ']' ∉ first :: opening)
    (hparts : ∀ head ∈ p, first = '[' ∨ ∃ d, head = .char d) :
    substitute expression (partText part) (rendered p) = rendered (mark p) := by
  rw [substitute, hread]
  exact replaceFrom_rendered hpass hfirst hopening hparts

/-- **The expression of a route is the text of its pattern.** -/
theorem expression_eq_text (route : String) : expression route = (ofRoute route).text := by
  have hoptional : substitute optionalName "(?:/[^/]+)*" (escape route.toList) =
      rendered (markOptional (chars route.toList)) := by
    rw [← rendered_chars]
    exact substitute_rendered read?_optionalName pass_markOptional (by decide) (by decide)
      fun head hhead => Or.inr (by obtain ⟨d, -, rfl⟩ := List.mem_map.mp hhead; exact ⟨d, rfl⟩)
  have hcatchAll (p : Pattern) : substitute catchAllName "[^/]+(?:/[^/]+)*" (rendered p) = rendered (markCatchAll p) :=
    substitute_rendered read?_catchAllName pass_markCatchAll (by decide) (by decide) fun _ _ => Or.inl rfl
  have hdynamic (p : Pattern) : substitute dynamicName "[^/]+" (rendered p) = rendered (markDynamic p) :=
    substitute_rendered read?_dynamicName pass_markDynamic (by decide) (by decide) fun _ _ => Or.inl rfl
  have hjoin (p : Pattern) : Text.join "" (p.map partText) = String.ofList (rendered p) := by
    rw [← String.toList_inj, toList_join_empty, String.toList_ofList, rendered, List.flatMap_def, List.map_map]
    rfl
  rw [expression, hoptional, hcatchAll, hdynamic, Pattern.text, hjoin]
  rfl

end Passes

/-! ## Reading the text of a pattern -/

/-- The expression for more segments, each with its slash. -/
def moreSegments : Regex :=
  .star (.group (ofList [.char '/', .plus (.noneOf ['/'])]))

/-- The expressions that the text of a part is read as. -/
def partExpressions : Part → List Regex
  | .char c => [.char c]
  | .segment => [.plus (.noneOf ['/'])]
  | .segments => [.plus (.noneOf ['/']), moreSegments]
  | .anySegments => [moreSegments]

/-- The expressions for whatever follows and for the end. -/
def restExpressions : List Regex :=
  [.optional (.group (ofList [.char '/', .star .anyChar])), .finish]

section Reading

variable {parts : List Regex} {outer : List (List Regex)} {p : Pattern}

theorem isAlphanum_of_isSpecial {c : Char} (h : isSpecial c = true) : c.isAlphanum = false := by
  have hall : "()[]\x7b\x7d?*+-|^$\\.&~# \t\n\r\x0b\x0c".toList.all (fun c => !c.isAlphanum) = true := by
    decide +kernel
  simpa using List.all_eq_true.mp hall c (List.contains_iff_mem.mp h)

theorem stepPlain_of_not_isSpecial {c : Char} (r : Reader) (h : isSpecial c = false) :
    r.stepPlain c = some (r.add (.char c)) := by
  unfold Reader.stepPlain
  split
  iterate 12 exact absurd h (by decide)
  rfl

/-- The text of a part is read as its expressions. -/
theorem advance_partText (part : Part) : Reader.advance ⟨.plain, parts, outer⟩ (partText part).toList =
    some ⟨.plain, (partExpressions part).reverse ++ parts, outer⟩ := by
  cases part with
  | char c =>
    rw [toList_partText_char]
    by_cases hc : isSpecial c = true
    · rw [escape_of_special hc]
      simp [Reader.advance, Reader.step, Reader.stepPlain, isAlphanum_of_isSpecial hc, Reader.add, partExpressions]
    · rw [escape_of_not_special hc]
      simp [Reader.advance, Reader.step, stepPlain_of_not_isSpecial _ (Bool.eq_false_of_not_eq_true hc), Reader.add,
        partExpressions]
  | segment => rfl
  | segments => rfl
  | anySegments => rfl

theorem advance_rendered : Reader.advance ⟨.plain, parts, outer⟩ (rendered p) =
    some ⟨.plain, (p.flatMap partExpressions).reverse ++ parts, outer⟩ := by
  induction p generalizing parts with
  | nil => rfl
  | cons part p ih =>
    rw [rendered_cons, Reader.advance_append, advance_partText]
    simp [ih]

/-- **The text of a pattern is read part by part.** -/
theorem read?_text : Regex.read? p.text = some (ofList (.start :: (p.flatMap partExpressions ++ restExpressions))) := by
  have htext : p.text.toList = "^".toList ++ (rendered p ++ "(?:/.*)?$".toList) := by
    rw [Pattern.text, String.toList_append, String.toList_append, toList_join_empty, List.append_assoc, rendered,
      List.flatMap_def, List.map_map]
    rfl
  have hopen : Reader.advance {} "^".toList = some ⟨.plain, [.start], []⟩ := rfl
  have hclose (parts : List Regex) : Reader.advance ⟨.plain, parts, []⟩ "(?:/.*)?$".toList =
      some ⟨.plain, restExpressions.reverse ++ parts, []⟩ := rfl
  rw [Regex.read?, htext, Reader.advance_append, hopen, Option.bind_some, Reader.advance_append, advance_rendered,
    Option.bind_some, hclose]
  simp [Reader.result?]

end Reading

/-! ## Matching -/

section Matching

variable {whole cs r : List Char} {p : Pattern}

theorem leaves_segment : Leaves whole (.plus (.noneOf ['/'])) cs r ↔ r ∈ segmentRests cs := by
  rw [leaves_plus_noneOf, mem_segmentRests]

/-- More segments are taken with a slash and a text for each. -/
theorem leaves_moreSegments : Leaves whole moreSegments cs r ↔ r ∈ anySegmentsRests cs := by
  have hround {a b : List Char} : Leaves whole (.group (ofList [.char '/', .plus (.noneOf ['/'])])) a b ↔
      ∃ t, a = '/' :: t ∧ b ∈ segmentRests t := by
    constructor
    · rintro ⟨t, ha, _, hb, rfl⟩
      exact ⟨t, ha, leaves_segment.mp hb⟩
    · rintro ⟨t, ha, hb⟩
      exact ⟨t, ha, b, leaves_segment.mpr hb, rfl⟩
  rw [moreSegments, Leaves]
  constructor
  · intro h
    induction h using Relation.ReflTransGen.head_induction_on with
    | refl => exact self_mem_anySegmentsRests r
    | head hstep _ ih =>
      obtain ⟨t, rfl, hmid⟩ := hround.mp hstep
      exact mem_anySegmentsRests_slash.mpr (Or.inr ⟨_, hmid, ih⟩)
  · intro h
    obtain ⟨ws, hws, rfl⟩ := mem_anySegmentsRests.mp h
    clear h
    induction ws with
    | nil => exact .refl
    | cons w ws ih =>
      rw [List.forall_mem_cons] at hws
      refine .head (hround.mpr ⟨w.toList ++ (spell ws ++ r), by simp [spell_cons], ?_⟩) (ih hws.2)
      exact mem_segmentRests.mpr ⟨w.toList, by simpa using hws.1.1, hws.1.2, rfl⟩

/-- The expressions of a part take what the part takes. -/
theorem leaves_partExpressions (part : Part) :
    Leaves whole (ofList (partExpressions part)) cs r ↔ r ∈ Pattern.rests cs part := by
  cases part with
  | char c =>
    rw [partExpressions, leaves_ofList_singleton, leaves_char, Pattern.rests]
    cases cs with
    | nil => simp
    | cons d cs =>
      by_cases hd : d = c
      · simp [hd, eq_comm]
      · simp [hd]
  | segment => rw [partExpressions, leaves_ofList_singleton, leaves_segment, Pattern.rests]
  | segments =>
    rw [partExpressions, leaves_ofList_cons, Pattern.rests, List.mem_flatMap]
    simp only [leaves_ofList_singleton, leaves_segment, leaves_moreSegments]
  | anySegments => rw [partExpressions, leaves_ofList_singleton, leaves_moreSegments, Pattern.rests]

theorem atEnd_iff : atEnd cs = true ↔ cs = [] ∨ cs = ['\n'] := by
  simp [atEnd]

/-- A slash and the rest of a line may follow, up to the end. -/
theorem exists_line_iff : (∃ mid, (mid = [] ∨ mid = ['\n']) ∧ ∃ a, '\n' ∉ a ∧ cs = a ++ mid) ↔
    atEnd (cs.dropWhile (· != '\n')) = true := by
  constructor
  · rintro ⟨mid, hmid, a, ha, rfl⟩
    rw [List.dropWhile_append_of_pos (bne_of_not_mem ha), atEnd_iff]
    rcases hmid with rfl | rfl
    · exact Or.inl rfl
    · exact Or.inr rfl
  · intro h
    refine ⟨_, atEnd_iff.mp h, cs.takeWhile (· != '\n'), fun hmem => ?_, List.takeWhile_append_dropWhile.symm⟩
    simpa using List.mem_takeWhile_imp hmem

/-- Behind the parts, the end of the path may stand, or a slash and anything up to the end. -/
theorem exists_leaves_restExpressions : (∃ r, Leaves whole (ofList restExpressions) cs r) ↔ endsPath cs = true := by
  have hoptional {mid : List Char} : Leaves whole (.optional (.group (ofList [.char '/', .star .anyChar]))) cs mid ↔
      (∃ t, cs = '/' :: t ∧ ∃ a, '\n' ∉ a ∧ t = a ++ mid) ∨ mid = cs := by
    rw [Leaves, Leaves, leaves_ofList_cons]
    simp only [leaves_ofList_singleton, leaves_star_anyChar, leaves_char]
  have hfinish : (∃ r, Leaves whole (ofList restExpressions) cs r) ↔ ∃ mid, (mid = [] ∨ mid = ['\n']) ∧
      ((∃ t, cs = '/' :: t ∧ ∃ a, '\n' ∉ a ∧ t = a ++ mid) ∨ mid = cs) := by
    constructor
    · rintro ⟨r, hr⟩
      obtain ⟨mid, hmid, hend⟩ := leaves_ofList_cons.mp hr
      exact ⟨mid, (leaves_ofList_singleton.mp hend).1, hoptional.mp hmid⟩
    · rintro ⟨mid, hend, hmid⟩
      exact ⟨mid, leaves_ofList_cons.mpr ⟨mid, hoptional.mpr hmid, leaves_ofList_singleton.mpr ⟨hend, rfl⟩⟩⟩
  rw [hfinish]
  by_cases hslash : ∃ t, cs = '/' :: t
  · obtain ⟨t, rfl⟩ := hslash
    rw [endsPath, ← exists_line_iff]
    refine exists_congr fun mid => and_congr_right fun hend => ?_
    constructor
    · rintro (⟨_, heq, hline⟩ | rfl)
      · exact (List.cons.inj heq).2 ▸ hline
      · simp at hend
    · exact fun hline => Or.inl ⟨t, rfl, hline⟩
  · have hends : endsPath cs = atEnd cs := endsPath.eq_2 cs fun t heq => hslash ⟨t, heq⟩
    rw [hends, atEnd_iff]
    constructor
    · rintro ⟨mid, hend, ⟨t, heq, -⟩ | rfl⟩
      · exact absurd ⟨t, heq⟩ hslash
      · exact hend
    · exact fun hend => ⟨cs, hend, Or.inr rfl⟩

theorem exists_leaves_iff_accepts : (∃ r, Leaves whole (ofList (p.flatMap partExpressions ++ restExpressions)) cs r) ↔
    accepts p cs = true := by
  induction p generalizing cs with
  | nil => exact exists_leaves_restExpressions
  | cons part p ih =>
    rw [accepts_cons, List.flatMap_cons, List.append_assoc]
    simp only [@leaves_ofList_append whole cs _ (partExpressions part), leaves_partExpressions, ← ih]
    constructor
    · rintro ⟨r, mid, hmid, hr⟩
      exact ⟨mid, hmid, r, hr⟩
    · rintro ⟨mid, hmid, r, hr⟩
      exact ⟨r, mid, hmid, hr⟩

/-- **The expression of a route takes what its pattern accepts.** -/
theorem exists_compile? (route : String) : ∃ e, compile? route = some e ∧
    ∀ cs, e.matchesFront cs = (ofRoute route).accepts cs := by
  have hread : compile? route = some _ := (congrArg Regex.read? (expression_eq_text route)).trans read?_text
  refine ⟨_, hread, fun cs => ?_⟩
  rw [Bool.eq_iff_iff, matchesFront_iff, ← exists_leaves_iff_accepts]
  constructor
  · rintro ⟨r, hr⟩
    obtain ⟨mid, ⟨-, rfl⟩, hrest⟩ := leaves_ofList_cons.mp hr
    exact ⟨r, hrest⟩
  · rintro ⟨r, hr⟩
    exact ⟨r, leaves_ofList_cons.mpr ⟨cs, ⟨rfl, rfl⟩, hr⟩⟩

end Matching

/-- The regular expression of a route can be read, and it takes the paths that begin with segments that those of the route
stand for. -/
theorem expression_takes_form {segments : List Segment} {path : String} {cs : List Char} (hne : segments ≠ [])
    (h : ∀ s ∈ segments, s.Legible) (hrooted : path.toList = '/' :: cs) (hline : '\n' ∉ path.toList) :
    ∃ e, compile? (text segments) = some e ∧ (e.matchesFront path.toList = true ↔ HasForm segments path) := by
  obtain ⟨e, hread, hmatches⟩ := exists_compile? (text segments)
  refine ⟨e, hread, ?_⟩
  rw [hmatches, accepts_ofRoute_iff hne h hrooted hline]

/-- A route with a backslash and a dot in a text, and with names in brackets before and behind an empty segment. -/
def archiveForm : List Segment :=
  [.literal "v1.0\\", .one "id+", .any "p.q", .literal "", .many "..."]

/-- The names before the empty segment stand for three segments, and what follows the last is not looked at. -/
theorem expression_takes_form_archive : archiveForm ≠ [] ∧ (∀ s ∈ archiveForm, s.Legible) ∧
    "/v1.0\\/7/a/b//c/".toList = '/' :: "v1.0\\/7/a/b//c/".toList ∧ '\n' ∉ "/v1.0\\/7/a/b//c/".toList ∧
    HasForm archiveForm "/v1.0\\/7/a/b//c/" := by
  have hne : archiveForm ≠ [] := List.cons_ne_nil _ _
  have hlegible : ∀ s ∈ archiveForm, s.Legible := by decide
  have hline : '\n' ∉ "/v1.0\\/7/a/b//c/".toList := by decide
  have htakes : (compile? (text archiveForm)).map (·.matchesFront "/v1.0\\/7/a/b//c/".toList) = some true := by
    decide +kernel
  obtain ⟨e, hread, hform⟩ := expression_takes_form hne hlegible rfl hline
  rw [hread] at htakes
  exact ⟨hne, hlegible, rfl, hline, hform.mp (Option.some.inj htakes)⟩

end ExportAudit.Route
