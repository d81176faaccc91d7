import Mathlib
import ExportAudit.Json.Comments
import ExportAudit.Json.Reader
import ExportAudit.Proofs.Cutting

/-!
# Tokens and their spellings

- `Spells`: how a token may be written; a spelling is read back as its token in front of any text that does not go on
  with a word (`tokens?_spelling`), and stripping passes it over (`strip_spelling`);
- `Joins`: which tokens may follow each other; the tokens of a document that has a value join (`isChain_joins`).
-/

namespace ExportAudit.Json

/-! ## Texts -/

/-- What follows the opening quote of a text, up to and with its closing quote, and the units that it stands for. -/
inductive TextBody : List Char → List Nat → Prop
  | close : TextBody ['"'] []
  | unit {a b c d : Char} {n : Nat} {cs : List Char} {ns : List Nat} (h : hex4? a b c d = some n)
      (hcs : TextBody cs ns) : TextBody ('\\' :: 'u' :: a :: b :: c :: d :: cs) (n :: ns)
  | escape {c e : Char} {cs : List Char} {ns : List Nat} (h : escaped? c = some e) (hcs : TextBody cs ns) :
      TextBody ('\\' :: c :: cs) (e.toNat :: ns)
  | plain {c : Char} {cs : List Char} {ns : List Nat} (hc : 0x20 ≤ c.toNat) (hq : c ≠ '"') (hb : c ≠ '\\')
      (hcs : TextBody cs ns) : TextBody (c :: cs) (c.toNat :: ns)

theorem readUnits?_body {cs : List Char} {ns : List Nat} (h : TextBody cs ns) (rest : List Char) :
    readUnits? (cs ++ rest) = some (ns, rest) := by
  induction h with
  | close => rfl
  | unit h _ ih => simp [readUnits?, h, ih]
  | @escape c e cs ns h _ ih =>
    have hu : c ≠ 'u' := by
      rintro rfl
      cases h
    rw [List.cons_append, List.cons_append, readUnits?]
    · simp [h, ih]
    · intro a b c' d rest' hc
      exact absurd hc hu
  | plain hc hq hb _ ih =>
    rw [List.cons_append, readUnits?]
    · simp [ih, hb]
      omega
    all_goals simp_all

/-- A number is written by four hexadecimal digits. -/
theorem exists_hexValue?_of_hex4? {a b c d : Char} {n : Nat} (h : hex4? a b c d = some n) :
    ∀ x ∈ [a, b, c, d], ∃ m, hexValue? x = some m := by
  simp only [hex4?, bind, Option.bind_eq_some_iff] at h
  obtain ⟨na, ha, nb, hb, nc, hc, nd, hd, -⟩ := h
  simp [ha, hb, hc, hd]

theorem ne_of_hexValue? {c : Char} {n : Nat} (h : hexValue? c = some n) : c ≠ '"' ∧ c ≠ '\\' := by
  refine ⟨?_, ?_⟩ <;> (rintro rfl; cases h)

theorem closeText?_cons {c : Char} (hq : c ≠ '"') (hb : c ≠ '\\') (rest : List Char) :
    closeText? (c :: rest) = (closeText? rest).map fun (t, after) => (c :: t, after) := by
  rw [closeText?]
  · simp [hb]
  all_goals simp_all

/-- The quote that ends a text is the first that no backslash stands before. -/
theorem closeText?_body {cs : List Char} {ns : List Nat} (h : TextBody cs ns) (rest : List Char) :
    closeText? (cs ++ rest) = some (cs, rest) := by
  induction h with
  | close => rfl
  | @unit a b c d n cs ns h _ ih =>
    have hdigit : ∀ x ∈ [a, b, c, d], ∀ rest,
        closeText? (x :: rest) = (closeText? rest).map fun (t, after) => (x :: t, after) := by
      intro x hx
      obtain ⟨m, hm⟩ := exists_hexValue?_of_hex4? h x hx
      exact closeText?_cons (ne_of_hexValue? hm).1 (ne_of_hexValue? hm).2
    simp only [List.cons_append]
    rw [closeText?, hdigit a (by simp), hdigit b (by simp), hdigit c (by simp), hdigit d (by simp), ih]
    rfl
  | escape h _ ih => simp [closeText?, ih]
  | plain hc hq hb _ ih => rw [List.cons_append, closeText?_cons hq hb, ih]; rfl

/-! ## Spellings -/

/-- How a token may be written. -/
inductive Spells : List Char → Token → Prop
  | punctuation {c : Char} {t : Token} (h : punctuation? c = some t) : Spells [c] t
  | text {cs : List Char} {ns : List Nat} (h : TextBody cs ns) :
      Spells ('"' :: cs) (.text (String.ofList (unitsText ns)))
  | word {w : List Char} (hne : w ≠ []) (h : ∀ c ∈ w, isWordChar c = true) : Spells w (.word w)

/-- A token as it is written. -/
structure Lexeme where
  token : Token
  spelling : List Char
  spells : Spells spelling token

/-- Closing brackets. -/
def Token.isCloser : Token → Bool
  | .closeList | .closeMap => true
  | _ => false

def Token.isWord : Token → Bool
  | .word _ => true
  | _ => false

/-- Whether a text goes on with a word. -/
def startsWord (cs : List Char) : Bool :=
  cs.head?.any isWordChar

/-- The characters of words are neither blanks nor marks. -/
theorem isBlank_of_isWordChar {c : Char} (h : isWordChar c = true) : Text.isBlank c = false := by
  simp only [isWordChar, Char.isAlphanum, Char.isAlpha, Char.isUpper, Char.isLower, Char.isDigit, Bool.or_eq_true,
    Bool.and_eq_true, decide_eq_true_eq, ge_iff_le, UInt32.le_iff_toNat_le, beq_iff_eq] at h
  simp only [Text.isBlank, Bool.or_eq_false_iff, Bool.and_eq_false_iff, decide_eq_false_iff_not, beq_eq_false_iff_ne]
  rcases h with ((h | rfl) | rfl) | rfl
  · simp at h
    omega
  all_goals decide

theorem isBlank_of_isSpace {c : Char} (h : isSpace c = true) : Text.isBlank c = true := by
  simp only [isSpace, Bool.or_eq_true, beq_iff_eq] at h
  rcases h with ((rfl | rfl) | rfl) | rfl <;> rfl

theorem isWordChar_of_isSpace {c : Char} (h : isSpace c = true) : isWordChar c = false := by
  by_contra hw
  have := isBlank_of_isWordChar (by simpa using hw)
  rw [isBlank_of_isSpace h] at this
  cases this

/-! ## Reading spellings -/

theorem tokens?_space {c : Char} (h : isSpace c = true) (rest : List Char) : tokens? (c :: rest) = tokens? rest := by
  rw [tokens?, if_pos h]

theorem tokens?_text {cs : List Char} {ns : List Nat} (h : TextBody cs ns) (rest : List Char) :
    tokens? ('"' :: (cs ++ rest)) = (tokens? rest).map (.text (String.ofList (unitsText ns)) :: ·) := by
  rw [tokens?]
  simp only [show isSpace '"' = false from rfl, Bool.false_eq_true, if_false, beq_self_eq_true, if_true]
  split
  · rename_i heq
    rw [readUnits?_body h] at heq
    obtain ⟨rfl, rfl⟩ := Prod.mk.inj (Option.some.inj heq)
    rfl
  · rename_i heq
    rw [readUnits?_body h] at heq
    cases heq

theorem tokens?_word {w rest : List Char} (hne : w ≠ []) (hw : ∀ c ∈ w, isWordChar c = true)
    (hrest : startsWord rest = false) : tokens? (w ++ rest) = (tokens? rest).map (.word w :: ·) := by
  obtain ⟨c, w, rfl⟩ := List.exists_cons_of_ne_nil hne
  have hc := hw c List.mem_cons_self
  have hall : ∀ d ∈ w, isWordChar d = true := fun d hd => hw d (List.mem_cons_of_mem _ hd)
  have hspace : isSpace c = false := by
    by_contra h
    rw [isWordChar_of_isSpace (by simpa using h)] at hc
    cases hc
  have hquote : (c == '"') = false := beq_eq_false_iff_ne.mpr (ne_of_test hc rfl)
  have htake : rest.takeWhile isWordChar = [] ∧ rest.dropWhile isWordChar = rest := by
    cases rest with
    | nil => exact ⟨rfl, rfl⟩
    | cons d rest =>
      have hd : isWordChar d = false := hrest
      simp [hd]
  rw [List.cons_append, tokens?]
  simp only [hspace, hquote, hc, Bool.false_eq_true, if_false, if_true]
  rw [List.takeWhile_append_of_pos hall, List.dropWhile_append_of_pos hall, htake.1, htake.2, List.append_nil]

theorem tokens?_punctuation {c : Char} {t : Token} (h : punctuation? c = some t) (rest : List Char) :
    tokens? (c :: rest) = (tokens? rest).map (t :: ·) := by
  have hc : isSpace c = false ∧ (c == '"') = false ∧ isWordChar c = false := by
    unfold punctuation? at h
    split at h <;> cases h <;> decide
  rw [tokens?]
  simp only [hc, h, Bool.false_eq_true, if_false]

/-- A spelling is read as its token, unless it is a word and what follows goes on with it. -/
theorem tokens?_spelling {cs rest : List Char} {t : Token} (h : Spells cs t)
    (hrest : t.isWord = true → startsWord rest = false) :
    tokens? (cs ++ rest) = (tokens? rest).map (t :: ·) := by
  cases h with
  | punctuation h => exact tokens?_punctuation h rest
  | text h => exact tokens?_text h rest
  | word hne h => exact tokens?_word hne h (hrest rfl)

/-- A spelling goes on with a word exactly when it is one. -/
theorem startsWord_spelling {cs : List Char} {t : Token} (h : Spells cs t) (rest : List Char) :
    startsWord (cs ++ rest) = t.isWord := by
  cases h with
  | @punctuation c t h =>
    unfold punctuation? at h
    split at h <;> cases h <;> rfl
  | text h => rfl
  | word hne h =>
    obtain ⟨c, w, rfl⟩ := List.exists_cons_of_ne_nil hne
    exact h c List.mem_cons_self

/-! ## Stripping spellings -/

theorem strip_cons {c : Char} (hq : c ≠ '"') (hs : c ≠ '/') (hc : c ≠ ',') (rest : List Char) :
    strip (c :: rest) = c :: strip rest := by
  rw [strip]
  all_goals simp_all

theorem strip_text {cs : List Char} {ns : List Nat} (h : TextBody cs ns) (rest : List Char) :
    strip ('"' :: (cs ++ rest)) = '"' :: (cs ++ strip rest) := by
  rw [strip]
  split
  · rename_i heq
    rw [closeText?_body h] at heq
    obtain ⟨rfl, rfl⟩ := Prod.mk.inj (Option.some.inj heq)
    rfl
  · rename_i heq
    rw [closeText?_body h] at heq
    cases heq

theorem strip_word {w : List Char} (hw : ∀ c ∈ w, isWordChar c = true) (rest : List Char) :
    strip (w ++ rest) = w ++ strip rest := by
  induction w with
  | nil => rfl
  | cons c w ih =>
    have hc := hw c List.mem_cons_self
    rw [List.cons_append, strip_cons (ne_of_test hc rfl) (ne_of_test hc rfl) (ne_of_test hc rfl),
      ih fun d hd => hw d (List.mem_cons_of_mem _ hd)]
    rfl

/-- A comma stays unless a closing bracket comes next. -/
theorem strip_comma (rest : List Char) :
    strip (',' :: rest) = if beforeClose rest then strip rest else ',' :: strip rest := by
  rw [strip]

/-- Stripping passes a spelling over, unless it is a comma before a closing bracket. -/
theorem strip_spelling {cs rest : List Char} {t : Token} (h : Spells cs t)
    (hrest : t = .comma → beforeClose rest = false) : strip (cs ++ rest) = cs ++ strip rest := by
  cases h with
  | @punctuation c t h =>
    by_cases hc : c = ','
    · subst hc
      rw [List.singleton_append, strip_comma, hrest (Option.some.inj h).symm]
      rfl
    · refine strip_cons ?_ ?_ hc rest <;> (rintro rfl; cases h)
  | text h => exact strip_text h rest
  | word hne h => exact strip_word h rest

theorem beforeClose_cons {c : Char} (h : Text.isBlank c = false) (rest : List Char) :
    beforeClose (c :: rest) = (c == '}' || c == ']') := by
  rw [beforeClose, h, Bool.false_and, Bool.or_false]

/-- A closing bracket comes next exactly when the next token is one. -/
theorem beforeClose_spelling {cs : List Char} {t : Token} (h : Spells cs t) (rest : List Char) :
    beforeClose (cs ++ rest) = t.isCloser := by
  cases h with
  | @punctuation c t h =>
    unfold punctuation? at h
    split at h <;> cases h <;> rfl
  | text h => rfl
  | word hne h =>
    obtain ⟨c, w, rfl⟩ := List.exists_cons_of_ne_nil hne
    have hc := h c List.mem_cons_self
    rw [List.cons_append, beforeClose_cons (isBlank_of_isWordChar hc), beq_eq_false_iff_ne.mpr (ne_of_test hc rfl),
      beq_eq_false_iff_ne.mpr (ne_of_test hc rfl)]
    rfl

/-! ## Neighbours -/

/-- Tokens that may follow each other: no word goes on with a word, and no comma stands before a closing bracket. -/
def Joins (a b : Token) : Prop :=
  ¬ (a.isWord = true ∧ b.isWord = true) ∧ ¬ (a = .comma ∧ b.isCloser = true)

theorem step_word {s s' : State} {w : List Char} (h : s.step (.word w) = some s') :
    ∃ v stack, s' = .done v stack := by
  cases s with
  | want stack =>
    obtain ⟨v, -, rfl⟩ := Option.map_eq_some_iff.mp h
    exact ⟨v, stack, rfl⟩
  | wantFirst stack =>
    obtain ⟨v, -, rfl⟩ := Option.map_eq_some_iff.mp h
    exact ⟨v, _, rfl⟩
  | wantKey | wantFirstKey | wantColon => cases h
  | done v stack =>
    cases stack with
    | nil => cases h
    | cons frame stack => cases frame <;> cases h

theorem step_comma {s s' : State} (h : s.step .comma = some s') :
    (∃ stack, s' = .want stack) ∨ ∃ entries stack, s' = .wantKey entries stack := by
  cases s with
  | want | wantFirst | wantKey | wantFirstKey | wantColon => cases h
  | done v stack =>
    cases stack with
    | nil => cases h
    | cons frame stack =>
      cases frame with
      | inList items => exact Or.inl ⟨_, (Option.some.inj h).symm⟩
      | inMap entries key => exact Or.inr ⟨_, _, (Option.some.inj h).symm⟩

/-- Two steps in a row take tokens that join. -/
theorem joins_of_step {s s' s'' : State} {a b : Token} (ha : s.step a = some s') (hb : s'.step b = some s'') :
    Joins a b := by
  constructor
  · rintro ⟨hwa, hwb⟩
    cases a with
    | word w =>
      obtain ⟨v, stack, rfl⟩ := step_word ha
      cases b with
      | word w' =>
        cases stack with
        | nil => cases hb
        | cons frame stack => cases frame <;> cases hb
      | _ => cases hwb
    | _ => cases hwa
  · rintro ⟨rfl, hclose⟩
    have hb' : b = .closeList ∨ b = .closeMap := by
      cases b <;> simp_all [Token.isCloser]
    rcases step_comma ha with ⟨stack, rfl⟩ | ⟨entries, stack, rfl⟩ <;> rcases hb' with rfl | rfl <;> cases hb

/-- The tokens of a run join. -/
theorem isChain_joins {s s' : State} {ts : List Token} (h : s.run ts = some s') : ts.IsChain Joins := by
  induction ts generalizing s with
  | nil => exact List.isChain_nil
  | cons a ts ih =>
    obtain ⟨s₁, ha, hrun⟩ := Option.bind_eq_some_iff.mp h
    cases ts with
    | nil => exact List.isChain_singleton a
    | cons b ts =>
      obtain ⟨s₂, hb, -⟩ := Option.bind_eq_some_iff.mp hrun
      exact List.isChain_cons_cons.mpr ⟨joins_of_step ha hb, ih hrun⟩

/-- The tokens of a document that has a value join. -/
theorem isChain_joins_of_value {ts : List Token} {v : Value} (h : valueOfTokens? ts = some v) : ts.IsChain Joins := by
  obtain ⟨s, hrun, -⟩ := Option.bind_eq_some_iff.mp h
  exact isChain_joins hrun

end ExportAudit.Json
