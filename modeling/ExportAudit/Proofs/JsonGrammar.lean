import Mathlib
import ExportAudit.Proofs.Lexeme

/-!
# The grammar of JSON

- `Laid`: a text as tokens with white space between them. Every text that is cut into tokens is laid out like this
  (`laid_of_tokens?`), and it is cut into these tokens if they join (`tokens?_laid`);
- `Word`, `Phrase`: the words and the token sequences that the grammar allows; each of them is read as a value
  (`exists_wordValue?`, `Phrase.reads`);
- `IsDocument`: the texts that the grammar allows; the reader accepts them all (`exists_value?_of_isDocument`).
-/

namespace ExportAudit.Json

/-! ## Texts as tokens -/

/-- A text as tokens with white space between them. -/
inductive Laid : List Char → List Token → Prop
  | nil : Laid [] []
  | space {c : Char} {cs : List Char} {ts : List Token} (h : isSpace c = true) (hcs : Laid cs ts) : Laid (c :: cs) ts
  | token {spelling cs : List Char} {t : Token} {ts : List Token} (h : Spells spelling t) (hcs : Laid cs ts) :
      Laid (spelling ++ cs) (t :: ts)

theorem exists_body_of_readUnits? {cs rest : List Char} {ns : List Nat} (h : readUnits? cs = some (ns, rest)) :
    ∃ body, cs = body ++ rest ∧ TextBody body ns := by
  fun_induction readUnits? cs generalizing ns rest with
  | case1 => cases h
  | case2 cs =>
    obtain ⟨rfl, rfl⟩ := Prod.mk.inj (Option.some.inj h)
    exact ⟨['"'], rfl, .close⟩
  | case3 a b c d cs ih =>
    obtain ⟨n, hn, h⟩ := Option.bind_eq_some_iff.mp h
    obtain ⟨⟨ms, after⟩, hms, heq⟩ := Option.map_eq_some_iff.mp h
    obtain ⟨rfl, rfl⟩ := Prod.mk.inj heq
    obtain ⟨body, rfl, hbody⟩ := ih hms
    exact ⟨_, rfl, .unit hn hbody⟩
  | case4 c cs _ ih =>
    obtain ⟨e, he, h⟩ := Option.bind_eq_some_iff.mp h
    obtain ⟨⟨ms, after⟩, hms, heq⟩ := Option.map_eq_some_iff.mp h
    obtain ⟨rfl, rfl⟩ := Prod.mk.inj heq
    obtain ⟨body, rfl, hbody⟩ := ih hms
    exact ⟨_, rfl, .escape he hbody⟩
  | case5 c cs hquote _ hbad => cases h
  | case6 c cs hquote _ _ hgood ih =>
    obtain ⟨⟨ms, after⟩, hms, heq⟩ := Option.map_eq_some_iff.mp h
    obtain ⟨rfl, rfl⟩ := Prod.mk.inj heq
    obtain ⟨body, rfl, hbody⟩ := ih hms
    simp only [Bool.or_eq_true, decide_eq_true_eq, beq_iff_eq, not_or, not_lt] at hgood
    exact ⟨_, rfl, .plain hgood.1 hquote hgood.2 hbody⟩

theorem laid_of_tokens? {cs : List Char} {ts : List Token} (h : tokens? cs = some ts) : Laid cs ts := by
  fun_induction tokens? cs generalizing ts with
  | case1 =>
    obtain rfl := Option.some.inj h
    exact .nil
  | case2 c cs hspace ih => exact .space hspace (ih h)
  | case3 c cs _ hquote ns after hunits ih =>
    obtain ⟨us, hus, rfl⟩ := Option.map_eq_some_iff.mp h
    obtain ⟨body, rfl, hbody⟩ := exists_body_of_readUnits? hunits
    rw [eq_of_beq hquote]
    exact .token (.text hbody) (ih hus)
  | case4 => cases h
  | case5 c cs _ _ hword ih =>
    obtain ⟨us, hus, rfl⟩ := Option.map_eq_some_iff.mp h
    have hw : Spells (c :: cs.takeWhile isWordChar) (.word (c :: cs.takeWhile isWordChar)) :=
      .word (List.cons_ne_nil _ _) (List.forall_mem_cons.mpr ⟨hword, fun d hd => List.mem_takeWhile_imp hd⟩)
    have hlaid := Laid.token hw (ih hus)
    rwa [List.cons_append, List.takeWhile_append_dropWhile] at hlaid
  | case6 c cs _ _ _ t ht ih =>
    obtain ⟨us, hus, rfl⟩ := Option.map_eq_some_iff.mp h
    exact .token (.punctuation ht) (ih hus)
  | case7 => cases h

/-- A text goes on with a word only if its first token is one. -/
theorem Laid.startsWord_eq_false {cs : List Char} {ts : List Token} (h : Laid cs ts)
    (hts : ∀ t ∈ ts.head?, t.isWord = false) : startsWord cs = false := by
  cases h with
  | nil => rfl
  | space h _ => exact isWordChar_of_isSpace h
  | @token spelling cs t ts h _ => exact (startsWord_spelling h cs).trans (hts t rfl)

/-- A text is cut into the tokens that it is laid out with, if they join. -/
theorem tokens?_laid {cs : List Char} {ts : List Token} (h : Laid cs ts) (hjoin : ts.IsChain Joins) :
    tokens? cs = some ts := by
  induction h with
  | nil => rw [tokens?]
  | space h _ ih => rw [tokens?_space h, ih hjoin]
  | @token spelling cs t ts h hcs ih =>
    have hnext : t.isWord = true → startsWord cs = false := by
      intro hword
      refine hcs.startsWord_eq_false fun u hu => ?_
      exact Bool.eq_false_iff.mpr fun hw => (List.isChain_cons.mp hjoin).1 u hu |>.1 ⟨hword, hw⟩
    rw [tokens?_spelling h hnext, ih hjoin.tail]
    rfl

/-! ## Words -/

/-- The digits behind the point of a number, if there is one. -/
inductive Fraction : List Char → Prop
  | none : Fraction []
  | some {ds : List Char} (hne : ds ≠ []) (hds : ∀ c ∈ ds, c.isDigit = true) : Fraction ('.' :: ds)

/-- The exponent of a number, if there is one. -/
inductive Exponent : List Char → Prop
  | none : Exponent []
  | some {e : Char} {sign ds : List Char} (he : e = 'e' ∨ e = 'E') (hsign : sign ∈ [[], ['+'], ['-']]) (hne : ds ≠ [])
      (hds : ∀ c ∈ ds, c.isDigit = true) : Exponent (e :: (sign ++ ds))

/-- The words that the grammar allows. -/
inductive Word : List Char → Prop
  | name {w : List Char} (h : w ∈ [['n', 'u', 'l', 'l'], ['t', 'r', 'u', 'e'], ['f', 'a', 'l', 's', 'e']]) : Word w
  | number {minus whole fraction exponent : List Char} (hminus : minus ∈ [[], ['-']]) (hne : whole ≠ [])
      (hwhole : ∀ c ∈ whole, c.isDigit = true) (hzero : whole.head? = some '0' → whole = ['0'])
      (hfraction : Fraction fraction) (hexponent : Exponent exponent) :
      Word (minus ++ (whole ++ (fraction ++ exponent)))

theorem exists_exponent? {cs : List Char} (h : Exponent cs) : ∃ e, exponent? cs = some e := by
  cases h with
  | none => exact ⟨_, rfl⟩
  | @some e sign ds he hsign hne hds =>
    have hall : ds.all Char.isDigit = true := List.all_eq_true.mpr hds
    have hletter : (e != 'e' && e != 'E') = false := by rcases he with rfl | rfl <;> rfl
    simp only [List.mem_cons, List.not_mem_nil, or_false] at hsign
    unfold exponent?
    rcases hsign with rfl | rfl | rfl
    · -- the first digit is no sign
      obtain ⟨d, ds, rfl⟩ := List.exists_cons_of_ne_nil hne
      have hd := hds d List.mem_cons_self
      simp only [hletter, Bool.false_eq_true, if_false, List.nil_append]
      split
      · rename_i heq
        exact absurd (List.cons.inj heq).1 (ne_of_test hd rfl)
      · rename_i heq
        exact absurd (List.cons.inj heq).1 (ne_of_test hd rfl)
      · simp [hall]
    · simp [hletter, hall, hne]
    · simp [hletter, hall, hne]

theorem takeDigits_append {ds rest : List Char} (hds : ∀ c ∈ ds, c.isDigit = true)
    (hrest : ∀ c ∈ rest.head?, c.isDigit = false) : takeDigits (ds ++ rest) = (ds, rest) := by
  cases rest with
  | nil => rw [List.append_nil, takeDigits, span_of_all hds]
  | cons c rest => exact span_append_cons hds (hrest c rfl)

theorem Exponent.head {cs : List Char} (h : Exponent cs) : ∀ c ∈ cs.head?, c = 'e' ∨ c = 'E' := by
  intro c hc
  cases h with
  | none => cases hc
  | some he _ _ _ => exact Option.some.inj hc ▸ he

theorem exists_magnitude? (negative : Bool) {whole fraction exponent : List Char} (hne : whole ≠ [])
    (hwhole : ∀ c ∈ whole, c.isDigit = true) (hzero : whole.head? = some '0' → whole = ['0'])
    (hfraction : Fraction fraction) (hexponent : Exponent exponent) :
    ∃ v, magnitude? negative (whole ++ (fraction ++ exponent)) = some v := by
  obtain ⟨e, he⟩ := exists_exponent? hexponent
  have hbehind : ∀ c ∈ exponent.head?, c.isDigit = false := by
    intro c hc
    rcases hexponent.head c hc with rfl | rfl <;> rfl
  have hwell : (whole.isEmpty || (decide (whole.length > 1) && whole.head? == some '0')) = false := by
    by_cases h0 : whole.head? = some '0'
    · rw [hzero h0]
      rfl
    · simp [h0, hne]
  unfold magnitude?
  cases hfraction with
  | none =>
    rw [List.nil_append, takeDigits_append hwhole hbehind]
    simp only [hwell, Bool.false_eq_true, if_false]
    split
    · -- a fraction would begin with a point
      rename_i r
      rcases hexponent.head _ rfl with h | h <;> cases h
    · cases e <;> simp [he]
  | some hne hds =>
    rw [List.cons_append, takeDigits_append hwhole (by simp)]
    simp [hwell, he, hne, takeDigits_append hds hbehind]

theorem exists_wordValue? {w : List Char} (h : Word w) : ∃ v, wordValue? w = some v := by
  cases h with
  | name h =>
    simp only [List.mem_cons, List.not_mem_nil, or_false] at h
    rcases h with rfl | rfl | rfl <;> exact ⟨_, rfl⟩
  | @number minus whole fraction exponent hminus hne hwhole hzero hfraction hexponent =>
    have hmagnitude := fun negative => exists_magnitude? negative hne hwhole hzero hfraction hexponent
    simp only [List.mem_cons, List.not_mem_nil, or_false] at hminus
    unfold wordValue?
    split
    -- a number that is spelled like a name would have the value of the name
    iterate 6 exact ⟨_, rfl⟩
    rcases hminus with rfl | rfl
    · split
      · rename_i rest heq
        obtain ⟨d, ds, rfl⟩ := List.exists_cons_of_ne_nil hne
        exact absurd (List.cons.inj heq).1 (ne_of_test (hwhole d List.mem_cons_self) rfl)
      · exact hmagnitude false
    · exact hmagnitude true

/-! ## Phrases -/

/-- The parts of a document. -/
inductive Part where
  /-- A value. -/
  | value
  /-- The values of a list behind its opening bracket, and its closing bracket. -/
  | items
  /-- The entries of a mapping behind its opening brace, and its closing brace. -/
  | entries

/-- The token sequences that the grammar allows as parts of a document. -/
inductive Phrase : Part → List Token → Prop
  | text (s : String) : Phrase .value [.text s]
  | word {w : List Char} (h : Word w) : Phrase .value [.word w]
  | emptyList : Phrase .value [.openList, .closeList]
  | list {ts : List Token} (h : Phrase .items ts) : Phrase .value (.openList :: ts)
  | emptyMap : Phrase .value [.openMap, .closeMap]
  | map {ts : List Token} (h : Phrase .entries ts) : Phrase .value (.openMap :: ts)
  | lastItem {ts : List Token} (h : Phrase .value ts) : Phrase .items (ts ++ [.closeList])
  | item {ts us : List Token} (h : Phrase .value ts) (hs : Phrase .items us) : Phrase .items (ts ++ .comma :: us)
  | lastEntry (key : String) {ts : List Token} (h : Phrase .value ts) :
      Phrase .entries (.text key :: .colon :: (ts ++ [.closeMap]))
  | entry (key : String) {ts us : List Token} (h : Phrase .value ts) (hs : Phrase .entries us) :
      Phrase .entries (.text key :: .colon :: (ts ++ .comma :: us))

namespace State

/-- What reading a part comes to: a value, whatever is open around the part and whatever follows it. -/
def Reads : Part → List Token → Prop
  | .value, ts => ∃ v, ∀ stack rest, run (.want stack) (ts ++ rest) = run (.done v stack) rest
  | .items, ts => ∀ items, ∃ v, ∀ stack rest,
      run (.want (.inList items :: stack)) (ts ++ rest) = run (.done v stack) rest
  | .entries, ts => ∀ entries, ∃ v, ∀ stack rest, run (.wantKey entries stack) (ts ++ rest) = run (.done v stack) rest

theorem run_cons {s s' : State} {t : Token} (h : s.step t = some s') (ts : List Token) :
    s.run (t :: ts) = s'.run ts := by
  rw [run, h, Option.bind_some]

/-- A list that was just opened goes on like any other, unless it is closed at once. -/
theorem run_wantFirst (stack : List Frame) {t : Token} (ht : t.isCloser = false) (ts : List Token) :
    run (.wantFirst stack) (t :: ts) = run (.want (.inList [] :: stack)) (t :: ts) := by
  cases t with
  | closeList => cases ht
  | _ => rfl

/-- A mapping that was just opened goes on like any other, unless it is closed at once. -/
theorem run_wantFirstKey (stack : List Frame) {t : Token} (ht : t.isCloser = false) (ts : List Token) :
    run (.wantFirstKey stack) (t :: ts) = run (.wantKey [] stack) (t :: ts) := by
  cases t with
  | closeMap => cases ht
  | _ => rfl

end State

/-- A part begins with a token that closes nothing. -/
theorem Phrase.exists_cons {p : Part} {ts : List Token} (h : Phrase p ts) :
    ∃ t us, ts = t :: us ∧ t.isCloser = false := by
  induction h with
  | lastItem _ ih | item _ _ ih =>
    obtain ⟨t, us, rfl, ht⟩ := ih
    exact ⟨t, _, rfl, ht⟩
  | _ => exact ⟨_, _, rfl, rfl⟩

open State in
/-- Every part that the grammar allows is read. -/
theorem Phrase.reads {p : Part} {ts : List Token} (h : Phrase p ts) : Reads p ts := by
  -- by induction on the grammar; the values and entries that are open already are generalized in `Reads`
  induction h with
  | text s => exact ⟨.text s, fun stack rest => rfl⟩
  | word h =>
    obtain ⟨v, hv⟩ := exists_wordValue? h
    refine ⟨v, fun stack rest => run_cons ?_ rest⟩
    rw [step, begin?, hv, Option.map_some]
  | emptyList => exact ⟨.list [], fun stack rest => rfl⟩
  | list h ih =>
    obtain ⟨v, hv⟩ := ih []
    obtain ⟨t, us, rfl, ht⟩ := h.exists_cons
    refine ⟨v, fun stack rest => ?_⟩
    rw [List.cons_append, run_cons rfl, List.cons_append, run_wantFirst stack ht]
    exact hv stack rest
  | emptyMap => exact ⟨.map [], fun stack rest => rfl⟩
  | map h ih =>
    obtain ⟨v, hv⟩ := ih []
    obtain ⟨t, us, rfl, ht⟩ := h.exists_cons
    refine ⟨v, fun stack rest => ?_⟩
    rw [List.cons_append, run_cons rfl, List.cons_append, run_wantFirstKey stack ht]
    exact hv stack rest
  | lastItem h ih =>
    intro items
    obtain ⟨v, hv⟩ := ih
    refine ⟨.list (v :: items).reverse, fun stack rest => ?_⟩
    rw [List.append_assoc, hv, List.singleton_append, run_cons rfl]
  | item h hs ih ihs =>
    intro items
    obtain ⟨v, hv⟩ := ih
    obtain ⟨w, hw⟩ := ihs (v :: items)
    refine ⟨w, fun stack rest => ?_⟩
    rw [List.append_assoc, hv, List.cons_append, run_cons rfl, hw]
  | lastEntry key h ih =>
    intro entries
    obtain ⟨v, hv⟩ := ih
    refine ⟨.map (Value.putEntry (.text key) v entries), fun stack rest => ?_⟩
    rw [List.cons_append, run_cons rfl, List.cons_append, run_cons rfl, List.append_assoc, hv, List.singleton_append,
      run_cons rfl]
  | entry key h hs ih ihs =>
    intro entries
    obtain ⟨v, hv⟩ := ih
    obtain ⟨w, hw⟩ := ihs (Value.putEntry (.text key) v entries)
    refine ⟨w, fun stack rest => ?_⟩
    rw [List.cons_append, run_cons rfl, List.cons_append, run_cons rfl, List.append_assoc, hv, List.cons_append,
      run_cons rfl, hw]

/-! ## Documents -/

/-- The texts that the grammar allows: the tokens of a value with white space around them. -/
def IsDocument (text : List Char) : Prop :=
  ∃ ts, Laid text ts ∧ Phrase .value ts

/-- The reader accepts every text that the grammar allows. -/
theorem exists_value?_of_isDocument {text : List Char} (h : IsDocument text) : ∃ v, value? text = some v := by
  obtain ⟨ts, hlaid, hphrase⟩ := h
  obtain ⟨v, hv⟩ := hphrase.reads
  have hvalue : valueOfTokens? ts = some v := by
    have hrun := hv [] []
    rw [List.append_nil] at hrun
    rw [valueOfTokens?, hrun]
    rfl
  refine ⟨v, ?_⟩
  rw [value?, tokens?_laid hlaid (isChain_joins_of_value hvalue), Option.bind_some, hvalue]

end ExportAudit.Json
