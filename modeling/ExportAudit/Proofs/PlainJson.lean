import Mathlib
import ExportAudit.CompilerConfig
import ExportAudit.Proofs.Failures
import ExportAudit.Proofs.JsonGrammar

/-!
# Documents without comments

- Stripping leaves a text as it is when its tokens join (`strip_laid`), so it leaves every document as it is
  (`strip_eq_self`);
- a document keeps its tokens when its line ends are unified (`Laid.unixLines`), so it is read the same with comments
  allowed as without (`commentedValue?_of_value?`);
- `loadPlain`: reading a file that has no comments; reading it with comments allowed gives the same
  (`plain_untouched`).
-/

namespace ExportAudit

namespace Json

/-! ## Stripping -/

/-- A closing bracket comes next only if the first token is one. -/
theorem Laid.beforeClose_eq_false {cs : List Char} {ts : List Token} (h : Laid cs ts)
    (hts : ∀ t ∈ ts.head?, t.isCloser = false) : beforeClose cs = false := by
  induction h with
  | nil => rfl
  | space h _ ih =>
    have hbrackets : ∀ {d : Char}, isSpace d = false → ∀ {c : Char}, isSpace c = true → (c == d) = false :=
      fun hd _ hc => beq_eq_false_iff_ne.mpr (ne_of_test hc hd)
    rw [beforeClose, hbrackets rfl h, hbrackets rfl h, ih hts, Bool.and_false]
    rfl
  | @token spelling cs t ts h _ _ => exact (beforeClose_spelling h cs).trans (hts t rfl)

/-- Stripping passes over tokens that join, and over the white space between them. -/
theorem strip_laid {cs : List Char} {ts : List Token} (h : Laid cs ts) (hjoin : ts.IsChain Joins) : strip cs = cs := by
  induction h with
  | nil => rw [strip]
  | space h _ ih => rw [strip_cons (ne_of_test h rfl) (ne_of_test h rfl) (ne_of_test h rfl), ih hjoin]
  | @token spelling cs t ts h hcs ih =>
    have hnext : t = .comma → beforeClose cs = false := by
      intro hcomma
      refine hcs.beforeClose_eq_false fun u hu => ?_
      exact Bool.eq_false_iff.mpr fun hclose => ((List.isChain_cons.mp hjoin).1 u hu).2 ⟨hcomma, hclose⟩
    rw [strip_spelling h hnext, ih hjoin.tail]

/-- The tokens of a document, as it is laid out with them. -/
theorem exists_laid_of_value? {text : List Char} {v : Value} (h : value? text = some v) :
    ∃ ts, Laid text ts ∧ ts.IsChain Joins ∧ valueOfTokens? ts = some v := by
  obtain ⟨ts, hts, hv⟩ := Option.bind_eq_some_iff.mp h
  exact ⟨ts, laid_of_tokens? hts, isChain_joins_of_value hv, hv⟩

theorem strip_eq_self {text : List Char} {v : Value} (h : value? text = some v) : strip text = text := by
  obtain ⟨ts, hlaid, hjoin, -⟩ := exists_laid_of_value? h
  exact strip_laid hlaid hjoin

/-! ## Line ends -/

theorem unixLines_append {a : List Char} (h : '\r' ∉ a) (b : List Char) :
    Text.unixLines (a ++ b) = a ++ Text.unixLines b := by
  induction a with
  | nil => rfl
  | cons c a ih =>
    rw [List.mem_cons, not_or] at h
    rw [List.cons_append, Text.unixLines_cons (Ne.symm h.1), ih h.2, List.cons_append]

/-- A carriage return is white space: behind it, what follows begins with a line feed or one is put there. -/
theorem unixLines_return (cs : List Char) :
    Text.unixLines ('\r' :: cs) = Text.unixLines cs ∨ Text.unixLines ('\r' :: cs) = '\n' :: Text.unixLines cs := by
  by_cases h : cs.head? = some '\n'
  · obtain ⟨rest, rfl⟩ := List.head?_eq_some_iff.mp h
    have hfeed : Text.unixLines ('\n' :: rest) = '\n' :: Text.unixLines rest := Text.unixLines_cons (by decide) rest
    rw [hfeed]
    exact Or.inl (by rw [Text.unixLines])
  · refine Or.inr ?_
    rw [Text.unixLines]
    rintro rest rfl
    exact h rfl

/-- No carriage return stands in a text. -/
theorem TextBody.not_mem_return {cs : List Char} {ns : List Nat} (h : TextBody cs ns) : '\r' ∉ cs := by
  induction h with
  | close => decide
  | @unit a b c d n cs ns h _ ih =>
    have hdigits : '\r' ∉ [a, b, c, d] := by
      intro hmem
      obtain ⟨m, hm⟩ := exists_hexValue?_of_hex4? h _ hmem
      cases hm
    simp only [List.mem_cons, List.not_mem_nil, not_or] at hdigits ⊢
    simp [hdigits, ih]
  | @escape c e cs ns h _ ih =>
    have hc : c ≠ '\r' := by
      rintro rfl
      cases h
    simp [Ne.symm hc, ih]
  | @plain c cs ns hc _ _ _ ih =>
    have hc : c ≠ '\r' := by
      rintro rfl
      exact absurd hc (by decide)
    simp [Ne.symm hc, ih]

theorem Spells.not_mem_return {cs : List Char} {t : Token} (h : Spells cs t) : '\r' ∉ cs := by
  cases h with
  | @punctuation c t h =>
    rw [List.mem_singleton]
    rintro rfl
    cases h
  | text h =>
    rw [List.mem_cons, not_or]
    exact ⟨by decide, h.not_mem_return⟩
  | word _ h => exact fun hmem => absurd (h _ hmem) (by decide)

theorem Laid.unixLines {cs : List Char} {ts : List Token} (h : Laid cs ts) : Laid (Text.unixLines cs) ts := by
  induction h with
  | nil => exact .nil
  | @space c cs ts h _ ih =>
    by_cases hc : c = '\r'
    · subst hc
      rcases unixLines_return cs with heq | heq <;> rw [heq]
      · exact ih
      · exact .space rfl ih
    · rw [Text.unixLines_cons hc]
      exact .space h ih
  | token h _ ih =>
    rw [unixLines_append h.not_mem_return]
    exact .token h ih

theorem value?_unixLines {text : List Char} {v : Value} (h : value? text = some v) :
    value? (Text.unixLines text) = some v := by
  obtain ⟨ts, hlaid, hjoin, hv⟩ := exists_laid_of_value? h
  rw [value?, tokens?_laid hlaid.unixLines hjoin, Option.bind_some, hv]

end Json

/-! ## Files -/

/-- A document has no byte order mark. -/
theorem dropByteOrderMark_eq_self {text : List Char} {v : Value} (h : Json.value? text = some v) :
    dropByteOrderMark text = text := by
  cases text with
  | nil => rfl
  | cons c cs =>
    rw [dropByteOrderMark, if_neg]
    intro hmark
    -- the mark is neither white space nor the beginning of a token
    obtain rfl : c = Char.ofNat 0xFEFF := by rw [← eq_of_beq hmark, Char.ofNat_toNat]
    have hnone : Json.tokens? (Char.ofNat 0xFEFF :: cs) = none := by
      rw [Json.tokens?]
      rfl
    rw [Json.value?, hnone] at h
    cases h

theorem commentedValue?_of_value? {text : List Char} {v : Value} (h : Json.value? text = some v) :
    commentedValue? text = some v := by
  have hlines := Json.value?_unixLines h
  unfold commentedValue?
  rw [dropByteOrderMark_eq_self hlines, Json.strip_eq_self hlines]
  split
  · rename_i hempty
    rw [hempty] at hlines
    simp [Json.value?, Json.tokens?, Json.valueOfTokens?, Json.State.run, Json.State.result?] at hlines
  · exact hlines

/-- The value of a file of JSON without comments. -/
def loadPlain (d : Disk) (path : String) : Except ConfigFault Value := do
  let bytes ← (d.read path).mapError .file
  let text ← (Text.decode? bytes).elim (.error .notText) .ok
  (Json.value? text).elim (.error .notJson) .ok

/-- A file that is read plainly is UTF-8 text, and a document. -/
theorem exists_of_loadPlain {d : Disk} {path : String} {v : Value} (h : loadPlain d path = .ok v) :
    ∃ bytes text, d.read path = .ok bytes ∧ Text.decode? bytes = some text ∧ Json.value? text = some v := by
  obtain ⟨bytes, hbytes, h⟩ := ok_of_bind h
  obtain ⟨text, htext, h⟩ := ok_of_bind h
  exact ⟨bytes, text, ok_of_mapError hbytes, some_of_elim htext, some_of_elim h⟩

/-- A plain object is read the same with comments allowed. -/
theorem loadCommented_of_loadPlain {d : Disk} {path : String} {entries : List (Value × Value)}
    (h : loadPlain d path = .ok (.map entries)) : loadCommented d path = .ok entries := by
  obtain ⟨bytes, text, hbytes, htext, hvalue⟩ := exists_of_loadPlain h
  unfold loadCommented
  rw [hbytes]
  simp only [Except.mapError, bind, Except.bind, htext, commentedValue?_of_value? hvalue]

/-- Plain JSON passes through untouched: every text that the grammar allows is a document for the reader, stripping
comments leaves a document as it is, and a file with an object in it is read the same with comments allowed as
without. -/
theorem Json.plain_untouched :
    (∀ text, Json.IsDocument text → ∃ v, Json.value? text = some v) ∧
      (∀ text v, Json.value? text = some v → Json.strip text = text) ∧
      ∀ d path entries, loadPlain d path = .ok (.map entries) → loadCommented d path = .ok entries :=
  ⟨fun _ => Json.exists_value?_of_isDocument, fun _ _ => Json.strip_eq_self,
    fun _ _ _ => loadCommented_of_loadPlain⟩

/-- A document whose texts hold the marks of comments and trailing commas. -/
def markedText : String :=
  "\x7b\"a\": \"// /* ,] ,\x7d */ \\\\\\\"\",\r\n \"b\": [1, \x7b\x7d]\x7d"

theorem plain_untouched_marked :
    Json.IsDocument markedText.toList ∧ Json.strip markedText.toList = markedText.toList ∧
      loadCommented ⟨.directory [("t.json", .file markedText.toUTF8 0)], "/"⟩ "/t.json" =
        .ok [(.text "a", .text "// /* ,] ,\x7d */ \\\""), (.text "b", .list [.int 1, .map []])] := by
  have htokens : Json.tokens? markedText.toList = some [.openMap, .text "a", .colon,
      .text "// /* ,] ,\x7d */ \\\"", .comma, .text "b", .colon, .openList, .word ['1'], .comma, .openMap, .closeMap,
      .closeList, .closeMap] := by cbv
  have hone : Json.Word ['1'] :=
    @Json.Word.number [] ['1'] [] [] List.mem_cons_self (by decide) (by simp) (by simp) .none .none
  have hdocument : Json.IsDocument markedText.toList :=
    ⟨_, Json.laid_of_tokens? htokens,
      .map (.entry "a" (.text _) (.lastEntry "b" (.list (.item (.word hone) (.lastItem .emptyMap)))))⟩
  have hload : loadPlain ⟨.directory [("t.json", .file markedText.toUTF8 0)], "/"⟩ "/t.json" =
      .ok (.map [(.text "a", .text "// /* ,] ,\x7d */ \\\""), (.text "b", .list [.int 1, .map []])]) := by cbv
  obtain ⟨v, hv⟩ := Json.plain_untouched.1 _ hdocument
  exact ⟨hdocument, Json.plain_untouched.2.1 _ v hv, Json.plain_untouched.2.2 _ _ _ hload⟩

end ExportAudit
