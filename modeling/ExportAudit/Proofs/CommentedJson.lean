import Mathlib
import ExportAudit.Proofs.Lexeme

/-!
# Documents written with comments and trailing commas

- `Filler`, `Slot`, `Document`: a sequence of tokens as it is written, with white space and comments before each token
  and with a trailing comma before some closing brackets;
- stripping leaves the tokens and the white space, and those trailing commas that a comment follows (`strip_slots`);
- so a document is read as its tokens say exactly when no comment stands between a trailing comma and its bracket
  (`strip_keeps_value`).
-/

namespace ExportAudit.Json

/-! ## Written documents -/

/-- What may stand between two tokens. -/
inductive Filler where
  | blank (c : Char) (h : isSpace c = true)
  | line (body : List Char) (h : '\n' ∉ body)
  | block (body : List Char) (h : ¬ ['*', '/'] <:+: body)

namespace Filler

def text : Filler → List Char
  | blank c _ => [c]
  | line body _ => '/' :: '/' :: (body ++ ['\n'])
  | block body _ => '/' :: '*' :: (body ++ ['*', '/'])

/-- What stripping leaves: the line break that ends a comment is not part of it. -/
def left : Filler → List Char
  | blank c _ => [c]
  | line _ _ => ['\n']
  | block _ _ => []

def isBlank : Filler → Bool
  | blank _ _ => true
  | _ => false

end Filler

/-- What stands between two tokens. -/
abbrev Gap := List Filler

def Gap.text (g : Gap) : List Char :=
  g.flatMap Filler.text

def Gap.left (g : Gap) : List Char :=
  g.flatMap Filler.left

/-- A token with what stands before it. A trailing comma, with what follows it, may stand before a closing bracket. -/
structure Slot where
  gap : Gap
  trailing : Option Gap := none
  lexeme : Lexeme
  closes : trailing.isSome = true → lexeme.token.isCloser = true

namespace Slot

def text (s : Slot) : List Char :=
  s.gap.text ++ (s.trailing.elim [] fun g => ',' :: Gap.text g) ++ s.lexeme.spelling

/-- Whether only white space stands between a trailing comma and its bracket. -/
def isClear (s : Slot) : Bool :=
  s.trailing.all fun g => g.all Filler.isBlank

def left (s : Slot) : List Char :=
  s.gap.left ++ (if s.isClear then [] else [',']) ++ s.trailing.elim [] Gap.left ++ s.lexeme.spelling

def leftTokens (s : Slot) : List Token :=
  (if s.isClear then [] else [.comma]) ++ [s.lexeme.token]

end Slot

/-- A document as it is written. A comment that the end of the text ends may stand last. -/
structure Document where
  slots : List Slot
  gap : Gap := []
  remark : Option {body : List Char // '\n' ∉ body} := none

namespace Document

/-- The tokens of a document; trailing commas are not among them. -/
def tokens (doc : Document) : List Token :=
  doc.slots.map (·.lexeme.token)

def ending (doc : Document) : List Char :=
  doc.gap.text ++ doc.remark.elim [] fun body => '/' :: '/' :: body.val

def text (doc : Document) : List Char :=
  doc.slots.flatMap Slot.text ++ doc.ending

/-- Whether no comment stands between a trailing comma and its bracket. -/
def isClear (doc : Document) : Bool :=
  doc.slots.all Slot.isClear

end Document

/-! ## Gaps -/

theorem closeComment?_body {body : List Char} (h : ¬ ['*', '/'] <:+: body) (rest : List Char) :
    closeComment? (body ++ '*' :: '/' :: rest) = some rest := by
  induction body with
  | nil => rfl
  | cons c body ih =>
    have ih' := ih fun hin => h (hin.trans (List.suffix_cons c body).isInfix)
    rw [List.cons_append, closeComment?]
    · exact ih'
    · -- no comment ends at `c`, since the body does not hold its end
      rintro rest' rfl heq
      cases body with
      | nil => cases heq
      | cons d body =>
        obtain ⟨rfl, -⟩ := List.cons.inj heq
        exact h ⟨[], body, rfl⟩

theorem strip_filler (f : Filler) (rest : List Char) : strip (f.text ++ rest) = f.left ++ strip rest := by
  cases f with
  | blank c h => exact strip_cons (ne_of_test h rfl) (ne_of_test h rfl) (ne_of_test h rfl) rest
  | line body h =>
    have hdrop : (body ++ ['\n'] ++ rest).dropWhile (· != '\n') = '\n' :: rest := by
      rw [List.append_assoc, List.dropWhile_append_of_pos (bne_of_not_mem h)]
      rfl
    show strip ('/' :: '/' :: (body ++ ['\n'] ++ rest)) = '\n' :: strip rest
    rw [strip, hdrop, strip_cons (by decide) (by decide) (by decide)]
  | block body h =>
    have hclose : closeComment? (body ++ ['*', '/'] ++ rest) = some rest := by
      rw [List.append_assoc]
      exact closeComment?_body h rest
    show strip ('/' :: '*' :: (body ++ ['*', '/'] ++ rest)) = strip rest
    rw [strip]
    split
    · rename_i after heq
      rw [hclose] at heq
      rw [Option.some.inj heq]
    · rename_i heq
      rw [hclose] at heq
      cases heq

theorem strip_gap (g : Gap) (rest : List Char) : strip (g.text ++ rest) = g.left ++ strip rest := by
  induction g with
  | nil => rfl
  | cons f g ih =>
    simp only [Gap.text, Gap.left, List.flatMap_cons, List.append_assoc] at ih ⊢
    rw [strip_filler, ih]

/-- Behind a gap comes a closing bracket exactly when the gap is blank and the bracket follows it. -/
theorem beforeClose_gap (g : Gap) (rest : List Char) :
    beforeClose (g.text ++ rest) = (g.all Filler.isBlank && beforeClose rest) := by
  induction g with
  | nil => rfl
  | cons f g ih =>
    simp only [Gap.text, List.flatMap_cons, List.append_assoc, List.all_cons] at ih ⊢
    cases f with
    | blank c h =>
      rw [Filler.text, List.singleton_append, beforeClose, ih, isBlank_of_isSpace h,
        beq_eq_false_iff_ne.mpr (ne_of_test h rfl), beq_eq_false_iff_ne.mpr (ne_of_test h rfl)]
      rfl
    | line => rfl
    | block => rfl

theorem isSpace_of_mem_left {f : Filler} {c : Char} (h : c ∈ f.left) : isSpace c = true := by
  cases f with
  | blank d hd => rw [List.mem_singleton.mp h]; exact hd
  | line => rw [List.mem_singleton.mp h]; rfl
  | block => cases h

/-- No token stands in a gap. -/
theorem tokens?_gap (g : Gap) (rest : List Char) : tokens? (g.left ++ rest) = tokens? rest := by
  have hspaces : ∀ cs : List Char, (∀ c ∈ cs, isSpace c = true) → tokens? (cs ++ rest) = tokens? rest := by
    intro cs hcs
    induction cs with
    | nil => rfl
    | cons c cs ih =>
      rw [List.cons_append, tokens?_space (hcs c List.mem_cons_self), ih fun d hd => hcs d (List.mem_cons_of_mem _ hd)]
  apply hspaces
  intro c hc
  obtain ⟨f, -, hf⟩ := List.mem_flatMap.mp hc
  exact isSpace_of_mem_left hf

theorem startsWord_gap (g : Gap) {rest : List Char} (h : startsWord rest = false) :
    startsWord (g.left ++ rest) = false := by
  cases hg : g.left with
  | nil => exact h
  | cons c cs =>
    obtain ⟨f, -, hf⟩ := List.mem_flatMap.mp (show c ∈ g.left by rw [hg]; exact List.mem_cons_self)
    exact isWordChar_of_isSpace (isSpace_of_mem_left hf)

/-! ## Slots -/

/-- Stripping a slot leaves its token, and its trailing comma when a comment follows it. -/
theorem strip_slot (s : Slot) {rest : List Char} (h : s.lexeme.token = .comma → beforeClose rest = false) :
    strip (s.text ++ rest) = s.left ++ strip rest := by
  obtain ⟨gap, trailing, ⟨token, spelling, spells⟩, closes⟩ := s
  simp only [Slot.text, Slot.left, List.append_assoc, strip_gap]
  congr 1
  cases trailing with
  | none => exact strip_spelling spells h
  | some g =>
    have hclose : beforeClose (g.text ++ (spelling ++ rest)) =
        Slot.isClear ⟨gap, some g, ⟨token, spelling, spells⟩, closes⟩ := by
      rw [beforeClose_gap, beforeClose_spelling spells, closes rfl, Bool.and_true]
      rfl
    simp only [Option.elim_some, List.cons_append, strip_comma, hclose, strip_gap, strip_spelling spells h]
    split <;> rfl

theorem beforeClose_slot (s : Slot) (h : s.lexeme.token.isCloser = false) (rest : List Char) :
    beforeClose (s.text ++ rest) = false := by
  obtain ⟨gap, trailing, ⟨token, spelling, spells⟩, closes⟩ := s
  have hnone : trailing = none := by
    rw [← Option.not_isSome_iff_eq_none]
    intro hsome
    rw [closes hsome] at h
    cases h
  simp only [Slot.text, hnone, Option.elim_none, List.append_nil, List.append_assoc]
  rw [beforeClose_gap, beforeClose_spelling spells, h, Bool.and_false]

theorem tokens?_slot (s : Slot) {rest : List Char} (h : s.lexeme.token.isWord = true → startsWord rest = false) :
    tokens? (s.left ++ rest) = (tokens? rest).map (s.leftTokens ++ ·) := by
  obtain ⟨gap, trailing, ⟨token, spelling, spells⟩, closes⟩ := s
  have htrailing : tokens? (trailing.elim [] Gap.left ++ (spelling ++ rest)) = (tokens? rest).map (token :: ·) := by
    cases trailing with
    | none => exact tokens?_spelling spells h
    | some g => exact (tokens?_gap g _).trans (tokens?_spelling spells h)
  simp only [Slot.left, Slot.leftTokens, List.append_assoc, tokens?_gap]
  split
  · exact htrailing
  · rw [List.singleton_append, tokens?_punctuation rfl, htrailing, Option.map_map]
    rfl

theorem startsWord_slot (s : Slot) (h : s.lexeme.token.isWord = false) (rest : List Char) :
    startsWord (s.left ++ rest) = false := by
  obtain ⟨gap, trailing, ⟨token, spelling, spells⟩, closes⟩ := s
  have hspelling : startsWord (spelling ++ rest) = false := (startsWord_spelling spells rest).trans h
  simp only [Slot.left, List.append_assoc]
  apply startsWord_gap
  split
  · cases trailing with
    | none => exact hspelling
    | some g => exact startsWord_gap g hspelling
  · rfl

/-! ## Documents -/

/-- Stripping slots whose tokens join leaves what it leaves of each of them. -/
theorem strip_slots {slots : List Slot} {tail : List Char} (hjoin : (slots.map (·.lexeme.token)).IsChain Joins)
    (htail : beforeClose tail = false) :
    strip (slots.flatMap Slot.text ++ tail) = slots.flatMap Slot.left ++ strip tail := by
  induction slots with
  | nil => rfl
  | cons s slots ih =>
    have hnext : s.lexeme.token = .comma → beforeClose (slots.flatMap Slot.text ++ tail) = false := by
      intro hcomma
      cases slots with
      | nil => exact htail
      | cons s' slots =>
        have hjoins := (List.isChain_cons_cons.mp hjoin).1
        rw [List.flatMap_cons, List.append_assoc]
        exact beforeClose_slot s' (Bool.eq_false_iff.mpr fun hc => hjoins.2 ⟨hcomma, hc⟩) _
    rw [List.flatMap_cons, List.flatMap_cons, List.append_assoc, List.append_assoc, strip_slot s hnext,
      ih hjoin.tail]

/-- What stripping leaves of slots whose tokens join is read as the tokens that are left. -/
theorem tokens?_slots {slots : List Slot} {tail : List Char} (hjoin : (slots.map (·.lexeme.token)).IsChain Joins)
    (htail : startsWord tail = false) :
    tokens? (slots.flatMap Slot.left ++ tail) = (tokens? tail).map (slots.flatMap Slot.leftTokens ++ ·) := by
  induction slots with
  | nil => simp
  | cons s slots ih =>
    have hnext : s.lexeme.token.isWord = true → startsWord (slots.flatMap Slot.left ++ tail) = false := by
      intro hword
      cases slots with
      | nil => exact htail
      | cons s' slots =>
        have hjoins := (List.isChain_cons_cons.mp hjoin).1
        rw [List.flatMap_cons, List.append_assoc]
        exact startsWord_slot s' (Bool.eq_false_iff.mpr fun hw => hjoins.1 ⟨hword, hw⟩) _
    rw [List.flatMap_cons, List.flatMap_cons, List.append_assoc, tokens?_slot s hnext, ih hjoin.tail, Option.map_map]
    simp only [Function.comp_def, List.append_assoc]

theorem strip_ending (doc : Document) : strip doc.ending = doc.gap.left := by
  unfold Document.ending
  rw [strip_gap]
  cases doc.remark with
  | none => simp [strip]
  | some body =>
    simp only [Option.elim_some]
    rw [strip, List.dropWhile_eq_nil_iff.mpr (bne_of_not_mem body.property), strip, List.append_nil]

theorem beforeClose_ending (doc : Document) : beforeClose doc.ending = false := by
  unfold Document.ending
  rw [beforeClose_gap]
  cases doc.remark <;> exact Bool.and_false _

/-- Stripping a document whose tokens join leaves text that is read as the tokens of its slots. -/
theorem tokens?_strip {doc : Document} (hjoin : doc.tokens.IsChain Joins) :
    tokens? (strip doc.text) = some (doc.slots.flatMap Slot.leftTokens) := by
  have hgap : tokens? doc.gap.left = some [] := by
    rw [← List.append_nil doc.gap.left, tokens?_gap, tokens?]
  have hword : startsWord doc.gap.left = false := by
    rw [← List.append_nil doc.gap.left]
    exact startsWord_gap doc.gap rfl
  unfold Document.text
  rw [strip_slots hjoin (beforeClose_ending doc), strip_ending, tokens?_slots hjoin hword, hgap]
  simp

theorem leftTokens_of_isClear {slots : List Slot} (h : ∀ s ∈ slots, s.isClear = true) :
    slots.flatMap Slot.leftTokens = slots.map (·.lexeme.token) := by
  induction slots with
  | nil => rfl
  | cons s slots ih =>
    rw [List.flatMap_cons, List.map_cons, ih fun s' hs' => h s' (List.mem_cons_of_mem _ hs'), Slot.leftTokens,
      if_pos (h s List.mem_cons_self)]
    rfl

/-- A trailing comma that is left has no value in its place. -/
theorem valueOfTokens?_of_not_isClear {slots : List Slot} {s : Slot} (hs : s ∈ slots) (h : s.isClear = false) :
    valueOfTokens? (slots.flatMap Slot.leftTokens) = none := by
  have hcloser : s.lexeme.token.isCloser = true := by
    apply s.closes
    cases htrailing : s.trailing with
    | none => simp [Slot.isClear, htrailing] at h
    | some g => rfl
  have hleft : s.leftTokens = [.comma, s.lexeme.token] := by simp [Slot.leftTokens, h]
  obtain ⟨before, after, rfl⟩ := List.append_of_mem hs
  by_contra hvalue
  obtain ⟨v, hv⟩ := Option.ne_none_iff_exists'.mp hvalue
  have hjoin := isChain_joins_of_value hv
  rw [List.flatMap_append, List.flatMap_cons, hleft, List.cons_append, List.cons_append,
    List.isChain_append_cons_cons] at hjoin
  exact hjoin.2.1.2 ⟨rfl, hcloser⟩

/-- A document with a value, written with white space, comments and trailing commas, keeps its value when it is
stripped, unless a comment stands between a trailing comma and its bracket; then it is no document any more. -/
theorem strip_keeps_value {source : List Char} {v : Value} (hv : value? source = some v) (doc : Document)
    (hdoc : tokens? source = some doc.tokens) :
    value? (strip doc.text) = if doc.isClear then some v else none := by
  have hvalue : valueOfTokens? doc.tokens = some v := by
    rw [value?, hdoc] at hv
    exact hv
  rw [value?, tokens?_strip (isChain_joins_of_value hvalue), Option.bind_some]
  split
  · rename_i hclear
    rw [leftTokens_of_isClear (List.all_eq_true.mp hclear)]
    exact hvalue
  · rename_i hclear
    obtain ⟨s, hs, h⟩ := List.all_eq_false.mp (Bool.eq_false_iff.mpr hclear)
    exact valueOfTokens?_of_not_isClear hs (Bool.eq_false_iff.mpr h)

/-- A mark of punctuation behind a gap. -/
def Slot.mark (gap : Gap) (c : Char) (t : Token) (h : punctuation? c = some t) : Slot :=
  ⟨gap, none, ⟨t, [c], .punctuation h⟩, fun h => nomatch h⟩

/-- The document `{"a": [1]}` with what is given around a trailing comma in its list, and with a comment at its end. -/
def listWith (before after : Gap) : Document where
  slots := [.mark [] '{' .openMap rfl,
    ⟨[], none, ⟨_, ['"', 'a', '"'], .text (.plain (by decide) (by decide) (by decide) .close)⟩, fun h => nomatch h⟩,
    .mark [] ':' .colon rfl,
    .mark [.blank ' ' rfl] '[' .openList rfl,
    ⟨[], none, ⟨_, ['1'], .word (by decide) (List.forall_mem_singleton.mpr rfl)⟩, fun h => nomatch h⟩,
    ⟨before, some after, ⟨_, [']'], .punctuation rfl⟩, fun _ => rfl⟩,
    .mark [] '}' .closeMap rfl]
  remark := some ⟨['!'], by decide⟩

/-- The same document without comments. -/
def listSource : List Char :=
  "\x7b\"a\": [1]\x7d".toList

theorem strip_keeps_value_listWith :
    (listWith [.block [' ', ']'] (by decide)] [.blank ' ' rfl]).text = "\x7b\"a\": [1/* ]*/, ]\x7d//!".toList ∧
      value? (strip (listWith [.block [' ', ']'] (by decide)] [.blank ' ' rfl]).text) =
        some (.map [(.text "a", .list [.int 1])]) := by
  have hvalue : value? listSource = some (.map [(.text "a", .list [.int 1])]) := by cbv
  exact ⟨by decide +kernel, strip_keeps_value hvalue (listWith _ _) (by cbv)⟩

/-- A comment behind a trailing comma keeps the comma, and the document is lost. -/
theorem strip_comment_behind_comma :
    value? listSource = some (.map [(.text "a", .list [.int 1])]) ∧
      tokens? listSource = some (listWith [] [.block ['c'] (by decide)]).tokens ∧
      (listWith [] [.block ['c'] (by decide)]).text = "\x7b\"a\": [1,/*c*/]\x7d//!".toList ∧
      value? (strip (listWith [] [.block ['c'] (by decide)]).text) = none := by
  have htext : (listWith [] [.block ['c'] (by decide)]).text = "\x7b\"a\": [1,/*c*/]\x7d//!".toList := by
    decide +kernel
  refine ⟨by cbv, by cbv, htext, ?_⟩
  rw [htext]
  cbv

end ExportAudit.Json
