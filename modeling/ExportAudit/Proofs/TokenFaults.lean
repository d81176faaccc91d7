import Mathlib
import ExportAudit.Proofs.Failures
import ExportAudit.Yaml.Document

/-!
# The faults of YAML tokens and nodes

Reading tokens ends with a fault of form, with a number of an escape or of a version that is too large, or with the fault
behind the text (`Tokens.scan_fault`), and it comes to the end only of a text without a fault behind it
(`Tokens.ends_of_scan`). Reading nodes ends with a fault of form or with the fault behind the tokens
(`Node.ofTokens_fault`), and it comes to an end only if there is none (`Node.ends_of_ofTokens`).

Both readings are loops in a state monad with faults, so the kinds of faults are postconditions of triples: one triple
for each loop, by induction on the bound of its steps, and one for each reading that uses loops. The triples are tagged,
so that a reading is opened once and its parts are used by their triples.
-/

namespace ExportAudit.Yaml

open Std.Do

set_option mvcgen.warning false

/-- Whether a fault is that of a text that is no YAML. -/
def Fault.isMalformed : Fault → Bool
  | .malformed _ => true
  | _ => false

/-- Where a reading ends with a fault, the fault is of a kind. -/
abbrev FaultsIn {σ α : Type} (p : Fault → Prop) : PostCond α (.arg σ (.except Fault .pure)) :=
  post⟨fun _ _ => ⌜True⌝, fun e => ⌜p e⌝⟩

theorem throw_faultsIn {σ α : Type} {p : Fault → Prop} {e : Fault} (h : p e) :
    ⦃⌜True⌝⦄ (throw e : StateT σ (Except Fault) α) ⦃FaultsIn p⦄ := by
  intro s _
  exact h

section Run

variable {σ α : Type} {p : Fault → Prop} {x : StateT σ (Except Fault) α} {s s' : σ}

/-- What a triple says about a run that ends with a fault. -/
theorem fault_of_run {q : α → Prop} {e : Fault} (h : ⦃⌜True⌝⦄ x ⦃post⟨fun a _ => ⌜q a⌝, fun e => ⌜p e⌝⟩⦄)
    (hrun : x.run s = .error e) : p e := by
  have hwp := h s trivial
  simp only [wp, PredTrans.apply_pushArg, hrun] at hwp
  exact hwp

/-- What it says about one that does not. -/
theorem result_of_run {q : α → Prop} {a : α} (h : ⦃⌜True⌝⦄ x ⦃post⟨fun a _ => ⌜q a⌝, fun e => ⌜p e⌝⟩⦄)
    (hrun : x.run s = .ok (a, s')) : q a := by
  have hwp := h s trivial
  simp only [wp, PredTrans.apply_pushArg, hrun] at hwp
  exact hwp

end Run

/-! ## Tokens -/

namespace Lex

variable {s : Source}

/-- A fault of the tokens: the text is no YAML, it ends with a fault, or the number of an escape or of a version is too
large. -/
def IsLexical (s : Source) (e : Fault) : Prop :=
  e.isMalformed = true ∨ s.ends = some e ∨ e = .scalar .codePoint ∨ ∃ count, e = .scalar (.tooManyDigits count)

/-- Tokens have such faults only. -/
abbrev Lexical {α : Type} (s : Source) : PostCond α (.arg Lexer (.except Fault .pure)) :=
  FaultsIn (IsLexical s)

section Characters

-- These readings have no faults, loops or cases, and are opened where they are used.
attribute [spec] column emit steps allowKey

theorem charAt_fault {i : Nat} {e : Fault} (h : s.charAt i = .error e) : s.ends = some e := by
  unfold Source.charAt at h
  cases hchar : s.text[i]? with
  | some c => simp [hchar] at h
  | none => cases hends : s.ends <;> simp_all

/-- A text that ends has no fault behind it, since the end mark is no character of a text. -/
theorem ends_of_charAt {i : Nat} (h : s.charAt i = .ok endMark) : s.ends = none := by
  unfold Source.charAt at h
  cases hchar : s.text[i]? with
  | some c =>
    obtain rfl : c = endMark := by simpa [hchar] using h
    exact absurd (s.allowed endMark (Array.mem_of_getElem? hchar)) (by decide)
  | none => cases hends : s.ends <;> simp_all

theorem peek_ends (ahead : Nat) :
    ⦃⌜True⌝⦄ (peek ahead : Lex s Char)
      ⦃post⟨fun c _ => ⌜c = endMark → s.ends = none⌝, fun e => ⌜IsLexical s e⌝⟩⦄ := by
  mvcgen [peek, -Spec.throw_StateT]
  · rename_i hchar
    rintro rfl
    exact ends_of_charAt hchar
  · rename_i hchar
    exact Or.inr (Or.inl (charAt_fault hchar))

@[spec]
theorem peek_faults (ahead : Nat) : ⦃⌜True⌝⦄ peek (s := s) ahead ⦃Lexical s⦄ := by
  mvcgen [peek_ends]

@[spec]
theorem takeWhile_faults (p : Char → Bool) : ⦃⌜True⌝⦄ takeWhile (s := s) p ⦃Lexical s⦄ := by
  mvcgen [takeWhile]

@[spec]
theorem atDocumentMark_faults : ⦃⌜True⌝⦄ atDocumentMark (s := s) ⦃Lexical s⦄ := by
  mvcgen [atDocumentMark]

@[spec]
theorem malformed_faults {α : Type} (problem : String) : ⦃⌜True⌝⦄ (malformed problem : Lex s α) ⦃Lexical s⦄ :=
  throw_faultsIn (.inl rfl)

@[spec]
theorem forward_faults : ⦃⌜True⌝⦄ forward (s := s) ⦃Lexical s⦄ := by
  mvcgen [forward]

@[spec]
theorem lineBreak_faults : ⦃⌜True⌝⦄ lineBreak (s := s) ⦃Lexical s⦄ := by
  mvcgen [lineBreak]

@[spec]
theorem take_faults (n : Nat) : ⦃⌜True⌝⦄ take (s := s) n ⦃Lexical s⦄ := by
  induction n with
  | zero => mvcgen [take]
  | succ n ih => mvcgen [take, ih]

end Characters

section Quoted

@[spec]
theorem hexAhead_faults (front start n : Nat) :
    ⦃⌜True⌝⦄ hexAhead (s := s) front start n ⦃Lexical s⦄ := by
  induction n generalizing front start with
  | zero => mvcgen [hexAhead]
  | succ n ih => mvcgen [hexAhead, ih]

@[spec]
theorem codePointEscape_faults (width : Nat) : ⦃⌜True⌝⦄ codePointEscape (s := s) width ⦃Lexical s⦄ := by
  mvcgen [codePointEscape, lowSurrogate?, -Spec.throw_StateT]
  exact Or.inr (Or.inr (Or.inl rfl))

@[spec]
theorem quotedBreaks_faults (n : Nat) : ⦃⌜True⌝⦄ quotedBreaks (s := s) n ⦃Lexical s⦄ := by
  induction n with
  | zero => mvcgen [quotedBreaks]
  | succ n ih => mvcgen [quotedBreaks, ih]

@[spec]
theorem quotedWord_faults (double : Bool) (n : Nat) : ⦃⌜True⌝⦄ quotedWord (s := s) double n ⦃Lexical s⦄ := by
  induction n with
  | zero => mvcgen [quotedWord]
  | succ n ih => mvcgen [quotedWord, ih]

@[spec]
theorem quotedRest_faults (double : Bool) (quote : Char) (n : Nat) :
    ⦃⌜True⌝⦄ quotedRest (s := s) double quote n ⦃Lexical s⦄ := by
  induction n with
  | zero => mvcgen [quotedRest]
  | succ n ih => mvcgen [quotedRest, quotedSpaces, ih]

@[spec]
theorem flowScalar_faults (quote : Char) : ⦃⌜True⌝⦄ flowScalar (s := s) quote ⦃Lexical s⦄ := by
  mvcgen [flowScalar]

end Quoted

section Plain

@[spec]
theorem plainBreaks_faults (n : Nat) : ⦃⌜True⌝⦄ plainBreaks (s := s) n ⦃Lexical s⦄ := by
  induction n with
  | zero => mvcgen [plainBreaks]
  | succ n ih => mvcgen [plainBreaks, ih]

@[spec]
theorem plainLength_faults (inFlow : Bool) (n length : Nat) :
    ⦃⌜True⌝⦄ plainLength (s := s) inFlow n length ⦃Lexical s⦄ := by
  induction n generalizing length with
  | zero => mvcgen [plainLength]
  | succ n ih => mvcgen [plainLength, ih]

@[spec]
theorem plainWords_faults (indent : Int) (spaces : String) (n : Nat) :
    ⦃⌜True⌝⦄ plainWords (s := s) indent spaces n ⦃Lexical s⦄ := by
  induction n generalizing spaces with
  | zero => mvcgen [plainWords]
  | succ n ih => mvcgen [plainWords, plainSpaces, ih]

end Plain

section Block

@[spec]
theorem blockHeader_faults : ⦃⌜True⌝⦄ blockHeader (s := s) ⦃Lexical s⦄ := by
  mvcgen [blockHeader, indentationIndicator]

@[spec]
theorem ignoredLine_faults : ⦃⌜True⌝⦄ ignoredLine (s := s) ⦃Lexical s⦄ := by
  mvcgen [ignoredLine]

@[spec]
theorem blockIndentation_faults (deepest n : Nat) : ⦃⌜True⌝⦄ blockIndentation (s := s) deepest n ⦃Lexical s⦄ := by
  induction n generalizing deepest with
  | zero => mvcgen [blockIndentation]
  | succ n ih => mvcgen [blockIndentation, ih]

@[spec]
theorem skipIndent_faults (indent n : Nat) : ⦃⌜True⌝⦄ skipIndent (s := s) indent n ⦃Lexical s⦄ := by
  induction n with
  | zero => mvcgen [skipIndent]
  | succ n ih => mvcgen [skipIndent, ih]

@[spec]
theorem blockBreaks_faults (indent n : Nat) : ⦃⌜True⌝⦄ blockBreaks (s := s) indent n ⦃Lexical s⦄ := by
  induction n with
  | zero => mvcgen [blockBreaks]
  | succ n ih => mvcgen [blockBreaks, ih]

@[spec]
theorem blockLines_faults (folded : Bool) (indent : Nat) (breaks : String) (n : Nat) :
    ⦃⌜True⌝⦄ blockLines (s := s) folded indent breaks n ⦃Lexical s⦄ := by
  induction n generalizing breaks with
  | zero => mvcgen [blockLines]
  | succ n ih => mvcgen [blockLines, ih]

@[spec]
theorem blockScalar_faults (folded : Bool) : ⦃⌜True⌝⦄ blockScalar (s := s) folded ⦃Lexical s⦄ := by
  mvcgen [blockScalar]

end Block

section Marks

@[spec]
theorem anchorName_faults : ⦃⌜True⌝⦄ anchorName (s := s) ⦃Lexical s⦄ := by
  mvcgen [anchorName]

@[spec]
theorem tagEscapes_faults (n : Nat) : ⦃⌜True⌝⦄ tagEscapes (s := s) n ⦃Lexical s⦄ := by
  induction n with
  | zero => mvcgen [tagEscapes]
  | succ n ih => mvcgen [tagEscapes, ih]

@[spec]
theorem tagParts_faults (n : Nat) : ⦃⌜True⌝⦄ tagParts (s := s) n ⦃Lexical s⦄ := by
  induction n with
  | zero => mvcgen [tagParts]
  | succ n ih => mvcgen [tagParts, ih]

@[spec]
theorem tagSuffix_faults : ⦃⌜True⌝⦄ tagSuffix (s := s) ⦃Lexical s⦄ := by
  mvcgen [tagSuffix]

@[spec]
theorem tagHandle_faults : ⦃⌜True⌝⦄ tagHandle (s := s) ⦃Lexical s⦄ := by
  mvcgen [tagHandle]

@[spec]
theorem hasSecondMark_faults (ahead n : Nat) : ⦃⌜True⌝⦄ hasSecondMark (s := s) ahead n ⦃Lexical s⦄ := by
  induction n generalizing ahead with
  | zero => mvcgen [hasSecondMark]
  | succ n ih => mvcgen [hasSecondMark, ih]

@[spec]
theorem tag_faults : ⦃⌜True⌝⦄ tag (s := s) ⦃Lexical s⦄ := by
  mvcgen [tag]

@[spec]
theorem directiveNumber_faults : ⦃⌜True⌝⦄ directiveNumber (s := s) ⦃Lexical s⦄ := by
  mvcgen [directiveNumber, -Spec.throw_StateT]
  exact Or.inr (Or.inr (Or.inr ⟨_, rfl⟩))

@[spec]
theorem directive_faults : ⦃⌜True⌝⦄ directive (s := s) ⦃Lexical s⦄ := by
  mvcgen [directive, versionDirective, handleDirective]

end Marks

section Fetch

@[spec]
theorem skipBlanks_faults (n : Nat) : ⦃⌜True⌝⦄ skipBlanks (s := s) n ⦃Lexical s⦄ := by
  induction n with
  | zero => mvcgen [skipBlanks]
  | succ n ih => mvcgen [skipBlanks, ih]

@[spec]
theorem unwindTo_faults (column : Int) (n : Nat) : ⦃⌜True⌝⦄ unwindTo (s := s) column n ⦃Lexical s⦄ := by
  induction n with
  | zero => mvcgen [unwindTo]
  | succ n ih => mvcgen [unwindTo, ih]

@[spec]
theorem dropStale_faults : ⦃⌜True⌝⦄ dropStale (s := s) ⦃Lexical s⦄ := by
  mvcgen [dropStale]

@[spec]
theorem dropPending_faults : ⦃⌜True⌝⦄ dropPending (s := s) ⦃Lexical s⦄ := by
  mvcgen [dropPending]

@[spec]
theorem notePending_faults : ⦃⌜True⌝⦄ notePending (s := s) ⦃Lexical s⦄ := by
  mvcgen [notePending]

@[spec]
theorem blockIndicator_faults (start t : Token) (keyAfter : Bool) :
    ⦃⌜True⌝⦄ blockIndicator (s := s) start t keyAfter ⦃Lexical s⦄ := by
  mvcgen [blockIndicator, openBlock, allowKey]

@[spec]
theorem fetchValue_faults : ⦃⌜True⌝⦄ fetchValue (s := s) ⦃Lexical s⦄ := by
  mvcgen [fetchValue, openBlock]

@[spec]
theorem toNextToken_faults : ⦃⌜True⌝⦄ toNextToken (s := s) ⦃Lexical s⦄ := by
  mvcgen [toNextToken]

@[spec]
theorem unwind_faults (column : Int) : ⦃⌜True⌝⦄ unwind (s := s) column ⦃Lexical s⦄ := by
  mvcgen [unwind]

@[spec]
theorem startsMark_faults (c : Char) : ⦃⌜True⌝⦄ startsMark (s := s) c ⦃Lexical s⦄ := by
  mvcgen [startsMark]

@[spec]
theorem isIndicator_faults (inFlow : Bool) (c : Char) : ⦃⌜True⌝⦄ isIndicator (s := s) inFlow c ⦃Lexical s⦄ := by
  mvcgen [isIndicator, gapFollows]

@[spec]
theorem startsPlain_faults (inFlow : Bool) (c : Char) : ⦃⌜True⌝⦄ startsPlain (s := s) inFlow c ⦃Lexical s⦄ := by
  mvcgen [startsPlain, gapFollows]

@[spec]
theorem documentMark_faults (t : Token) : ⦃⌜True⌝⦄ documentMark (s := s) t ⦃Lexical s⦄ := by
  mvcgen [documentMark]

@[spec]
theorem flowStart_faults (t : Token) : ⦃⌜True⌝⦄ flowStart (s := s) t ⦃Lexical s⦄ := by
  mvcgen [flowStart]

@[spec]
theorem flowEnd_faults (t : Token) : ⦃⌜True⌝⦄ flowEnd (s := s) t ⦃Lexical s⦄ := by
  mvcgen [flowEnd]

theorem content_faults {read : Lex s Token} (h : ⦃⌜True⌝⦄ read ⦃Lexical s⦄) : ⦃⌜True⌝⦄ content read ⦃Lexical s⦄ := by
  mvcgen [content, h]

@[spec]
theorem readToken_faults (c : Char) : ⦃⌜True⌝⦄ readToken (s := s) c ⦃Lexical s⦄ := by
  mvcgen [readToken, content_faults, plainScalar]

/-- A step comes to the end only of a text without a fault behind it. -/
theorem fetch_ends :
    ⦃⌜True⌝⦄ fetch (s := s) ⦃post⟨fun more _ => ⌜more = false → s.ends = none⌝, fun e => ⌜IsLexical s e⌝⟩⦄ := by
  mvcgen [fetch, peek_ends, -peek_faults]
  · rename_i hend _ hends _ _ _ _
    exact hends (beq_iff_eq.mp hend)
  · exact fun hmore => nomatch hmore

end Fetch

end Lex

/-- What may stand behind the tokens of a source: one of the faults that they can have, or no fault if there is none behind
the text. -/
def Lex.Ended (s : Source) : Option Fault → Prop
  | some e => IsLexical s e
  | none => s.ends = none

theorem Tokens.ended_scanFrom (s : Source) (l : Lexer) (n : Nat) : Lex.Ended s (scanFrom s l n).ends := by
  induction n generalizing l with
  | zero =>
    rw [scanFrom]
    cases hends : s.ends with
    | none => exact hends
    | some e => exact .inr (.inl hends)
  | succ n ih =>
    rw [scanFrom]
    cases hstale : (Lex.dropStale : Lex s Unit).run l with
    | error e => exact fault_of_run Lex.dropStale_faults hstale
    | ok dropped =>
      dsimp only
      cases hfetch : (Lex.fetch : Lex s Bool).run dropped.2 with
      | error e => exact fault_of_run Lex.fetch_ends hfetch
      | ok fetched =>
        obtain ⟨more, l⟩ := fetched
        cases more with
        | true => exact ih l
        | false => exact result_of_run Lex.fetch_ends hfetch rfl

/-- **The faults of tokens.** -/
theorem Tokens.scan_fault {s : Source} {e : Fault} (h : (scan s).ends = some e) : Lex.IsLexical s e := by
  have hended : Lex.Ended s (scan s).ends := ended_scanFrom s {} _
  rwa [h] at hended

theorem Tokens.ends_of_scan {s : Source} (h : (scan s).ends = none) : s.ends = none := by
  have hended : Lex.Ended s (scan s).ends := ended_scanFrom s {} _
  rwa [h] at hended

/-! ## Nodes -/

namespace Compose

variable {ends : Option Fault}

/-- Nodes have faults of form, or the one behind the tokens. -/
abbrev Told {α : Type} (ends : Option Fault) : PostCond α (.arg Composition (.except Fault .pure)) :=
  FaultsIn fun e => e.isMalformed = true ∨ ends = some e

attribute [spec] advance

theorem malformed_never {α : Type} (problem : String) :
    ⦃⌜True⌝⦄ (malformed problem : Compose ends α)
      ⦃post⟨fun _ _ => ⌜False⌝, fun e => ⌜e.isMalformed = true ∨ ends = some e⌝⟩⦄ := by
  intro s _
  exact Or.inl rfl

@[spec]
theorem malformed_told {α : Type} (problem : String) :
    ⦃⌜True⌝⦄ (malformed problem : Compose ends α) ⦃Told ends⦄ :=
  throw_faultsIn (.inl rfl)

/-- Only tokens without a fault behind them come to an end. -/
theorem look_ends :
    ⦃⌜True⌝⦄ (look : Compose ends (Option Token))
      ⦃post⟨fun t _ => ⌜t = none → ends = none⌝, fun e => ⌜e.isMalformed = true ∨ ends = some e⌝⟩⦄ := by
  mvcgen [look, -Spec.throw_StateT]
  · exact fun hnone => nomatch hnone
  · exact Or.inr rfl

@[spec]
theorem look_told : ⦃⌜True⌝⦄ (look : Compose ends (Option Token)) ⦃Told ends⦄ := by
  mvcgen [look_ends]

@[spec]
theorem atEnd_ends :
    ⦃⌜True⌝⦄ (atEnd : Compose ends Bool)
      ⦃post⟨fun ended _ => ⌜ended = true → ends = none⌝, fun e => ⌜e.isMalformed = true ∨ ends = some e⌝⟩⦄ := by
  mvcgen [atEnd, look_ends, -look_told]
  rename_i hends
  exact fun hnone => hends (Option.isNone_iff_eq_none.mp hnone)

@[spec]
theorem sees_told (ts : List Token) : ⦃⌜True⌝⦄ (sees ts : Compose ends Bool) ⦃Told ends⦄ := by
  mvcgen [sees]

@[spec]
theorem accept_told (t : Token) : ⦃⌜True⌝⦄ (accept t : Compose ends Bool) ⦃Told ends⦄ := by
  mvcgen [accept]

@[spec]
theorem anchor?_told : ⦃⌜True⌝⦄ (anchor? : Compose ends (Option String)) ⦃Told ends⦄ := by
  mvcgen [anchor?]

@[spec]
theorem marks_told : ⦃⌜True⌝⦄ (marks : Compose ends (Option String × Option String)) ⦃Told ends⦄ := by
  mvcgen [marks, tag?, expandTag]

@[spec]
theorem aliased_told (name : String) : ⦃⌜True⌝⦄ (aliased name : Compose ends Node) ⦃Told ends⦄ := by
  mvcgen [aliased]

theorem anchored_told (name : Option String) {read : Compose ends Node} (h : ⦃⌜True⌝⦄ read ⦃Told ends⦄) :
    ⦃⌜True⌝⦄ anchored name read ⦃Told ends⦄ := by
  mvcgen [anchored, h]

@[spec]
theorem emptyOr_told (name tag : Option String) : ⦃⌜True⌝⦄ (emptyOr name tag : Compose ends Node) ⦃Told ends⦄ := by
  mvcgen [emptyOr]

/-- What holds of the readings of nodes with a bound on their steps. -/
structure NodesTold (ends : Option Fault) (n : Nat) : Prop where
  node : ∀ inBlock unindented, ⦃⌜True⌝⦄ (Compose.node inBlock unindented n : Compose ends Node) ⦃Told ends⦄
  nodeUnless : ∀ stops inBlock unindented,
    ⦃⌜True⌝⦄ (Compose.nodeUnless stops inBlock unindented n : Compose ends Node) ⦃Told ends⦄
  blockItems : ⦃⌜True⌝⦄ (Compose.blockItems n : Compose ends (List Node)) ⦃Told ends⦄
  unindentedItems : ⦃⌜True⌝⦄ (Compose.unindentedItems n : Compose ends (List Node)) ⦃Told ends⦄
  blockEntries : ⦃⌜True⌝⦄ (Compose.blockEntries n : Compose ends (List (Node × Node))) ⦃Told ends⦄
  flowItems : ∀ isFirst, ⦃⌜True⌝⦄ (Compose.flowItems isFirst n : Compose ends (List Node)) ⦃Told ends⦄
  flowEntries : ∀ isFirst, ⦃⌜True⌝⦄ (Compose.flowEntries isFirst n : Compose ends (List (Node × Node))) ⦃Told ends⦄

theorem nodesTold (ends : Option Fault) (n : Nat) : NodesTold ends n := by
  induction n with
  | zero =>
    constructor
    all_goals intros
    all_goals mvcgen [node, nodeUnless, blockItems, unindentedItems, blockEntries, flowItems, flowEntries]
  | succ n ih =>
    obtain ⟨hnode, hnodeUnless, hblockItems, hunindentedItems, hblockEntries, hflowItems, hflowEntries⟩ := ih
    constructor
    case node =>
      intro inBlock unindented
      mvcgen [node, anchored_told, hblockItems, hunindentedItems, hblockEntries, hflowItems, hflowEntries]
    case nodeUnless =>
      intro stops inBlock unindented
      mvcgen [nodeUnless, hnode]
    case blockItems => mvcgen [blockItems, hnodeUnless, hblockItems]
    case unindentedItems => mvcgen [unindentedItems, hnodeUnless, hunindentedItems]
    case blockEntries => mvcgen [blockEntries, hnodeUnless, hblockEntries]
    case flowItems =>
      intro isFirst
      mvcgen [flowItems, hnode, hnodeUnless, hflowItems]
    case flowEntries =>
      intro isFirst
      mvcgen [flowEntries, hnode, hnodeUnless, hflowEntries]

@[spec]
theorem directives_told (hasVersion : Bool) (handles : List (String × String)) (n : Nat) :
    ⦃⌜True⌝⦄ (directives hasVersion handles n : Compose ends _) ⦃Told ends⦄ := by
  induction n generalizing hasVersion handles with
  | zero => mvcgen [directives]
  | succ n ih => mvcgen [directives, ih]

@[spec]
theorem seesDirective_told : ⦃⌜True⌝⦄ (seesDirective : Compose ends Bool) ⦃Told ends⦄ := by
  mvcgen [seesDirective]

@[spec]
theorem documentEnds_told (n : Nat) : ⦃⌜True⌝⦄ (documentEnds n : Compose ends Unit) ⦃Told ends⦄ := by
  induction n with
  | zero => mvcgen [documentEnds]
  | succ n ih => mvcgen [documentEnds, ih]

@[spec]
theorem root_told (bound : Nat) : ⦃⌜True⌝⦄ (root bound : Compose ends Node) ⦃Told ends⦄ := by
  have hnode := fun n => (nodesTold ends n).node
  mvcgen [root, hnode]

/-- A document is read only from tokens without a fault behind them. -/
theorem document_ends :
    ⦃⌜True⌝⦄ (document : Compose ends (Option Node))
      ⦃post⟨fun _ _ => ⌜ends = none⌝, fun e => ⌜e.isMalformed = true ∨ ends = some e⌝⟩⦄ := by
  mvcgen [document, malformed_never, -malformed_told]
  · rename_i hend _ hends
    exact hends hend
  · rename_i hend _ hends
    exact hends hend
  · exact False.elim

end Compose

section Document

variable {ts : Tokens} {e : Fault} {root? : Option Node}

/-- **The faults of nodes.** -/
theorem Node.ofTokens_fault (h : ofTokens ts = .error e) : e.isMalformed = true ∨ ts.ends = some e :=
  fault_of_run Compose.document_ends (error_of_map h)

theorem Node.ends_of_ofTokens (h : ofTokens ts = .ok root?) : ts.ends = none := by
  unfold ofTokens at h
  cases hrun : (Compose.document : Compose ts.ends (Option Node)).run { tokens := ts.told } with
  | error e =>
    rw [hrun] at h
    cases h
  | ok result =>
    obtain ⟨node?, rest⟩ := result
    exact result_of_run (q := fun _ => ts.ends = none) Compose.document_ends hrun

end Document

end ExportAudit.Yaml
