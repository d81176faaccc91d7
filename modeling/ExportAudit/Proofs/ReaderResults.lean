import Mathlib
import ExportAudit.Source.Grammar

/-!
# What readers yield

`Yields p P` says that all that a reader yields has a property. The rules for it follow the ways in which readers are put
together: one after another, one instead of another, again and again.

They serve one property. A tree that a reader yields is not yet part of another, so it has no role; and of export
statements, those with a value have the word `default` before it, or a declaration instead (`Marked`, `Whole`). Every
reader keeps this if those of the constructs inside do (`wholeGrammar`), and so do the statements of every file
(`markedExports_parse`).
-/

namespace ExportAudit.Source

/-- An export statement has no value, or it has a declaration or the word `default`. -/
def Tree.Marked (t : Tree) : Prop :=
  t.child? .declaration = none → (t.child? .value).isSome = true → (t.childOfKind? .defaultMark).isSome = true

/-- A tree in whose export statements a value stands behind the word `default` only. -/
def Tree.MarkedExports (tree : Tree) : Prop :=
  ∀ statement ∈ tree.children, statement.kind = .exportStatement → statement.Marked

/-- A tree as readers yield it. -/
structure Tree.Whole (t : Tree) : Prop where
  role : t.role = none
  marked : t.kind = .exportStatement → t.Marked

namespace Parse

open ExportAudit.Source.Tree (Whole)

/-! ## Rules -/

section Rules

variable {α β : Type} {p q : Parse α} {f : α → Parse β} {P : α → Prop} {Q : β → Prop} {k : Kind} {i : Nat}
  {children : List Tree}

/-- All that a reader yields has a property. -/
def Yields (p : Parse α) (P : α → Prop) : Prop :=
  ∀ s i a j, p s i = some (a, j) → P a

theorem Yields.bind (hp : Yields p P) (hf : ∀ a, P a → Yields (f a) Q) : Yields (p >>= f) Q := by
  intro s i b k h
  obtain ⟨⟨a, j⟩, ha, hb⟩ := Option.bind_eq_some_iff.mp h
  exact hf a (hp s i a j ha) s j b k hb

theorem yields_bind (hf : ∀ a, Yields (f a) Q) : Yields (p >>= f) Q :=
  Yields.bind (P := fun _ => True) (fun _ _ _ _ _ => trivial) fun a _ => hf a

theorem yields_pure {a : α} (h : P a) : Yields (pure a) P := by
  intro s i b j hb
  cases hb
  exact h

theorem yields_fail : Yields fail P := by
  intro s i a j h
  cases h

theorem yields_ite {c : Prop} [Decidable c] (hp : Yields p P) (hq : Yields q P) : Yields (if c then p else q) P := by
  split
  · exact hp
  · exact hq

theorem Yields.orElse (hp : Yields p P) (hq : Yields q P) : Yields (orElse p q) P := by
  intro s i a j h
  unfold Parse.orElse at h
  split at h
  · rename_i r hr
    obtain rfl := Option.some.inj h
    exact hp s i a j hr
  · exact hq s i a j h

theorem Yields.attempt (hp : Yields p P) : Yields (attempt p) fun o => ∀ a ∈ o, P a := by
  intro s i o j h
  unfold Parse.attempt at h
  split at h
  · rename_i a k hr
    cases h
    intro b hb
    cases hb
    exact hp s i a j hr
  · cases h
    simp

theorem Yields.manyUpTo {p : Parse (Option α)} (hp : Yields p fun o => ∀ a ∈ o, P a) (n : Nat) :
    Yields (manyUpTo p n) fun l => ∀ a ∈ l, P a := by
  induction n with
  | zero => exact yields_pure (by simp)
  | succ n ih =>
    refine hp.bind fun o ho => ?_
    cases o with
    | none => exact yields_pure (by simp)
    | some a => exact ih.bind fun l hl => yields_pure (List.forall_mem_cons.mpr ⟨ho a rfl, hl⟩)

theorem Yields.many {p : Parse (Option α)} (hp : Yields p fun o => ∀ a ∈ o, P a) :
    Yields (many p) fun l => ∀ a ∈ l, P a :=
  yields_bind fun n => hp.manyUpTo n

theorem yields_extendUpTo {step : Tree → Parse (Option Tree)} {P : Tree → Prop}
    (hstep : ∀ t, Yields (step t) fun o => ∀ u ∈ o, P u) (n : Nat) {t : Tree} (ht : P t) :
    Yields (extendUpTo step n t) P := by
  induction n generalizing t with
  | zero => exact yields_pure ht
  | succ n ih =>
    refine (hstep t).bind fun o ho => ?_
    cases o with
    | none => exact yields_pure ht
    | some u => exact ih (ho u rfl)

theorem yields_extend {step : Tree → Parse (Option Tree)} {P : Tree → Prop}
    (hstep : ∀ t, Yields (step t) fun o => ∀ u ∈ o, P u) {t : Tree} (ht : P t) : Yields (extend step t) P :=
  yields_bind fun n => yields_extendUpTo hstep n ht

theorem yields_none : Yields (pure none) fun o : Option α => ∀ a ∈ o, P a :=
  yields_pure (by simp)

theorem Yields.some (hp : Yields p P) : Yields (p >>= fun a => pure (some a)) fun o => ∀ a ∈ o, P a :=
  hp.bind fun a ha => yields_pure (by simpa using ha)

theorem whole_of_kind {line : Nat} {text : String} (hk : k ≠ .exportStatement) :
    Whole (.node k none line text children) :=
  ⟨rfl, fun h => absurd h hk⟩

theorem yields_node (hk : k ≠ .exportStatement) : Yields (node k i children) Whole := by
  intro s j t j' ht
  cases ht
  exact whole_of_kind hk

theorem yields_leaf (hk : k ≠ .exportStatement) : Yields (leaf k i) Whole := by
  intro s j t j' ht
  cases ht
  exact whole_of_kind hk

theorem yields_named (hk : k ≠ .exportStatement) : Yields (named k i children) Whole := by
  intro s j t j' ht
  cases ht
  exact whole_of_kind hk

end Rules

/-! ## Names and literals -/

section Literals

theorem whole_anyWord {k : Kind} (hk : k ≠ .exportStatement) : Yields (anyWord k) Whole := by
  unfold anyWord
  repeat' first | exact yields_fail | exact yields_leaf hk | refine yields_bind fun _ => ?_ | split

theorem whole_string : Yields string Whole := by
  unfold string
  repeat' first | exact yields_fail | exact yields_leaf (by decide) | refine yields_bind fun _ => ?_ | split | dsimp only

theorem whole_number : Yields number Whole := by
  unfold number
  repeat' first | exact yields_fail | exact yields_leaf (by decide) | refine yields_bind fun _ => ?_ | split

theorem whole_regularExpression : Yields regularExpression Whole := by
  unfold regularExpression
  repeat' first | exact yields_fail | exact yields_leaf (by decide) | refine yields_bind fun _ => ?_ | split

theorem whole_template (hole : Parse Tree) : Yields (template hole) Whole := by
  unfold template
  repeat' first | exact yields_named (by decide) | refine yields_bind fun _ => ?_

theorem whole_identifier : Yields identifier Whole := by
  unfold identifier
  repeat' first | exact yields_fail | exact whole_anyWord (by decide) | refine yields_bind fun _ => ?_ | split

theorem whole_privateName : Yields privateName Whole := by
  unfold privateName
  repeat' first | exact yields_leaf (by decide) | refine yields_bind fun _ => ?_

end Literals

/-! ## Expressions -/

/-- What stands inside other constructs is whole. -/
structure WholeGrammar (g : Grammar) : Prop where
  statement : Yields (g .statement) Whole
  sequence : ∀ m, Yields (g (.sequence m)) Whole
  assignment : ∀ m, Yields (g (.assignment m)) Whole
  unary : ∀ m, Yields (g (.unary m)) Whole
  element : Yields (g .element) Whole

section Expressions

variable (g : Grammar) (m : Mode)

theorem whole_block : Yields (block g) Whole := by
  unfold block
  repeat' first | exact yields_node (by decide) | refine yields_bind fun _ => ?_

theorem whole_arrowFunction : Yields (arrowFunction g m) Whole := by
  unfold arrowFunction
  repeat' first | exact yields_fail | exact yields_node (by decide) | refine yields_bind fun _ => ?_ | split

theorem whole_function (declared : Bool) : Yields (function g declared) Whole := by
  unfold function functionFrom
  repeat' first
    | exact yields_fail
    | exact yields_node (by decide)
    | refine yields_bind fun _ => ?_
    | split

theorem whole_objectLiteral : Yields (objectLiteral g) Whole := by
  unfold objectLiteral
  repeat' first | exact yields_node (by decide) | refine yields_bind fun _ => ?_

theorem whole_arrayLiteral : Yields (arrayLiteral g) Whole := by
  unfold arrayLiteral
  repeat' first | exact yields_node (by decide) | refine yields_bind fun _ => ?_

theorem whole_classFrom (base : Parse Tree) (i : Nat) {kind : Kind} (hk : kind ≠ .exportStatement)
    (marks : List Tree) : Yields (classFrom g base i kind marks) Whole := by
  unfold classFrom
  repeat' first | exact yields_node hk | refine yields_bind fun _ => ?_ | split

theorem whole_genericCall (i : Nat) (t : Tree) : Yields (genericCall g i t) Whole := by
  unfold genericCall call
  repeat' first | exact yields_fail | exact yields_node (by decide) | refine yields_bind fun _ => ?_ | split

theorem whole_instantiation (i : Nat) (t : Tree) : Yields (instantiation g i t) Whole := by
  unfold instantiation
  repeat' first | exact yields_fail | exact yields_node (by decide) | refine yields_bind fun _ => ?_ | split

theorem whole_suffix (calls : Bool) (i : Nat) (t : Tree) :
    Yields (suffix g m calls i t) fun o => ∀ u ∈ o, Whole u := by
  unfold suffix call
  repeat' first
    | exact yields_none
    | exact (yields_node (by decide)).some
    | exact (whole_genericCall g i t).some
    | exact ((whole_genericCall g i t).orElse (whole_instantiation g i t)).attempt
    | refine yields_bind fun _ => ?_
    | split

theorem whole_newExpression (base : Parse Tree) (n : Nat) : Yields (newExpression g m base n) Whole := by
  cases n with
  | zero => exact yields_fail
  | succ n =>
    unfold newExpression
    repeat' first | exact yields_node (by decide) | refine yields_bind fun _ => ?_ | split

variable {g}

theorem whole_primary (hg : WholeGrammar g) (fuel : Nat) : Yields (primary g m fuel) Whole := by
  cases fuel with
  | zero => exact yields_fail
  | succ fuel =>
    unfold primary
    refine yields_bind fun i => yields_bind fun c => ?_
    split
    · exact whole_string
    · exact whole_string
    · exact whole_template _
    · exact yields_bind fun _ => yields_bind fun _ => yields_bind fun _ => yields_node (by decide)
    · exact whole_arrayLiteral g
    · exact whole_objectLiteral g
    · exact whole_regularExpression
    · exact yields_bind fun _ => yields_ite hg.element yields_fail
    · exact whole_privateName
    · exact yields_bind fun marks => whole_classFrom g _ i (by decide) marks
    · refine yields_ite whole_number (yields_bind fun w => yields_ite (whole_function g false) ?_)
      refine yields_bind fun _ => yields_ite ((whole_function g false).orElse whole_identifier) ?_
      refine yields_ite (whole_classFrom g _ i (by decide) []) ?_
      refine yields_ite (yields_bind fun n => whole_newExpression g m _ n) ?_
      exact yields_ite (whole_anyWord (by decide)) whole_identifier

theorem whole_memberExpression (hg : WholeGrammar g) : Yields (memberExpression g m) Whole := by
  unfold memberExpression
  refine yields_bind fun i => yields_bind fun n => ?_
  exact (whole_primary m hg n).bind fun base hbase => yields_extend (whole_suffix g m true i) hbase

theorem whole_unary (hg : WholeGrammar g) : Yields (unary g m) Whole := by
  unfold unary
  refine yields_bind fun i => yields_bind fun o => yields_bind fun w => yields_ite ?_ (yields_bind fun _ => ?_)
  · exact yields_bind fun _ => yields_bind fun _ => yields_node (by decide)
  refine yields_ite ?_ (yields_bind fun _ => yields_ite ?_ ?_)
  · exact yields_bind fun _ => yields_bind fun _ => yields_node (by decide)
  · exact yields_bind fun _ => yields_bind fun _ => yields_bind fun _ => yields_bind fun _ => yields_node (by decide)
  · refine (whole_memberExpression m hg).bind fun t ht => yields_bind fun _ => yields_ite ?_ (yields_pure ht)
    exact yields_bind fun _ => yields_bind fun _ => yields_ite (yields_node (by decide)) (yields_pure ht)

theorem whole_operatorExpression (hg : WholeGrammar g) : Yields (operatorExpression g m) Whole := by
  unfold operatorExpression
  refine yields_bind fun i => (hg.unary m).bind fun first hfirst => yields_bind fun others => ?_
  dsimp only
  -- the operands may be one or several; what follows them is the same
  refine yields_ite ((yields_pure hfirst).bind fun t ht => ?_) ((yields_node (by decide)).bind fun t ht => ?_)
  all_goals
    refine yields_bind fun _ => yields_ite (yields_pure ht) (yields_bind fun o => yields_ite ?_ (yields_ite ?_ ?_))
    · exact yields_bind fun _ => yields_bind fun _ => yields_node (by decide)
    · exact yields_bind fun _ => yields_bind fun _ => yields_node (by decide)
    · exact yields_pure ht

theorem whole_yieldExpression : Yields (yieldExpression g m) Whole := by
  unfold yieldExpression
  repeat' first | exact yields_node (by decide) | refine yields_bind fun _ => ?_ | split

theorem whole_assignment (hg : WholeGrammar g) : Yields (assignment g m) Whole := by
  unfold assignment
  refine yields_bind fun c => yields_bind fun w => yields_ite (whole_yieldExpression m) (yields_ite ?_ ?_)
  · exact (whole_arrowFunction g m).orElse (whole_operatorExpression m hg)
  · exact whole_operatorExpression m hg

theorem whole_sequence (hg : WholeGrammar g) : Yields (sequence g m) Whole := by
  unfold sequence
  refine yields_bind fun i => (hg.assignment m).bind fun first hfirst => yields_bind fun others => ?_
  exact yields_ite (yields_pure hfirst) (yields_node (by decide))

theorem whole_element : Yields (element g) Whole := by
  unfold element
  repeat' first | exact yields_node (by decide) | refine yields_bind fun _ => ?_ | split

end Expressions

/-! ## Statements -/

section Statements

variable (g : Grammar)

theorem whole_classDeclaration (i : Nat) (marks : List Tree) : Yields (classDeclaration g i marks) Whole := by
  unfold classDeclaration
  refine yields_bind fun isAbstract => yields_bind fun n => whole_classFrom g _ i ?_ marks
  split <;> decide

theorem whole_interface : Yields (interface g) Whole := by
  unfold interface
  repeat' first | exact yields_node (by decide) | refine yields_bind fun _ => ?_ | split

theorem whole_typeAlias : Yields (typeAlias g) Whole := by
  unfold typeAlias
  repeat' first | exact yields_node (by decide) | refine yields_bind fun _ => ?_

theorem whole_enumeration : Yields (enumeration g) Whole := by
  unfold enumeration
  repeat' first | exact yields_node (by decide) | refine yields_bind fun _ => ?_

theorem whole_variableList (m : Mode) : Yields (variableList g m) Whole := by
  unfold variableList
  refine yields_bind fun i => yields_bind fun w => yields_bind fun _ => yields_bind fun items => yields_node ?_
  split <;> decide

theorem whole_namespaceDeclaration : Yields (namespaceDeclaration g) Whole := by
  unfold namespaceDeclaration
  repeat' first | exact yields_node (by decide) | refine yields_bind fun _ => ?_ | split

theorem whole_declaration : Yields (declaration g) Whole := by
  unfold declaration
  have hvariables : Yields (variableList g .statement >>= fun t => terminator true >>= fun _ => pure t) Whole :=
    (whole_variableList g .statement).bind fun t ht => yields_bind fun _ => yields_pure ht
  refine yields_bind fun i => yields_bind fun w => ?_
  split
  · exact whole_function g true
  · exact whole_function g true
  · exact whole_classDeclaration g i []
  · exact whole_classDeclaration g i []
  · exact whole_interface g
  · exact whole_typeAlias g
  · exact whole_enumeration g
  · exact yields_bind fun _ => yields_ite (whole_enumeration g) hvariables
  · exact hvariables
  · exact hvariables
  · exact whole_namespaceDeclaration g
  · exact whole_namespaceDeclaration g
  · exact yields_fail

theorem whole_ambientDeclaration : Yields (ambientDeclaration g) Whole := by
  unfold ambientDeclaration
  repeat' first | exact yields_node (by decide) | refine yields_bind fun _ => ?_ | split

theorem whole_importStatement : Yields (importStatement g) Whole := by
  unfold importStatement importAlias
  repeat' first | exact yields_node (by decide) | refine yields_bind fun _ => ?_ | split

theorem whole_expressionStatement : Yields (expressionStatement g) Whole := by
  unfold expressionStatement
  repeat' first | exact yields_node (by decide) | refine yields_bind fun _ => ?_

theorem whole_controlStatement (i : Nat) (w : String) : Yields (controlStatement g i w) Whole := by
  unfold controlStatement
  repeat' first | exact yields_node (by decide) | refine yields_bind fun _ => ?_ | split

end Statements

/-! ## Export statements -/

section Exports

variable {g : Grammar} {children : List Tree} {i : Nat}

/-- No tree of a list is the value of the node that they are put into. -/
def Valueless (children : List Tree) : Prop :=
  ∀ c ∈ children, c.role ≠ some .value

theorem yields_export_of_default {mark : Tree} (hmark : mark.kind = .defaultMark) (hmem : mark ∈ children) :
    Yields (node .exportStatement i children) Whole := by
  intro s j t j' ht
  cases ht
  refine ⟨rfl, fun _ _ _ => ?_⟩
  rw [Tree.childOfKind?, List.find?_isSome]
  exact ⟨mark, hmem, by simp [hmark]⟩

theorem yields_export_of_declaration {decl : Tree} (hmem : decl.playing .declaration ∈ children) :
    Yields (node .exportStatement i children) Whole := by
  intro s j t j' ht
  cases ht
  refine ⟨rfl, fun _ hnone _ => ?_⟩
  rw [Tree.child?, List.find?_eq_none] at hnone
  have hrole : (decl.playing .declaration).role = some .declaration := by cases decl; rfl
  exact absurd hrole (by simpa using hnone _ hmem)

theorem yields_export_of_valueless (hvalueless : Valueless children) :
    Yields (node .exportStatement i children) Whole := by
  intro s j t j' ht
  cases ht
  refine ⟨rfl, fun _ _ hsome => ?_⟩
  rw [Tree.child?, List.find?_isSome] at hsome
  obtain ⟨c, hc, hrole⟩ := hsome
  exact absurd (eq_of_beq hrole) (hvalueless c hc)

theorem valueless_singleton {t : Tree} (ht : Whole t) : Valueless [t] := by
  rw [Valueless, List.forall_mem_singleton, ht.role]
  decide

theorem valueless_nil : Valueless [] := by
  simp [Valueless]

theorem Valueless.append {front back : List Tree} (hfront : Valueless front) (hback : Valueless back) :
    Valueless (front ++ back) :=
  List.forall_mem_append.mpr ⟨hfront, hback⟩

theorem whole_specifiers {list entry : Kind} (hk : list ≠ .exportStatement) : Yields (specifiers list entry) Whole := by
  unfold specifiers
  repeat' first | exact yields_node hk | refine yields_bind fun _ => ?_

theorem valueless_fromClause : Yields (fromClause g) Valueless := by
  have hattributes : Yields (importAttributes g) Valueless := by
    unfold importAttributes
    refine yields_bind fun w => yields_bind fun o => yields_ite (yields_bind fun _ => ?_) (yields_pure valueless_nil)
    exact (whole_objectLiteral g).bind fun t ht => yields_pure (valueless_singleton ht)
  unfold fromClause
  refine yields_bind fun _ => yields_bind fun source => hattributes.bind fun attributes hvalueless => yields_pure ?_
  refine List.forall_mem_cons.mpr ⟨?_, hvalueless⟩
  cases source
  exact (by decide : some Role.source ≠ some Role.value)

theorem whole_exportDefault (i : Nat) (marks : List Tree) : Yields (exportDefault g i marks) Whole := by
  unfold exportDefault
  have hmark : ∀ k, Yields (leaf .defaultMark k) fun t => t.kind = .defaultMark := by
    intro k s j t j' ht
    cases ht
    rfl
  refine yields_bind fun k => yields_bind fun _ => (hmark k).bind fun mark hkind => yields_bind fun d => ?_
  refine yields_bind fun w => ?_
  dsimp only
  refine yields_bind fun declared => ?_
  split
  · exact yields_export_of_default hkind (by simp)
  · exact yields_bind fun value => yields_bind fun _ => yields_export_of_default hkind (by simp)

theorem whole_exportStatement (hg : WholeGrammar g) (i : Nat) (marks : List Tree) :
    Yields (exportStatement g i marks) Whole := by
  unfold exportStatement
  refine yields_bind fun _ => yields_bind fun w => yields_bind fun second => yields_bind fun next => yields_bind fun c => ?_
  refine yields_ite (whole_exportDefault i marks) (yields_ite ?_ (yields_ite ?_ (yields_ite ?_ (yields_ite ?_
    (yields_ite ?_ (yields_ite ?_ ?_))))))
  · refine yields_bind fun _ => yields_bind fun k => yields_bind fun _ => yields_bind fun _ => ?_
    have hrest : ∀ names, Valueless names → Yields (fromClause g >>= fun source => terminator false >>= fun _ =>
        node .exportStatement i (names ++ source)) Whole := fun names hnames =>
      valueless_fromClause.bind fun source hsource => yields_bind fun _ =>
        yields_export_of_valueless (hnames.append hsource)
    refine yields_ite (yields_bind fun _ => (yields_node (by decide)).bind fun name hname => ?_) ?_
    · exact (yields_pure (valueless_singleton hname)).bind hrest
    · exact (yields_pure valueless_nil).bind hrest
  · refine yields_bind fun _ => (whole_specifiers (by decide)).bind fun clause hclause => yields_bind fun _ => ?_
    have hrest : ∀ source, Valueless source → Yields (terminator false >>= fun _ =>
        node .exportStatement i (clause :: source)) Whole := fun source hsource =>
      yields_bind fun _ => yields_export_of_valueless ((valueless_singleton hclause).append hsource)
    exact yields_ite (valueless_fromClause.bind hrest) ((yields_pure valueless_nil).bind hrest)
  · -- what is exported with an equals sign is an expression, and those have no role of their own
    refine yields_bind fun _ => (hg.sequence .statement).bind fun value hvalue => yields_bind fun _ => ?_
    exact yields_export_of_valueless (valueless_singleton hvalue)
  · refine yields_bind fun _ => yields_bind fun _ => (whole_anyWord (by decide)).bind fun name hname => ?_
    exact yields_bind fun _ => yields_export_of_valueless (valueless_singleton hname)
  · exact yields_bind fun inner => yields_export_of_declaration List.mem_cons_self
  · exact yields_bind fun inner => yields_export_of_declaration List.mem_cons_self
  · have hdeclared : ∀ inner : Tree, Yields (node .exportStatement i (marks ++ [inner.playing .declaration])) Whole :=
      fun inner => yields_export_of_declaration (List.mem_append_right marks List.mem_cons_self)
    exact yields_bind fun k => yields_ite (yields_bind fun _ => yields_bind hdeclared) (yields_bind hdeclared)

theorem whole_statement (hg : WholeGrammar g) : Yields (statement g) Whole := by
  unfold statement
  refine yields_bind fun i => yields_bind fun c => ?_
  split
  · exact yields_bind fun _ => yields_node (by decide)
  · exact whole_block g
  · refine yields_bind fun marks => yields_bind fun _ => yields_ite ?_ ?_
    · exact whole_exportStatement hg i marks
    · exact whole_classDeclaration g i marks
  · refine yields_bind fun w => yields_bind fun next => yields_ite (whole_expressionStatement g) ?_
    refine yields_bind fun _ => yields_ite (whole_expressionStatement g) ?_
    refine yields_ite (whole_controlStatement g i w) (yields_ite (whole_exportStatement hg i []) ?_)
    refine yields_ite (whole_importStatement g) (yields_ite ?_ (yields_bind fun _ => yields_ite ?_ ?_))
    · exact yields_bind fun _ => yields_bind fun _ => yields_bind fun _ => yields_node (by decide)
    · exact yields_ite (whole_ambientDeclaration g) (whole_declaration g)
    · exact whole_expressionStatement g

end Exports

/-! ## Files -/

/-- Every reader of the grammar yields whole trees, by induction on how deep constructs nest. -/
theorem wholeGrammar (fuel : Nat) : WholeGrammar (grammar fuel) := by
  induction fuel with
  | zero => exact ⟨yields_fail, fun _ => yields_fail, fun _ => yields_fail, fun _ => yields_fail, yields_fail⟩
  | succ fuel ih =>
    exact ⟨whole_statement ih, fun m => whole_sequence m ih, fun m => whole_assignment m ih, fun m => whole_unary m ih,
      whole_element⟩

theorem whole_program {g : Grammar} (hg : WholeGrammar g) :
    Yields (program g) fun t => ∀ c ∈ t.children, Whole c := by
  have hfirst : Yields hashBang fun l => ∀ c ∈ l, Whole c := by
    unfold hashBang
    refine yields_bind fun s => yields_ite (yields_bind fun _ => ?_) (yields_pure (by simp))
    exact (yields_leaf (by decide)).bind fun t ht => yields_pure (by simpa using ht)
  have hnext : Yields (topStatement g) fun o => ∀ l ∈ o, ∀ c ∈ l, Whole c := by
    unfold topStatement
    refine yields_bind fun done => yields_ite yields_none (hg.statement.attempt.bind fun o ho => ?_)
    cases o with
    | some t => exact yields_pure (by simpa using ho)
    | none => exact yields_bind fun s => yields_bind fun _ => yields_bind fun _ => yields_pure (by simp)
  unfold program
  refine hfirst.bind fun first hfirst => hnext.many.bind fun statements hstatements => ?_
  intro s i t j ht
  cases ht
  refine List.forall_mem_append.mpr ⟨hfirst, fun c hc => ?_⟩
  obtain ⟨l, hl, hc⟩ := List.mem_flatten.mp hc
  exact hstatements l hl c hc

end Parse

/-- **Export statements with a value have the word `default`**, or a declaration instead. -/
theorem markedExports_parse (markup : Bool) (text : List Char) : (parse markup text).MarkedExports := by
  intro t ht hkind
  unfold parse at ht
  dsimp only at ht
  split at ht
  · rename_i tree _ hparse
    exact (Parse.whole_program (Parse.wholeGrammar _) _ _ _ _ hparse t ht).marked hkind
  · cases ht

end ExportAudit.Source
