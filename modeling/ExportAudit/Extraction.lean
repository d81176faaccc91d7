import ExportAudit.Fact
import ExportAudit.Source.Grammar
import ExportAudit.Text.LetterCase
import ExportAudit.Text.Utf8

/-!
# Facts of a source file

`FileFacts.ofText` reads the facts of a file off its syntax tree: imports and exports from the statements of the file,
interfaces, type references and run-time usages from the whole tree, in the order of the text.

The tree is walked with an explicit stack (`Walk.run`). A type is referred to by a name that its parent does not declare,
and by the base of a class; of several references to one name on one line the first is kept.
-/

namespace ExportAudit

namespace Source.Tree

/-! ## Literals and directives -/

/-- The text of a string, or of a template without substitutions; escapes stay as they are written. -/
def stringValue? (t : Tree) : Option String :=
  match t.kind with
  | .string => some (Text.inner t.text)
  | .template => if t.children.any (·.kind == .substitution) then none else some (Text.inner t.text)
  | _ => none

/-- The name that a node spells: a string that is not empty without its quotes, anything else as it is written. -/
def spelledName (t : Tree) : String :=
  match t.stringValue? with
  | some s => if s.isEmpty then t.text else s
  | none => t.text

/-- Whether statements open with a directive. -/
def opensWith (directive : String) : List Tree → Bool
  | [] => false
  | t :: ts =>
    match t.kind, t.children with
    | .comment, _ => opensWith directive ts
    | .expressionStatement, e :: _ =>
      e.kind == .string && (e.stringValue? == some directive || opensWith directive ts)
    | _, _ => false

/-- The block that is the body of a function. -/
def bodyBlock? (t : Tree) : Option Tree :=
  (t.child? .body).filter (·.kind == .block)

/-- The text of the child that is the name. -/
def nameText? (t : Tree) : Option String :=
  (t.child? .name).map text

end Source.Tree

open Source (Tree Kind)

/-! ## Imports -/

/-- The bindings of an import with those of one specifier. -/
def Import.addSpecifier (i : Import) (spec : Tree) : Import :=
  match spec.kind == .importSpecifier, spec.child? .name, spec.child? .alias with
  | true, some name, some bound =>
    { i with names := i.names ++ [bound.text], aliases := Import.putAlias bound.text name.spelledName i.aliases }
  | true, some name, none => { i with names := i.names ++ [name.spelledName] }
  | _, _, _ => i

/-- The bindings of an import with those of one part of its clause. -/
def Import.addClausePart (i : Import) (part : Tree) : Import :=
  match part.kind with
  | .identifier => { i with names := i.names ++ [part.text] }
  | .namespaceImport =>
    match part.childOfKind? .identifier with
    | some name => { i with namespaceName := some name.text }
    | none => i
  | .namedImports => part.children.foldl Import.addSpecifier i
  | _ => i

/-- The import that a statement makes; one without a module in quotes is none. -/
def importOf? (file : String) (t : Tree) : Option Import :=
  match (t.child? .source).bind Tree.stringValue? with
  | none => none
  | some reference =>
    let start : Import := { file := file, reference := reference, line := t.line }
    match t.childOfKind? .importClause with
    | none => some start
    | some clause => some (clause.children.foldl Import.addClausePart start)

/-! ## Exports -/

/-- The forms of an export statement. -/
inductive ExportForm where
  | declaration (isDefault : Bool) (decl : Tree)
  | defaultValue (value : Option Tree)
  | clause

/-- The form of an export statement. -/
def exportForm (t : Tree) : ExportForm :=
  let isDefault := (t.childOfKind? .defaultMark).isSome
  match t.child? .declaration with
  | some decl => .declaration isDefault decl
  | none => if isDefault then .defaultValue (t.child? .value) else .clause

/-- Declarations that bind variables. -/
def isVariables (k : Kind) : Bool :=
  k == .lexicalDeclaration || k == .variableDeclaration

/-- Declarations of types, which are never defaults. -/
def isTypeDeclaration (k : Kind) : Bool :=
  k == .interfaceDeclaration || k == .typeAlias || k == .enumDeclaration

/-- Declarations of functions. -/
def isFunctionDeclaration (k : Kind) : Bool :=
  k == .functionDeclaration || k == .generatorDeclaration

/-- Declarations with a name. -/
def isNamedDeclaration (k : Kind) : Bool :=
  isFunctionDeclaration k || isTypeDeclaration k ||
    [.functionSignature, .classDeclaration, .abstractClassDeclaration, .namespaceDeclaration,
      .moduleDeclaration].contains k

/-- Expressions that are functions. -/
def isFunctionValue (k : Kind) : Bool :=
  k == .arrowFunction || k == .functionExpression || k == .generatorExpression

/-- The names of a list of variables that are no patterns, each with its declarator. -/
def variableNames (decl : Tree) : List (Tree × Tree) :=
  decl.children.filterMap fun d =>
    match d.kind == .declarator, d.child? .name with
    | true, some name => if name.kind == .identifier then some (name, d) else none
    | _, _ => none

/-- The exports of a named declaration. -/
def namedExports (file : String) (isDefault : Bool) (line : Nat) (decl : Tree) : List Export :=
  match decl.child? .name with
  | some name =>
    if !isDefault then [{ name := name.text, file := file, line := name.line, localName := some name.text }]
    else if isTypeDeclaration decl.kind then []
    else [{ name := "default", file := file, line := name.line, isDefault := true, localName := some name.text }]
  | none =>
    if isDefault && !isTypeDeclaration decl.kind then
      [{ name := "default", file := file, line := line, isDefault := true }]
    else []

/-- The exports of a declaration. -/
def plainExports (file : String) (isDefault : Bool) (line : Nat) (decl : Tree) : List Export :=
  if isVariables decl.kind then
    (variableNames decl).map fun (name, _) =>
      { name := name.text, file := file, line := name.line, localName := some name.text }
  else if isNamedDeclaration decl.kind then namedExports file isDefault line decl
  else []

/-- The exports of a declaration, or of the one that `declare` announces. -/
def declarationExports (file : String) (isDefault : Bool) (line : Nat) (decl : Tree) : List Export :=
  if decl.kind == .ambientDeclaration then
    match decl.children.find? fun c => isNamedDeclaration c.kind || isVariables c.kind with
    | some inner => plainExports file isDefault line inner
    | none => []
  else plainExports file isDefault line decl

/-- The name of a default value: a name, or the name of a function or class. -/
def valueName? (value : Tree) : Option String :=
  if value.kind == .identifier then some value.text
  else if isFunctionValue value.kind || value.kind == .classExpression then value.nameText?
  else none

/-- The export of one specifier. -/
def specifierExport? (file : String) (line : Nat) (spec : Tree) : Option Export :=
  if spec.kind == .exportSpecifier then
    (spec.child? .name).map fun name =>
      let own := name.spelledName
      let exported := ((spec.child? .alias).map Tree.spelledName).getD own
      { name := exported, file := file, line := line, isDefault := exported == "default", localName := some own }
  else none

/-- The exports of a list of names, or of a whole module under a name. -/
def clauseExports (file : String) (line : Nat) (part : Tree) : List Export :=
  match part.kind with
  | .namespaceExport =>
    match part.children.find? fun c => c.kind == .identifier || c.kind == .string with
    | some name =>
      [{ name := name.spelledName, file := file, line := line, localName := some name.spelledName }]
    | none => []
  | .exportClause => part.children.filterMap (specifierExport? file line)
  | _ => []

/-- The exports of an export statement. Names that are passed on wholesale are not followed. -/
def exportsOf (file : String) (t : Tree) : List Export :=
  match exportForm t with
  | .declaration isDefault decl => declarationExports file isDefault t.line decl
  | .defaultValue value =>
    [{ name := "default", file := file, line := t.line, isDefault := true, localName := value.bind valueName? }]
  | .clause => t.children.flatMap (clauseExports file t.line)

/-! ## Functions: server actions and hooks -/

/-- A function that an export statement declares. -/
structure ExportedFunction where
  name : String
  function : Tree
  line : Nat

/-- The functions that an export statement declares: the declared one, those that are the values of variables, or the
one that is the value of the statement itself. -/
def functionsOf (t : Tree) : List ExportedFunction :=
  match t.child? .declaration with
  | some decl =>
    if isFunctionDeclaration decl.kind then
      decl.nameText?.toList.map fun name => ⟨name, decl, t.line⟩
    else if isVariables decl.kind then
      (variableNames decl).filterMap fun (name, d) =>
        ((d.child? .value).filter (isFunctionValue ·.kind)).map fun value => ⟨name.text, value, d.line⟩
    else []
  | none =>
    match (t.child? .value).filter (isFunctionValue ·.kind) with
    | some value => value.nameText?.toList.map fun name => ⟨name, value, t.line⟩
    | none => []

/-- Names of hooks: `use` and then a capital letter or a digit. -/
def isHookName (name : String) : Bool :=
  match name.toList with
  | 'u' :: 's' :: 'e' :: c :: _ => c.isUpper || c.isDigit
  | _ => false

/-- The directive that makes functions run on the server. -/
def serverDirective : String := "use server"

/-- Whether the body of a function opens with the directive. -/
def ExportedFunction.isServer (f : ExportedFunction) : Bool :=
  match f.function.bodyBlock? with
  | some body => Tree.opensWith serverDirective body.children
  | none => false

/-! ## Type references -/

/-- Whether a node is the name that its parent declares. -/
def isDeclaredName (parent : Option Tree) (t : Tree) : Bool :=
  match parent with
  | some p => p.kind == .typeParameter || t.role == some .name
  | none => false

/-- The type that a node refers to. -/
def typeReference? (file : String) (parent : Option Tree) (t : Tree) : Option TypeReference :=
  let found : TypeReference := ⟨t.text, file, t.line⟩
  match t.kind with
  | .typeIdentifier => if isDeclaredName parent t then none else some found
  | .identifier => if (parent.map Tree.kind) == some .extendsClause then some found else none
  | _ => none

/-- The declaration of an interface that a node is. -/
def interface? (file : String) (t : Tree) : Option Interface :=
  if t.kind == .interfaceDeclaration then
    (t.child? .name).map fun name => { name := name.text, file := file, line := name.line }
  else none

/-! ## Run-time usages -/

/-- The method that the options of a network call name, in capitals; the first entry `method` decides. -/
def methodOf (options : Tree) : String :=
  let entry := options.children.find? fun p =>
    p.kind == .pair && ((p.child? .key).map Tree.spelledName) == some "method"
  match (entry.bind (Tree.child? · .value)).bind Tree.stringValue? with
  | some m => if m.isEmpty then "GET" else Text.upper m
  | none => "GET"

/-- The network call that a call of `fetch` makes, if its first argument is a literal. -/
def networkCall? (file : String) (t : Tree) : Option DynamicUsage :=
  match (t.child? .arguments).filter (·.kind == .arguments) with
  | none => none
  | some arguments =>
    match arguments.children with
    | [] => none
    | first :: others =>
      first.stringValue?.map fun target =>
        let method :=
          match others with
          | options :: _ => if options.kind == .object then methodOf options else "GET"
          | [] => "GET"
        { kind := .networkCall, target := target, file := file, line := t.line, method := some method }

/-- The usage that a call makes: of a route or of a hook. -/
def callUsage? (file : String) (t : Tree) : Option DynamicUsage :=
  match (t.child? .callee).filter (·.kind == .identifier) with
  | none => none
  | some callee =>
    if callee.text == "fetch" then networkCall? file t
    else if isHookName callee.text then
      some { kind := .hookCall, target := callee.text, file := file, line := t.line }
    else none

/-- The kind of usage that an attribute makes. -/
def actionKind? (name : String) : Option UsageKind :=
  if name == "action" then some .formAction else if name == "formAction" then some .actionCall else none

/-- The usage that an attribute makes: a name in braces is an action. -/
def attributeUsage? (file : String) (t : Tree) : Option DynamicUsage :=
  match t.children with
  | name :: value :: _ =>
    match actionKind? name.text, value.kind == .attributeExpression, value.childOfKind? .identifier with
    | some kind, true, some target => some { kind := kind, target := target.text, file := file, line := t.line }
    | _, _, _ => none
  | _ => none

/-- The usage that a node makes. -/
def usage? (file : String) (t : Tree) : Option DynamicUsage :=
  match t.kind with
  | .call => callUsage? file t
  | .attribute => attributeUsage? file t
  | _ => none

/-! ## Walking -/

/-- The name and the line, which tell the type references of a file apart. -/
def TypeReference.key (r : TypeReference) : String × Nat :=
  (r.name, r.site.line)

/-- A walk over a tree: the nodes that are left to visit, each with its parent, the next of them last; the names and lines
of the type references that were met; and what was found. -/
structure Walk where
  stack : Array (Option Tree × Tree)
  seen : List (String × Nat) := []
  interfaces : List Interface := []
  usages : List DynamicUsage := []
  typeReferences : List TypeReference := []

namespace Walk

/-- The walk over a tree before its first round. -/
def start (tree : Tree) : Walk :=
  { stack := #[(none, tree)] }

/-- A type reference is kept unless one to its name was met on its line. -/
def addReference (w : Walk) (r : TypeReference) : Walk :=
  if w.seen.contains r.key then w
  else { w with seen := r.key :: w.seen, typeReferences := w.typeReferences ++ [r] }

/-- What a node adds. -/
def visit (file : String) (w : Walk) (parent : Option Tree) (t : Tree) : Walk :=
  match t.kind with
  | .interfaceDeclaration => { w with interfaces := w.interfaces ++ (interface? file t).toList }
  | .call | .attribute => { w with usages := w.usages ++ (usage? file t).toList }
  | _ =>
    match typeReference? file parent t with
    | some r => w.addReference r
    | none => w

/-- One round: the last node of the stack is taken off and visited, and its children are put on the stack from the last
to the first. -/
def step? (file : String) (w : Walk) : Option Walk :=
  match w.stack.back? with
  | none => none
  | some (parent, t) =>
    some { w.visit file parent t with stack := w.stack.pop ++ (t.children.map (some t, ·)).reverse }

/-- How many nodes the trees of a list have. -/
def nodeCount : List (Option Tree × Tree) → Nat
  | [] => 0
  | (_, t) :: rest => t.size + nodeCount rest

theorem nodeCount_append (a b : List (Option Tree × Tree)) : nodeCount (a ++ b) = nodeCount a + nodeCount b := by
  induction a with
  | nil => simp [nodeCount]
  | cons x xs ih => simp [nodeCount, ih, Nat.add_assoc]

theorem nodeCount_children (p : Option Tree) (ts : List Tree) :
    nodeCount (ts.map (p, ·)).reverse = Tree.sizeList ts := by
  induction ts with
  | nil => rfl
  | cons t ts ih => simp [nodeCount_append, nodeCount, Tree.sizeList, ih, Nat.add_comm]

/-- How many nodes are left to visit. -/
def pending (w : Walk) : Nat :=
  nodeCount w.stack.toList

/-- A round visits one node. -/
theorem pending_of_step? {file : String} {w next : Walk} (h : w.step? file = some next) :
    w.pending = next.pending + 1 := by
  unfold step? at h
  split at h
  · cases h
  · rename_i parent t hlast
    obtain rfl := Option.some.inj h
    rw [← Array.getLast?_toList, List.getLast?_eq_some_iff] at hlast
    obtain ⟨below, hbelow⟩ := hlast
    have hsize : t.size = Tree.sizeList t.children + 1 := by cases t; rfl
    simp [pending, hbelow, nodeCount_append, nodeCount_children, nodeCount, hsize, Nat.add_assoc]

/-- All rounds, until the stack is empty. -/
def run (file : String) (w : Walk) : Walk :=
  match h : w.step? file with
  | none => w
  | some next =>
    have := pending_of_step? h
    next.run file
termination_by w.pending
decreasing_by omega

end Walk

/-! ## Categories -/

/-- What an export of a file appears to be, given the names of the file's server actions. -/
def categorize (file : String) (actions : List String) (e : Export) : Category :=
  let name := e.ownName
  let ext := Path.extension (Path.basename file)
  if Path.stem file == "route" && !e.isDefault && httpMethods.contains e.name then .routeHandler
  else if actions.contains name then .serverAction
  else if isHookName name then .hook
  else if (ext == ".tsx" || ext == ".jsx") && (e.isDefault || (name.toList.head?.map Text.isUpper).getD false) then
    .component
  else .utility

/-! ## Files -/

/-- Whether the expressions of a file may hold markup: those of all files but plain TypeScript ones. -/
def allowsMarkup (file : String) : Bool :=
  !(Text.endsWith file ".ts" || Text.endsWith file ".mts" || Text.endsWith file ".cts")

/-- The facts of a syntax tree. -/
def FileFacts.ofTree (file : String) (tree : Tree) : FileFacts :=
  let statements := tree.children
  let isServer := Tree.opensWith serverDirective statements
  let exporting := statements.filter (·.kind == .exportStatement)
  let functions := exporting.flatMap functionsOf
  let walked := (Walk.start tree).run file
  let actions := (functions.filter fun f => isServer || f.isServer).map fun f =>
    ({ name := f.name, file := file, line := f.line } : ServerAction)
  let category := categorize file (actions.map (·.name))
  { exports := (exporting.flatMap (exportsOf file)).map fun e => { e with category := some (category e) }
    imports := (statements.filter (·.kind == .importStatement)).filterMap (importOf? file)
    interfaces := walked.interfaces
    typeReferences := walked.typeReferences
    usages := walked.usages
    actions := actions
    hooks := (functions.filter (isHookName ·.name)).map fun f => { name := f.name, file := file, line := f.line } }

/-- The facts of a text. -/
def FileFacts.ofText (file : String) (text : List Char) : FileFacts :=
  FileFacts.ofTree file (Source.parse (allowsMarkup file) text)

/-- The facts of a file's bytes; those that are no text are read as replacement characters. -/
def FileFacts.ofBytes (file : String) (bytes : ByteArray) : FileFacts :=
  FileFacts.ofText file (Text.decodeLossy bytes)

end ExportAudit
