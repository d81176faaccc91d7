import ExportAudit.Source.Element

/-!
# Statements

Readers of statements, declarations, imports and exports. A word such as `type` or `export` that ends its line is a name
where a statement may end behind it.
-/

namespace ExportAudit.Source.Parse

/-- The end of a statement: a semicolon, or a place where it may be left out. -/
def terminator (binary : Bool) : Parse Unit := do
  if ← acceptOp ";" then pure ()
  else if ← endsHere binary then pure ()
  else fail

/-! ## Variables -/

/-- One variable with its type and value. -/
def declarator (g : Grammar) (m : Mode) : Parse Tree := do
  let i ← start
  let name ← g .pattern
  let _ ← acceptOp "!"
  let type ← annotation g m.line
  let value ←
    if ← goesOn m then
      if ← acceptOp "=" then pure [(← g (.assignment m)).playing .value] else pure []
    else pure []
  node .declarator i (name.playing .name :: type ++ value)

/-- Variables behind `const`, `let` or `var`. -/
def variableList (g : Grammar) (m : Mode) : Parse Tree := do
  let i ← start
  let w ← peekWord
  keyword w
  let items ← commaSeparated (declarator g m)
  node (if w == "var" then .variableDeclaration else .lexicalDeclaration) i items

/-! ## Declarations of types and namespaces -/

/-- An interface. -/
def interface (g : Grammar) : Parse Tree := do
  let i ← start
  keyword "interface"
  let name ← anyWord .typeIdentifier
  let types ← typeParametersIf g
  let k ← start
  let bases ← if ← acceptWord "extends" then pure [← node .other k (← commaSeparated (g (.type false)))] else pure []
  let body ← objectType g
  node .interfaceDeclaration i (name.playing .name :: types ++ bases ++ [body.playing .body])

/-- A type alias. -/
def typeAlias (g : Grammar) : Parse Tree := do
  let i ← start
  keyword "type"
  let name ← anyWord .typeIdentifier
  let types ← typeParametersIf g
  op "="
  let value ← g (.type true)
  terminator false
  node .typeAlias i (name.playing .name :: types ++ [value.playing .value])

/-- An enumeration. -/
def enumeration (g : Grammar) : Parse Tree := do
  let i ← start
  let _ ← acceptWord "const"
  keyword "enum"
  let name ← anyWord .identifier
  char '\x7b'
  let members ← commaList '\x7d' do
    let k ← start
    let key ← propertyName (g (.sequence .inner))
    node .other k (key :: (← defaultValue g))
  node .enumDeclaration i (name.playing .name :: members)

/-- A namespace or module: its name, with members or in quotes, and its body if it has one. -/
def namespaceDeclaration (g : Grammar) : Parse Tree := do
  let i ← start
  let w ← peekWord
  keyword w
  let k ← start
  let name ← if (← peek) == '"' || (← peek) == '\x27' then string else do
    let _ ← anyWord .identifier
    let _ ← many do
      if ← acceptOp "." then return some (← anyWord .other) else return none
    leaf .identifier k
  let body ← if (← peek) == '\x7b' then pure [(← block g).playing .body] else pure []
  semicolon
  node (if w == "namespace" then .namespaceDeclaration else .moduleDeclaration) i (name.playing .name :: body)

/-- A class declaration with the words before it. -/
def classDeclaration (g : Grammar) (i : Nat) (marks : List Tree) : Parse Tree := do
  let isAbstract ← acceptWord "abstract"
  classFrom g (primary g .statement (← budget)) i (if isAbstract then .abstractClassDeclaration else .classDeclaration) marks

/-- Whether the next word begins a declaration that goes on behind it. -/
def beginsDeclaration : Parse Bool := do
  let w ← peekWord
  let second ← secondWord
  let o ← opAfterWord
  match w with
  | "function" | "class" | "interface" | "enum" | "const" | "var" => return true
  | "let" => return !second.isEmpty && second != "in" && second != "instanceof" || o == "[" || o == "\x7b"
  | "async" => return second == "function"
  | "abstract" => return second == "class"
  | "type" | "namespace" => return !second.isEmpty && second != "in" && second != "instanceof"
  | "module" => return !second.isEmpty && second != "in" && second != "instanceof" || o == "\"" || o == "\x27"
  | "declare" => return !second.isEmpty && second != "in" && second != "instanceof"
  | _ => return false

/-- A declaration that may stand behind `export` and `declare`. -/
def declaration (g : Grammar) : Parse Tree := do
  let i ← start
  match ← peekWord with
  | "function" | "async" => function g true
  | "class" | "abstract" => classDeclaration g i []
  | "interface" => interface g
  | "type" => typeAlias g
  | "enum" => enumeration g
  | "const" =>
    if (← secondWord) == "enum" then enumeration g
    else
      let t ← variableList g .statement
      terminator true
      return t
  | "let" | "var" =>
    let t ← variableList g .statement
    terminator true
    return t
  | "namespace" | "module" => namespaceDeclaration g
  | _ => fail

/-- A declaration behind `declare`; also `declare global`. -/
def ambientDeclaration (g : Grammar) : Parse Tree := do
  let i ← start
  keyword "declare"
  if (← peekWord) == "global" && (← opAfterWord) == "\x7b" then
    keyword "global"
    node .ambientDeclaration i [← block g]
  else
    let inner ← declaration g
    node .ambientDeclaration i [inner]

/-! ## Imports -/

/-- A name in a list of imports or exports: a word or a string. -/
def specifierName : Parse Tree := do
  if (← peek) == '"' || (← peek) == '\x27' then string else anyWord .identifier

/-- Whether the word `type` that is next modifies a specifier rather than being its name. -/
def typeModifies : Parse Bool := do
  let ends := fun (o : String) => o == "," || o == "\x7d"
  let r ← lookahead do
    keyword "type"
    if (← peek) == '"' || (← peek) == '\x27' then return true
    let w ← peekWord
    if w.isEmpty then return false
    if w != "as" then return true
    -- behind `type as`: the name `as`, or an alias of the name `type`
    keyword "as"
    if ends (← peekOp) then return true
    return (← peekWord) == "as" && !(ends (← opAfterWord))
  return r.getD false

/-- One entry of a list of imports or exports. -/
def specifier (kind : Kind) : Parse Tree := do
  let i ← start
  if ← typeModifies then keyword "type"
  let name ← specifierName
  let renamed ← if ← acceptWord "as" then pure [(← specifierName).playing .alias] else pure []
  node kind i (name.playing .name :: renamed)

/-- Names in braces. -/
def specifiers (list entry : Kind) : Parse Tree := do
  let i ← start
  char '\x7b'
  node list i (← commaList '\x7d' (specifier entry))

/-- A namespace behind a star. -/
def namespaceImport : Parse Tree := do
  let i ← start
  op "*"
  keyword "as"
  node .namespaceImport i [← anyWord .identifier]

/-- The names that an import binds. -/
def importClause : Parse Tree := do
  let i ← start
  match ← peek with
  | '\x7b' => node .importClause i [← specifiers .namedImports .importSpecifier]
  | '*' => node .importClause i [← namespaceImport]
  | _ =>
    let name ← anyWord .identifier
    if ← acceptOp "," then
      let second ← if (← peek) == '*' then namespaceImport else specifiers .namedImports .importSpecifier
      node .importClause i [name, second]
    else node .importClause i [name]

/-- The attributes of an import. -/
def importAttributes (g : Grammar) : Parse (List Tree) := do
  let w ← peekWord
  if (w == "with" || w == "assert") && (← opAfterWord) == "\x7b" then
    keyword w
    return [← objectLiteral g]
  else return []

/-- A module behind `from`. -/
def fromClause (g : Grammar) : Parse (List Tree) := do
  keyword "from"
  let source ← string
  return source.playing .source :: (← importAttributes g)

/-- Whether the word `type` that is next modifies an import rather than being its name. -/
def typeModifiesImport : Parse Bool := do
  let r ← lookahead do
    keyword "type"
    if (← peek) == '\x7b' || (← peek) == '*' then return true
    let w ← peekWord
    if w.isEmpty then return false
    if w != "from" then return true
    -- behind `type from`: a name `from` if another `from` or an equals sign follows
    return (← secondWord) == "from" || (← opAfterWord) == "="
  return r.getD false

/-- An import with a name and an equals sign: a module or an alias of a name. -/
def importAlias (g : Grammar) (i : Nat) : Parse Tree := do
  let name ← anyWord .identifier
  op "="
  let value ← g (.assignment .statement)
  terminator false
  node .importStatement i [name, value]

/-- An import statement. -/
def importStatement (g : Grammar) : Parse Tree := do
  let i ← start
  keyword "import"
  if (← peek) == '"' || (← peek) == '\x27' then
    let source ← string
    let attributes ← importAttributes g
    terminator false
    node .importStatement i (source.playing .source :: attributes)
  else
    if ← typeModifiesImport then keyword "type"
    if (← opAfterWord) == "=" then importAlias g i
    else
      let clause ← importClause
      let source ← fromClause g
      terminator false
      node .importStatement i (clause :: source)

/-! ## Exports -/

/-- A default export from the word `default` on. -/
def exportDefault (g : Grammar) (i : Nat) (marks : List Tree) : Parse Tree := do
  let k ← start
  keyword "default"
  let mark ← leaf .defaultMark k
  let d ← start
  let w ← peekWord
  let declared : Parse Tree := do
    let t ← match w with
      | "function" => function g true
      | "async" => function g true
      | "class" => classDeclaration g d []
      | "abstract" => if (← secondWord) == "class" then classDeclaration g d [] else fail
      | "interface" => interface g
      | _ => if (← peek) == '@' then classDeclaration g d (← decorators g) else fail
    if (t.child? .name).isNone then fail
    return t
  match ← attempt declared with
  | some t => node .exportStatement i (marks ++ [mark, t.playing .declaration])
  | none =>
    let value ← g (.sequence .statement)
    terminator true
    node .exportStatement i (marks ++ [mark, value.playing .value])

/-- An export from the word `export` on, with the decorators before it. -/
def exportStatement (g : Grammar) (i : Nat) (marks : List Tree) : Parse Tree := do
  keyword "export"
  let w ← peekWord
  let second ← secondWord
  let next ← opAfterWord
  let c ← peek
  if w == "default" then exportDefault g i marks
  else if c == '*' || (w == "type" && next == "*") then
    let _ ← acceptWord "type"
    let k ← start
    op "*"
    let names ← if ← acceptWord "as" then pure [← node .namespaceExport k [← specifierName]] else pure []
    let source ← fromClause g
    terminator false
    node .exportStatement i (names ++ source)
  else if c == '\x7b' || (w == "type" && next == "\x7b") then
    let _ ← acceptWord "type"
    let clause ← specifiers .exportClause .exportSpecifier
    let source ← if (← peekWord) == "from" then fromClause g else pure []
    terminator false
    node .exportStatement i (clause :: source)
  else if c == '=' then
    op "="
    let value ← g (.sequence .statement)
    terminator true
    node .exportStatement i [value]
  else if w == "as" && second == "namespace" then
    keyword "as"
    keyword "namespace"
    let name ← anyWord .other
    terminator true
    node .exportStatement i [name]
  else if w == "import" then
    let inner ← importStatement g
    node .exportStatement i [(inner.ofKind .other).playing .declaration]
  else if w == "declare" then
    let inner ← ambientDeclaration g
    node .exportStatement i [inner.playing .declaration]
  else
    let k ← start
    let inner ← if c == '@' then classDeclaration g k (← decorators g) else declaration g
    node .exportStatement i (marks ++ [inner.playing .declaration])

/-! ## Control flow -/

/-- An expression in parentheses. -/
def condition (g : Grammar) : Parse Tree := do
  let i ← start
  char '('
  let e ← g (.sequence .inner)
  char ')'
  node .other i [e]

/-- The head of a loop behind `for`. -/
def forHead (g : Grammar) : Parse (List Tree) := do
  char '('
  let m : Mode := ⟨false, false, true⟩
  let w ← peekWord
  let first ←
    if (← peekOp) == ";" then pure []
    else if w == "var" || w == "const" || (w == "let" && (← beginsDeclaration)) then pure [← variableList g m]
    else pure [← g (.sequence m)]
  if (← acceptWord "of") || (← acceptWord "in") then
    let e ← g (.sequence .inner)
    char ')'
    return first ++ [e]
  else
    op ";"
    let second ← if (← peekOp) == ";" then pure [] else pure [← g (.sequence .inner)]
    op ";"
    let third ← if (← peek) == ')' then pure [] else pure [← g (.sequence .inner)]
    char ')'
    return first ++ second ++ third

/-- One case of a switch. -/
def switchCase (g : Grammar) : Parse Tree := do
  let i ← start
  let label ←
    if ← acceptWord "case" then pure [← g (.sequence .inner)]
    else do
      keyword "default"
      pure []
  op ":"
  let body ← many do
    let w ← peekWord
    if (← peek) == '\x7d' || w == "case" || (w == "default" && (← opAfterWord) == ":") then return none
    else return some (← g .statement)
  node .other i (label ++ body)

/-- The parts of a `try` statement behind its block. -/
def handlers (g : Grammar) : Parse (List Tree) := do
  let caught ←
    if ← acceptWord "catch" then
      let binding ← if (← peek) == '(' then do
          char '('
          let name ← g .pattern
          let type ← annotation g false
          char ')'
          pure (name :: type)
        else pure []
      pure (binding ++ [← block g])
    else pure []
  let last ← if ← acceptWord "finally" then pure [← block g] else pure []
  return caught ++ last

/-- A jump with the value that it carries, if any. -/
def jumpStatement (g : Grammar) : Parse (List Tree) := do
  if (← peekOp) == ";" || (← endsHere true) then
    semicolon
    return []
  else
    let e ← g (.sequence .statement)
    terminator true
    return [e]

/-- A statement that begins with a word of control flow. -/
def controlStatement (g : Grammar) (i : Nat) (w : String) : Parse Tree := do
  keyword w
  match w with
  | "if" =>
    let c ← condition g
    let yes ← g .statement
    let no ← if ← acceptWord "else" then pure [← g .statement] else pure []
    node .other i (c :: yes :: no)
  | "for" =>
    let _ ← acceptWord "await"
    let head ← forHead g
    node .other i (head ++ [← g .statement])
  | "while" | "with" =>
    let c ← condition g
    node .other i [c, ← g .statement]
  | "do" =>
    let body ← g .statement
    keyword "while"
    let c ← condition g
    semicolon
    node .other i [body, c]
  | "switch" =>
    let c ← condition g
    char '\x7b'
    let cases ← many do
      if (← peek) == '\x7d' then return none else return some (← switchCase g)
    char '\x7d'
    node .other i (c :: cases)
  | "try" =>
    let body ← block g
    node .other i (body :: (← handlers g))
  | "break" | "continue" =>
    if !(← breaksHere) && !(← peekWord).isEmpty then
      let _ ← anyWord .other
    terminator false
    node .other i []
  | "debugger" =>
    terminator false
    node .other i []
  | _ => node .other i (← jumpStatement g)

/-- Words of control flow. -/
def controlWords : List String :=
  ["if", "for", "while", "with", "do", "switch", "try", "break", "continue", "debugger", "return", "throw"]

/-! ## Statements -/

/-- An expression as a statement. -/
def expressionStatement (g : Grammar) : Parse Tree := do
  let i ← start
  let e ← g (.sequence .statement)
  terminator true
  node .expressionStatement i [e]

/-- Whether the next word ends its line, so that it is a name and not the beginning of a declaration. -/
def wordEndsStatement : Parse Bool := do
  let r ← lookahead do
    let _ ← anyWord .other
    endsHere true
  return r.getD false

/-- Words that are names where a statement may end behind them. -/
def softWords : List String := ["export", "type", "let", "declare", "namespace", "module", "async"]

/-- A statement. -/
def statement (g : Grammar) : Parse Tree := do
  let i ← start
  match ← peek with
  | ';' =>
    char ';'
    node .emptyStatement i []
  | '\x7b' => block g
  | '@' =>
    let marks ← decorators g
    if (← peekWord) == "export" then exportStatement g i marks else classDeclaration g i marks
  | _ =>
    let w ← peekWord
    let next ← opAfterWord
    if w.isEmpty then expressionStatement g
    else if softWords.contains w && (← wordEndsStatement) then expressionStatement g
    else if controlWords.contains w then controlStatement g i w
    else if w == "export" then exportStatement g i []
    else if w == "import" && next != "(" && next != "." then importStatement g
    else if next == ":" then
      let _ ← anyWord .other
      op ":"
      node .other i [← g .statement]
    else if ← beginsDeclaration then
      if w == "declare" then ambientDeclaration g else declaration g
    else expressionStatement g

end ExportAudit.Source.Parse
