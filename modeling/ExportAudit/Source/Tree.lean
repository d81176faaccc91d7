/-!
# Syntax trees

The tree of a TypeScript or JavaScript source file, with the distinctions that the facts rest on; every other construct
is a node of kind `other` that is kept for its parts. A node knows the part it plays in its parent (`Role`), the line it
begins on, and, when it is a leaf or a name, its source text. Comments are nodes only where they take up a position: in
an argument list and in an attribute.

`Tree.preorder` lists a tree from left to right, each node with its parent.
-/

namespace ExportAudit.Source

/-- What a node is. -/
inductive Kind where
  | program
  | hashBang
  | comment
  | emptyStatement
  | expressionStatement
  | block
  | importStatement
  | importClause
  | namespaceImport
  | namedImports
  | importSpecifier
  | exportStatement
  | defaultMark
  | namespaceExport
  | exportClause
  | exportSpecifier
  | ambientDeclaration
  | functionDeclaration
  | generatorDeclaration
  | functionSignature
  | classDeclaration
  | abstractClassDeclaration
  | interfaceDeclaration
  | typeAlias
  | enumDeclaration
  | namespaceDeclaration
  | moduleDeclaration
  | lexicalDeclaration
  | variableDeclaration
  | declarator
  | arrowFunction
  | functionExpression
  | generatorExpression
  | classExpression
  | identifier
  | typeIdentifier
  | typeParameter
  | extendsClause
  | string
  | template
  | substitution
  | call
  | arguments
  | object
  | pair
  | attribute
  | attributeExpression
  | other
  deriving DecidableEq, Repr

/-- The part that a node plays in its parent. -/
inductive Role where
  | name
  | source
  | alias
  | declaration
  | value
  | body
  | callee
  | arguments
  | key
  deriving DecidableEq, Repr

/-- A syntax tree. -/
inductive Tree where
  | node (kind : Kind) (role : Option Role) (line : Nat) (text : String) (children : List Tree)

namespace Tree

def kind : Tree → Kind
  | .node k _ _ _ _ => k

def role : Tree → Option Role
  | .node _ r _ _ _ => r

/-- The line that a node begins on, counted from one. -/
def line : Tree → Nat
  | .node _ _ l _ _ => l

/-- The source text of a leaf or a name. -/
def text : Tree → String
  | .node _ _ _ t _ => t

def children : Tree → List Tree
  | .node _ _ _ _ cs => cs

/-- The same node in another part. -/
def playing (r : Role) : Tree → Tree
  | .node k _ l t cs => .node k (some r) l t cs

/-- The same node as another kind. -/
def ofKind (k : Kind) : Tree → Tree
  | .node _ r l t cs => .node k r l t cs

/-- The first child that plays a part. -/
def child? (t : Tree) (r : Role) : Option Tree :=
  t.children.find? fun c => c.role == some r

/-- The first child of a kind. -/
def childOfKind? (t : Tree) (k : Kind) : Option Tree :=
  t.children.find? fun c => c.kind == k

mutual

/-- How many nodes a tree has. -/
def size : Tree → Nat
  | .node _ _ _ _ cs => sizeList cs + 1

/-- How many nodes a list of trees has. -/
def sizeList : List Tree → Nat
  | [] => 0
  | t :: ts => size t + sizeList ts

end

mutual

/-- The nodes of a tree from left to right, a node before its children, each with its parent. -/
def preorder (parent : Option Tree) : Tree → List (Option Tree × Tree)
  | .node k r l x cs => (parent, .node k r l x cs) :: preorderList (some (.node k r l x cs)) cs

/-- The nodes of several trees with one parent. -/
def preorderList (parent : Option Tree) : List Tree → List (Option Tree × Tree)
  | [] => []
  | t :: ts => preorder parent t ++ preorderList parent ts

end

end Tree

end ExportAudit.Source
