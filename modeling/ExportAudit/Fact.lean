import ExportAudit.Path

/-!
# Facts

What reading a project yields, before any conclusion is drawn: the exports and imports of its files, its interfaces and
the places that name a type, its routes, server actions and hooks, and the usages that only happen at run time. Lines
are counted from one; files are named by their paths.

An export is identified by its key (`Export.key`): the normal form of its file, its name, and whether it is a default.
-/

namespace ExportAudit

/-! ## Sites -/

/-- A place where something is used. -/
structure Site where
  file : String
  line : Nat
  deriving DecidableEq, Repr

/-- The site of usages that the framework makes by its conventions. -/
def Site.framework : Site := ⟨"<framework>", 0⟩

/-- Whether the framework itself is the user. -/
def Site.isFramework (s : Site) : Bool :=
  s.file == Site.framework.file

/-- A site attached once; nothing changes if it was already there. -/
def Site.attach (sites : List Site) (s : Site) : List Site :=
  if sites.contains s then sites else sites ++ [s]

/-! ## Exports and imports -/

/-- What an export appears to be. -/
inductive Category where
  | routeHandler
  | serverAction
  | hook
  | component
  | utility
  deriving DecidableEq, Repr

/-- The label of a category in records. -/
def Category.label : Category → String
  | .routeHandler => "route-handler"
  | .serverAction => "server-action"
  | .hook => "hook"
  | .component => "component"
  | .utility => "utility"

/-- A binding that a file offers to importers. The local name of an anonymous default is none. -/
structure Export where
  name : String
  file : String
  line : Nat
  isDefault : Bool := false
  localName : Option String := none
  category : Option Category := none
  usedBy : List Site := []
  deriving DecidableEq, Repr

/-- The truth values as they stand in keys. -/
def flagText (b : Bool) : String :=
  if b then "True" else "False"

/-- The key of an export. -/
def exportKey (file name : String) (isDefault : Bool) : String :=
  Path.normalize file ++ "|" ++ name ++ "|" ++ flagText isDefault

namespace Export

def key (e : Export) : String :=
  exportKey e.file e.name e.isDefault

def isUsed (e : Export) : Bool :=
  !e.usedBy.isEmpty

/-- The name in reports: a default shows its local name. -/
def displayName (e : Export) : String :=
  if !e.isDefault then e.name
  else
    match e.localName with
    | some l => if l.isEmpty then e.name ++ " (default)" else e.name ++ " (default: " ++ l ++ ")"
    | none => e.name ++ " (default)"

/-- The export with one more usage. -/
def addUsage (e : Export) (s : Site) : Export :=
  { e with usedBy := Site.attach e.usedBy s }

/-- The local name where there is one that is not empty, else the name. -/
def ownName (e : Export) : String :=
  match e.localName with
  | some l => if l.isEmpty then e.name else l
  | none => e.name

end Export

/-- One import statement: the names it binds, those of them that rename an export, and the name of a whole module. -/
structure Import where
  file : String
  reference : String
  line : Nat
  names : List String := []
  aliases : List (String × String) := []
  namespaceName : Option String := none
  deriving DecidableEq, Repr

/-- A renaming put in the place of the one with its bound name, or at the end. -/
def Import.putAlias (bound name : String) : List (String × String) → List (String × String)
  | [] => [(bound, name)]
  | (b, n) :: rest => if b == bound then (b, name) :: rest else (b, n) :: putAlias bound name rest

/-- The name that a bound name has in the module it comes from. -/
def Import.lookupName (i : Import) (bound : String) : String :=
  ((i.aliases.find? fun a => a.1 == bound).map (·.2)).getD bound

/-! ## Interfaces -/

/-- One declaration of an interface; declarations that merge stay apart. -/
structure Interface where
  name : String
  file : String
  line : Nat
  usedBy : List Site := []
  deriving DecidableEq, Repr

/-- The key of an interface declaration. -/
def Interface.key (i : Interface) : String :=
  Path.normalize i.file ++ "|" ++ i.name ++ "|" ++ toString i.line

/-- A name that stands for a type. -/
structure TypeReference where
  name : String
  site : Site
  deriving DecidableEq, Repr

/-! ## Usages at run time -/

/-- How something is used past the imports. -/
inductive UsageKind where
  | networkCall
  | formAction
  | hookCall
  | actionCall
  deriving DecidableEq, Repr

/-- The label of a kind in records. -/
def UsageKind.label : UsageKind → String
  | .networkCall => "network-call"
  | .formAction => "form-action"
  | .hookCall => "hook-call"
  | .actionCall => "action-call"

/-- A usage at run time. A network call has a method. -/
structure DynamicUsage where
  kind : UsageKind
  target : String
  file : String
  line : Nat
  method : Option String := none
  deriving DecidableEq, Repr

/-- Where a usage stands. -/
def DynamicUsage.site (u : DynamicUsage) : Site :=
  ⟨u.file, u.line⟩

/-- A route of the application, with the methods that its file exports when it is a route handler. -/
structure Route where
  path : String
  file : String
  isApi : Bool := false
  methods : Option (List String) := none
  usedBy : List DynamicUsage := []
  deriving DecidableEq, Repr

/-- An exported function that is used by its name. -/
structure Callable where
  name : String
  file : String
  line : Nat
  usedBy : List DynamicUsage := []
  deriving DecidableEq, Repr

/-- A function that runs on the server. -/
abbrev ServerAction := Callable

/-- A function whose name marks it as a hook. -/
abbrev Hook := Callable

/-- The methods of network calls. -/
def httpMethods : List String :=
  ["GET", "POST", "PUT", "PATCH", "DELETE", "OPTIONS", "HEAD"]

/-! ## Collections of facts -/

/-- What one source file yields. -/
structure FileFacts where
  exports : List Export := []
  imports : List Import := []
  interfaces : List Interface := []
  typeReferences : List TypeReference := []
  usages : List DynamicUsage := []
  actions : List ServerAction := []
  hooks : List Hook := []
  deriving DecidableEq, Repr

/-- What a project yields. -/
structure ProjectFacts where
  exports : List Export := []
  imports : List Import := []
  interfaces : List Interface := []
  typeReferences : List TypeReference := []
  routes : List Route := []
  actions : List ServerAction := []
  hooks : List Hook := []
  usages : List DynamicUsage := []
  errors : List String := []
  fileCount : Nat := 0
  deriving DecidableEq, Repr

/-- The facts of a project with those of one more file. -/
def ProjectFacts.add (p : ProjectFacts) (f : FileFacts) : ProjectFacts :=
  { p with
    exports := p.exports ++ f.exports
    imports := p.imports ++ f.imports
    interfaces := p.interfaces ++ f.interfaces
    typeReferences := p.typeReferences ++ f.typeReferences
    usages := p.usages ++ f.usages
    actions := p.actions ++ f.actions
    hooks := p.hooks ++ f.hooks
    fileCount := p.fileCount + 1 }

end ExportAudit
