import ExportAudit.Fact
import ExportAudit.Value

/-!
# Facts as records

The shape of each fact in data files: a mapping whose keys stand in a fixed order.
-/

namespace ExportAudit

/-- A line or a count in a record. -/
def Value.ofNat (n : Nat) : Value :=
  .int n

def Site.record (s : Site) : Value :=
  .record [("file", .text s.file), ("line", .ofNat s.line)]

def Export.record (e : Export) : Value :=
  .record
    [("key", .text e.key), ("name", .text e.name), ("local_name", .textOrNull e.localName), ("file", .text e.file),
     ("line", .ofNat e.line), ("is_default", .bool e.isDefault),
     ("category", .textOrNull (e.category.map Category.label)), ("used_by", .list (e.usedBy.map Site.record))]

def Import.record (i : Import) : Value :=
  .record
    [("file", .text i.file), ("line", .ofNat i.line), ("module", .text i.reference), ("imported_names", .texts i.names),
     ("aliases", .record (i.aliases.map fun (b, n) => (b, .text n))), ("namespace_name", .textOrNull i.namespaceName)]

def Interface.record (i : Interface) : Value :=
  .record
    [("name", .text i.name), ("file", .text i.file), ("line", .ofNat i.line),
     ("used_by", .list (i.usedBy.map Site.record))]

def TypeReference.record (r : TypeReference) : Value :=
  .record [("name", .text r.name), ("file", .text r.site.file), ("line", .ofNat r.site.line)]

def DynamicUsage.record (u : DynamicUsage) : Value :=
  .record
    [("kind", .text u.kind.label), ("target", .text u.target), ("method", .textOrNull u.method), ("file", .text u.file),
     ("line", .ofNat u.line)]

def Route.record (r : Route) : Value :=
  .record
    [("route_path", .text r.path), ("file", .text r.file), ("is_api", .bool r.isApi),
     ("methods", (r.methods.map Value.texts).getD .null), ("used_by", .list (r.usedBy.map DynamicUsage.record))]

def Callable.record (c : Callable) : Value :=
  .record
    [("name", .text c.name), ("file", .text c.file), ("line", .ofNat c.line),
     ("used_by", .list (c.usedBy.map DynamicUsage.record))]

/-- The facts of a file, with the errors met in reading it. -/
def FileFacts.record (f : FileFacts) (errors : List String) : Value :=
  .record
    [("exports", .list (f.exports.map Export.record)), ("imports", .list (f.imports.map Import.record)),
     ("interfaces", .list (f.interfaces.map Interface.record)),
     ("potential_interface_usages", .list (f.typeReferences.map TypeReference.record)),
     ("dynamic_usages", .list (f.usages.map DynamicUsage.record)),
     ("server_actions", .list (f.actions.map Callable.record)), ("hooks", .list (f.hooks.map Callable.record)),
     ("parse_errors", .texts errors)]

def ProjectFacts.record (p : ProjectFacts) : Value :=
  .record
    [("exports", .list (p.exports.map Export.record)), ("imports", .list (p.imports.map Import.record)),
     ("interfaces", .list (p.interfaces.map Interface.record)),
     ("potential_interface_usages", .list (p.typeReferences.map TypeReference.record)),
     ("routes", .list (p.routes.map Route.record)), ("dynamic_usages", .list (p.usages.map DynamicUsage.record)),
     ("server_actions", .list (p.actions.map Callable.record)), ("hooks", .list (p.hooks.map Callable.record)),
     ("parse_errors", .texts p.errors), ("file_count", .ofNat p.fileCount)]

end ExportAudit
