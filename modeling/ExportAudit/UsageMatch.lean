import ExportAudit.Fact
import ExportAudit.Route.Pattern
import ExportAudit.Url

/-!
# Matching run-time usages

Attaches every run-time usage to the declaration it refers to: a network call to the first route that its path meets, a
hook call to the first hook of its name, an action to the first server action of its name.
-/

namespace ExportAudit

/-- Whether the path of a network call meets a route: it is the route's path, lies below it, or has its form. -/
def Route.meets (r : Route) (path : String) : Bool :=
  path == r.path ||
    (Text.startsWith path (Text.stripRight (· == '/') r.path ++ "/") && r.path != "/") ||
    (Text.hasChar r.path '[' && (Route.Pattern.ofRoute r.path).accepts path.toList)

/-- The position of the first route that a target meets. -/
def matchRoute? (routes : List Route) (target : String) : Except Url.Fault (Option Nat) := do
  let path ← Url.targetPath target
  return routes.findIdx? (·.meets path)

/-- The position of the first declaration of a name. -/
def matchName? (declared : List Callable) (name : String) : Option Nat :=
  declared.findIdx? (·.name == name)

/-- What run-time usages may refer to. -/
structure UsageTargets where
  routes : List Route := []
  hooks : List Hook := []
  actions : List ServerAction := []
  deriving DecidableEq, Repr

/-- A declaration with one more usage. -/
def Callable.addUsage (u : DynamicUsage) (c : Callable) : Callable :=
  { c with usedBy := c.usedBy ++ [u] }

/-- A route with one more usage. -/
def Route.addUsage (u : DynamicUsage) (r : Route) : Route :=
  { r with usedBy := r.usedBy ++ [u] }

namespace UsageTargets

/-- Attaches one usage, and tells whether it found its declaration. -/
def attachOne (t : UsageTargets) (u : DynamicUsage) : Except Url.Fault (UsageTargets × Bool) :=
  match u.kind with
  | .networkCall => do
    match ← matchRoute? t.routes u.target with
    | some i => return ({ t with routes := t.routes.modify i (Route.addUsage u) }, true)
    | none => return (t, false)
  | .hookCall =>
    match matchName? t.hooks u.target with
    | some i => .ok ({ t with hooks := t.hooks.modify i (Callable.addUsage u) }, true)
    | none => .ok (t, false)
  | .formAction | .actionCall =>
    match matchName? t.actions u.target with
    | some i => .ok ({ t with actions := t.actions.modify i (Callable.addUsage u) }, true)
    | none => .ok (t, false)

/-- Attaches usages in turn, and counts those that found their declarations. -/
def attach (t : UsageTargets) : List DynamicUsage → Except Url.Fault (UsageTargets × Nat)
  | [] => .ok (t, 0)
  | u :: us => do
    let (t, found) ← t.attachOne u
    let (t, count) ← attach t us
    return (t, count + if found then 1 else 0)

end UsageTargets

end ExportAudit
