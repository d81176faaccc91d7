import ExportAudit.Fact

/-!
# Usages of interfaces

A name in a type position counts as a usage of every interface declared with that name, in any file; a site is attached
once. `attachReferences` goes through the references in turn; to each interface it attaches the sites of the references
to its name, whatever the other interfaces are (`fst_attachReferences`).
-/

namespace ExportAudit

/-- An interface with a reference attached, if it is to its name and from a new site, and whether it is. -/
def Interface.attachOne (r : TypeReference) (i : Interface) : Interface × Bool :=
  if i.name == r.name && !i.usedBy.contains r.site then ({ i with usedBy := i.usedBy ++ [r.site] }, true)
  else (i, false)

/-- Interfaces with a reference attached to all that have its name, and the number of sites added. -/
def attachReference (interfaces : List Interface) (r : TypeReference) : List Interface × Nat :=
  let attached := interfaces.map (Interface.attachOne r)
  (attached.map (·.1), attached.countP (·.2))

/-- Attaches references in turn, and counts the sites added. -/
def attachReferences (interfaces : List Interface) : List TypeReference → List Interface × Nat
  | [] => (interfaces, 0)
  | r :: rest =>
    let one := attachReference interfaces r
    let all := attachReferences one.1 rest
    (all.1, one.2 + all.2)

/-! ## One interface among others -/

/-- The sites of the references to a name, in their order. -/
def sitesOf (references : List TypeReference) (name : String) : List Site :=
  (references.filter (·.name == name)).map (·.site)

/-- An interface with the sites of all references to its name. -/
def Interface.attach (references : List TypeReference) (i : Interface) : Interface :=
  { i with usedBy := (sitesOf references i.name).foldl Site.attach i.usedBy }

theorem Interface.attach_cons (r : TypeReference) (rest : List TypeReference) (i : Interface) :
    i.attach (r :: rest) = (i.attachOne r).1.attach rest := by
  unfold attach attachOne sitesOf
  by_cases hname : r.name = i.name
  · by_cases hsite : r.site ∈ i.usedBy <;> simp [hname, hsite, Site.attach]
  · have hname' : ¬ i.name = r.name := fun h => hname h.symm
    simp [hname, hname']

/-- Every interface gets the references to its name. -/
theorem fst_attachReferences (interfaces : List Interface) (references : List TypeReference) :
    (attachReferences interfaces references).1 = interfaces.map (Interface.attach references) := by
  induction references generalizing interfaces with
  | nil =>
    have hid : Interface.attach [] = id := rfl
    rw [hid, List.map_id]
    rfl
  | cons r rest ih =>
    have hstep : Interface.attach (r :: rest) = Interface.attach rest ∘ fun i => (Interface.attachOne r i).1 :=
      funext fun i => Interface.attach_cons r rest i
    rw [attachReferences, ih, attachReference, List.map_map, List.map_map, hstep]
    rfl

end ExportAudit
