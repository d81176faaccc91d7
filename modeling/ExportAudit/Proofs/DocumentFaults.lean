import Mathlib
import ExportAudit.Proofs.TokenFaults

/-!
# The faults of YAML documents

The fault that ends the reading of a text is one of form, the fault behind the tokens, or the fault of a scalar that
stands in the document (`read_fault`). A text with a fault behind it has no value (`ends_of_read`).

A node accounts for a fault if the fault is one of form or that of a scalar in the node (`Node.Explains`). Faults are
looked for twice, by values (`Node.value_fault`, over the tree) and before that level by level (`Node.check_fault`, over
the levels); in both the node that has the fault is held by the root.
-/

namespace ExportAudit.Yaml

namespace Node

/-- A node and those that stand in it. -/
inductive Holds : Node → Node → Prop
  | self (n : Node) : Holds n n
  | item {t : Tag} {items : List Node} {i m : Node} (mem : i ∈ items) (h : Holds i m) : Holds (.sequence t items) m
  | key {t : Tag} {entries : List (Node × Node)} {p : Node × Node} {m : Node} (mem : p ∈ entries) (h : Holds p.1 m) :
      Holds (.mapping t entries) m
  | value {t : Tag} {entries : List (Node × Node)} {p : Node × Node} {m : Node} (mem : p ∈ entries) (h : Holds p.2 m) :
      Holds (.mapping t entries) m

/-- A node accounts for a fault: the fault is one of form, or that of a scalar in the node. -/
def Explains (n : Node) (e : Fault) : Prop :=
  e.isMalformed = true ∨ ∃ m text, n.Holds m ∧ m.scalarText = .ok text ∧ scalarValue m.tag text = .error e

section Explains

variable {e : Fault} {t : Tag}

theorem Explains.trans {n n' : Node} (h : n'.Explains e) (hholds : ∀ m, n'.Holds m → n.Holds m) : n.Explains e := by
  obtain hform | ⟨m, text, hm, hscalar⟩ := h
  · exact .inl hform
  · exact .inr ⟨m, text, hholds m hm, hscalar⟩

theorem Explains.item {items : List Node} {i : Node} (mem : i ∈ items) (h : i.Explains e) :
    (sequence t items).Explains e :=
  h.trans fun _ => .item mem

theorem Explains.entry {entries : List (Node × Node)} {p : Node × Node} (mem : p ∈ entries)
    (h : p.1.Explains e ∨ p.2.Explains e) : (mapping t entries).Explains e := by
  obtain h | h := h
  · exact h.trans fun _ => .key mem
  · exact h.trans fun _ => .value mem

mutual

theorem scalarText_fault : ∀ n : Node, n.scalarText = .error e → e.isMalformed = true
  | .scalar _ _, h => by cases h
  | .sequence _ _, h => by cases h; rfl
  | .cycle, h => by cases h; rfl
  | .mapping _ entries, h => defaultText_fault entries (by rwa [scalarText] at h)

theorem defaultText_fault : ∀ entries : List (Node × Node), defaultText entries = .error e → e.isMalformed = true
  | [], h => by cases h; rfl
  | p :: entries, h => by
    rw [defaultText] at h
    split at h
    · exact entryText_fault p h
    · exact defaultText_fault entries h

theorem entryText_fault : ∀ p : Node × Node, entryText p = .error e → e.isMalformed = true
  | (_, v), h => scalarText_fault v (by rwa [entryText] at h)

end

theorem simpleValue_fault {n : Node} (h : n.simpleValue = .error e) : n.Explains e := by
  unfold simpleValue at h
  split at h
  · cases h
  · dsimp only at h
    split at h
    · cases h
      exact .inl rfl
    · obtain htext | ⟨text, htext, hvalue⟩ := error_of_bind h
      · exact .inl (scalarText_fault n htext)
      · exact .inr ⟨n, text, .self n, htext, hvalue⟩

mutual

theorem value_fault : ∀ n : Node, n.value = .error e → n.Explains e
  | .scalar t text, h => simpleValue_fault (by rwa [value] at h)
  | .cycle, h => by cases h
  | .sequence t items, h => by
    cases t
    case sequence =>
      obtain ⟨i, hi, hfault⟩ := values_fault items (error_of_map h)
      exact hfault.item hi
    case orderedMapping | pairs =>
      obtain ⟨i, hi, hfault⟩ := pairValues_fault items (error_of_map h)
      exact hfault.item hi
    case mapping | set =>
      cases h
      exact .inl rfl
    all_goals exact simpleValue_fault h
  | .mapping t entries, h => by
    cases t
    case mapping | set =>
      obtain ⟨p, hp, hfault⟩ := entryValues_fault entries (error_of_map h)
      exact .entry hp hfault
    case sequence | orderedMapping | pairs =>
      cases h
      exact .inl rfl
    all_goals exact simpleValue_fault h

theorem values_fault : ∀ ns : List Node, values ns = .error e → ∃ n ∈ ns, n.Explains e
  | [], h => by cases h
  | n :: ns, h => by
    rw [values] at h
    obtain hn | ⟨_, _, h⟩ := error_of_bind h
    · exact ⟨n, List.mem_cons_self, value_fault n hn⟩
    · obtain hns | ⟨_, _, h⟩ := error_of_bind h
      · obtain ⟨m, hm, hfault⟩ := values_fault ns hns
        exact ⟨m, List.mem_cons_of_mem n hm, hfault⟩
      · cases h

theorem entryValues_fault : ∀ es : List (Node × Node), entryValues es = .error e →
    ∃ p ∈ es, p.1.Explains e ∨ p.2.Explains e
  | [], h => by cases h
  | p :: es, h => by
    rw [entryValues] at h
    obtain hp | ⟨_, _, h⟩ := error_of_bind h
    · exact ⟨p, List.mem_cons_self, entryValue_fault p hp⟩
    · obtain hes | ⟨_, _, h⟩ := error_of_bind h
      · obtain ⟨q, hq, hfault⟩ := entryValues_fault es hes
        exact ⟨q, List.mem_cons_of_mem p hq, hfault⟩
      · cases h

theorem entryValue_fault : ∀ p : Node × Node, entryValue p = .error e → p.1.Explains e ∨ p.2.Explains e
  | (k, v), h => by
    rw [entryValue] at h
    obtain hk | ⟨key, _, h⟩ := error_of_bind h
    · exact .inl (value_fault k hk)
    · dsimp only at h
      split at h
      · cases h
        exact .inl (.inl rfl)
      · obtain hv | ⟨_, _, h⟩ := error_of_bind h
        · exact .inr (value_fault v hv)
        · cases h

theorem pairValues_fault : ∀ ns : List Node, pairValues ns = .error e → ∃ n ∈ ns, n.Explains e
  | [], h => by cases h
  | n :: ns, h => by
    rw [pairValues] at h
    obtain hn | ⟨_, _, h⟩ := error_of_bind h
    · exact ⟨n, List.mem_cons_self, pairValue_fault n hn⟩
    · obtain hns | ⟨_, _, h⟩ := error_of_bind h
      · obtain ⟨m, hm, hfault⟩ := pairValues_fault ns hns
        exact ⟨m, List.mem_cons_of_mem n hm, hfault⟩
      · cases h

theorem pairValue_fault : ∀ n : Node, pairValue n = .error e → n.Explains e
  | .mapping _ entries, h => onlyEntry_fault entries h
  | .scalar _ _, h => by cases h; exact .inl rfl
  | .sequence _ _, h => by cases h; exact .inl rfl
  | .cycle, h => by cases h; exact .inl rfl

theorem onlyEntry_fault {t : Tag} : ∀ entries : List (Node × Node), onlyEntry entries = .error e →
    (mapping t entries).Explains e
  | [p], h => .entry List.mem_cons_self (freeEntry_fault p h)
  | [], h => by cases h; exact .inl rfl
  | _ :: _ :: _, h => by cases h; exact .inl rfl

theorem freeEntry_fault : ∀ p : Node × Node, freeEntry p = .error e → p.1.Explains e ∨ p.2.Explains e
  | (k, v), h => by
    rw [freeEntry] at h
    obtain hk | ⟨_, _, h⟩ := error_of_bind h
    · exact .inl (value_fault k hk)
    · obtain hv | ⟨_, _, h⟩ := error_of_bind h
      · exact .inr (value_fault v hv)
      · cases h

end

/-! ## Levels -/

theorem meet_fault {n : Node} (h : n.meet = .error e) : n.Explains e := by
  unfold meet at h
  split at h
  · cases h
  · exact simpleValue_fault (error_of_map h)

theorem members_fault {n : Node} (h : n.members = .error e) : n.Explains e := by
  unfold members at h
  split at h
  case h_1 items =>
    obtain hitems | ⟨_, _, h⟩ := error_of_bind h
    · obtain ⟨i, hi, hfault⟩ := error_of_forM hitems
      exact (meet_fault hfault).item hi
    · cases h
  case h_2 entries | h_3 entries =>
    dsimp only at h
    split at h
    · cases h
      exact .inl rfl
    · obtain hentries | ⟨_, _, h⟩ := error_of_bind h
      · obtain ⟨⟨k, v⟩, hp, hfault⟩ := error_of_forM hentries
        refine .entry hp ?_
        obtain hk | ⟨_, _, hfault⟩ := error_of_bind hfault
        · exact .inl (meet_fault hk)
        · dsimp only at hfault
          split at hfault
          · cases hfault
            exact .inl (.inl rfl)
          · exact .inr (meet_fault hfault)
      · cases h
  case h_4 items | h_5 items =>
    obtain hitems | ⟨_, _, h⟩ := error_of_bind h
    · obtain ⟨i, hi, hfault⟩ := error_of_mapM hitems
      refine .item hi ?_
      split at hfault
      · refine .entry List.mem_cons_self ?_
        obtain hk | ⟨_, _, hfault⟩ := error_of_bind hfault
        · exact .inl (meet_fault hk)
        · obtain hv | ⟨_, _, hfault⟩ := error_of_bind hfault
          · exact .inr (meet_fault hv)
          · cases hfault
      · cases hfault
        exact .inl rfl
    · cases h
  case h_6 =>
    cases h
    exact .inl rfl

theorem holds_of_mem_members {n m m' : Node} {ms : List Node} (h : n.members = .ok ms) (hm : m ∈ ms)
    (hm' : m.Holds m') : n.Holds m' := by
  unfold members at h
  split at h
  case h_1 items =>
    obtain ⟨_, _, h⟩ := ok_of_bind h
    cases h
    exact .item hm hm'
  case h_2 entries | h_3 entries =>
    dsimp only at h
    split at h
    · cases h
    · obtain ⟨_, _, h⟩ := ok_of_bind h
      cases h
      obtain ⟨⟨k, v⟩, hp, hmem⟩ := List.mem_flatMap.mp hm
      obtain rfl | hmem := List.mem_cons.mp hmem
      · exact .key hp hm'
      · obtain rfl := List.mem_singleton.mp hmem
        exact .value hp hm'
  case h_4 items | h_5 items =>
    obtain ⟨found, hfound, h⟩ := ok_of_bind h
    cases h
    obtain ⟨pair, hpair, hmem⟩ := List.mem_flatten.mp hm
    obtain ⟨i, hi, h⟩ := exists_of_mem_mapM hfound hpair
    refine .item hi ?_
    split at h
    · obtain ⟨_, _, h⟩ := ok_of_bind h
      obtain ⟨_, _, h⟩ := ok_of_bind h
      cases h
      obtain rfl | hmem := List.mem_cons.mp hmem
      · exact .key List.mem_cons_self hm'
      · obtain rfl := List.mem_singleton.mp hmem
        exact .value List.mem_cons_self hm'
    · cases h
  case h_6 => cases h

theorem checkLevels_fault {k : Nat} {level : List Node} (h : checkLevels k level = .error e) :
    ∃ n ∈ level, n.Explains e := by
  induction k generalizing level with
  | zero => cases h
  | succ k ih =>
    rw [checkLevels] at h
    split at h
    · cases h
    · obtain hlevel | ⟨next, hnext, h⟩ := error_of_bind h
      · obtain ⟨n, hn, hfault⟩ := error_of_mapM hlevel
        exact ⟨n, hn, members_fault hfault⟩
      · obtain ⟨m, hm, hfault⟩ := ih h
        obtain ⟨ms, hms, hmem⟩ := List.mem_flatten.mp (List.mem_of_mem_filter hm)
        obtain ⟨n, hn, hmembers⟩ := exists_of_mem_mapM hnext hms
        exact ⟨n, hn, hfault.trans fun _ => holds_of_mem_members hmembers hmem⟩

theorem check_fault {n : Node} (h : n.check = .error e) : n.Explains e := by
  obtain hmeet | ⟨_, _, h⟩ := error_of_bind h
  · exact meet_fault hmeet
  · obtain ⟨m, hm, hfault⟩ := checkLevels_fault h
    obtain rfl := List.mem_singleton.mp (List.mem_of_mem_filter hm)
    exact hfault

end Explains

end Node

/-- **Where faults come from.** -/
theorem read_fault {s : Source} {e : Fault} (h : read s = .error e) :
    e.isMalformed = true ∨ (Tokens.scan s).ends = some e ∨
      ∃ root m scalar, Node.ofTokens (Tokens.scan s) = .ok (some root) ∧ root.flatten.Holds m ∧
        m.scalarText = .ok scalar ∧ scalarValue m.tag scalar = .error e := by
  obtain hnode | ⟨root?, hnode, h⟩ := error_of_bind h
  · exact (Node.ofTokens_fault hnode).imp id .inl
  · cases root? with
    | none => cases h
    | some root =>
      have hfault : root.flatten.Explains e := by
        obtain hcheck | ⟨_, _, hvalue⟩ := error_of_bind h
        · exact Node.check_fault hcheck
        · exact Node.value_fault _ hvalue
      obtain hform | ⟨m, scalar, hm, htext, hscalar⟩ := hfault
      · exact .inl hform
      · exact .inr (.inr ⟨root, m, scalar, hnode, hm, htext, hscalar⟩)

/-- Where a value comes from: the text has no fault behind it. -/
theorem ends_of_read {s : Source} {v : Value} (h : read s = .ok v) : s.ends = none := by
  obtain ⟨root?, hnode, -⟩ := ok_of_bind h
  exact Tokens.ends_of_scan (Node.ends_of_ofTokens hnode)

end ExportAudit.Yaml
