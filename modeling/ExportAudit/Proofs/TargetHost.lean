import Mathlib
import ExportAudit.Proofs.Address
import ExportAudit.Proofs.Outcome

/-!
# Which targets of network calls stop an analysis

- `Bracketed`, `WellFormed`: hosts as a URL may name them (`checkBracketed_eq_ok_iff`, `checkHost_eq_ok_iff`);
- attaching one usage fails only over the host of a network call (`exists_attachOne_eq_ok_iff`), so usages can be
  attached, and the project analyzed, exactly when every such host is well formed (`returns_iff_wellFormed`).
-/

namespace ExportAudit

namespace Url

/-! ## Hosts -/

/-- The host that a target names; it is empty where the target names none. -/
def hostOf (target : String) : List Char :=
  (splitHost (dropScheme (clean target.toList))).1

/-- What may stand behind the user of a host that has both brackets. The user may hold one bracket or both, and then
the address need not be closed, or not even be in brackets. -/
inductive Bracketed : List Char → Prop
  | closed {address port : List Char} (hc : ']' ∉ address) (ha : Address address)
      (hp : port = [] ∨ ∃ rest, port = ':' :: rest) : Bracketed ('[' :: (address ++ ']' :: port))
  | unclosed {address : List Char} (hc : ']' ∉ address) (ha : Address address) : Bracketed ('[' :: address)
  | bare {own : List Char} (ho : '[' ∉ own) (ha : Address (own.takeWhile (· != ':'))) : Bracketed own

/-- Hosts as a URL may name them: brackets come in pairs and hold an address, and no character stands for a delimiter
in compatibility form. -/
structure WellFormed (host : List Char) : Prop where
  paired : '[' ∈ host ↔ ']' ∈ host
  bracketed : '[' ∈ host → Bracketed (dropUser host)
  plain : ∀ c ∈ host, isAmbiguous c = false

/-- Cutting at a character that does not occur gives the whole and nothing. -/
theorem cutAt_of_not_mem {sep : Char} {cs : List Char} (h : sep ∉ cs) : cutAt sep cs = (cs, []) := by
  unfold cutAt
  rw [List.takeWhile_eq_self_iff.mpr (bne_of_not_mem h), List.dropWhile_eq_nil_iff.mpr (bne_of_not_mem h)]
  rfl

theorem cutAt_append_cons {sep : Char} {a b : List Char} (h : sep ∉ a) : cutAt sep (a ++ sep :: b) = (a, b) := by
  unfold cutAt
  rw [List.takeWhile_append_of_pos (bne_of_not_mem h), List.dropWhile_append_of_pos (bne_of_not_mem h)]
  simp

theorem cutAt_cons_self {sep : Char} {b : List Char} : cutAt sep (sep :: b) = ([], b) :=
  cutAt_append_cons List.not_mem_nil

theorem bracketed_of_checkBracketed {host : List Char} (h : checkBracketed host = .ok ()) :
    Bracketed (dropUser host) := by
  unfold checkBracketed at h
  generalize dropUser host = own at h ⊢
  by_cases hopen : '[' ∈ own
  · obtain ⟨before, inside, rfl, hbefore⟩ := List.eq_append_cons_of_mem hopen
    simp only [List.contains_eq_mem, hopen, decide_true, if_true, cutAt_append_cons hbefore] at h
    split_ifs at h with hbad
    have haddress := checkAddress_eq_ok_iff.mp h
    simp only [Bool.or_eq_true, Bool.not_eq_true', not_or, Bool.not_eq_false, List.isEmpty_iff] at hbad
    obtain ⟨rfl, hport⟩ := hbad
    by_cases hclose : ']' ∈ inside
    · obtain ⟨address, port, rfl, hc⟩ := List.eq_append_cons_of_mem hclose
      rw [cutAt_append_cons hc] at haddress hport
      refine Bracketed.closed hc haddress ?_
      cases port with
      | nil => exact Or.inl rfl
      | cons c rest => exact Or.inr ⟨rest, by simpa using hport⟩
    · rw [cutAt_of_not_mem hclose] at haddress
      exact Bracketed.unclosed hclose haddress
  · simp only [List.contains_eq_mem, hopen, decide_false, Bool.false_eq_true, if_false] at h
    exact Bracketed.bare hopen (checkAddress_eq_ok_iff.mp h)

theorem checkBracketed_eq_ok_iff {host : List Char} :
    checkBracketed host = .ok () ↔ Bracketed (dropUser host) := by
  refine ⟨bracketed_of_checkBracketed, fun h => ?_⟩
  unfold checkBracketed
  generalize dropUser host = own at h
  cases h with
  | closed hc ha hp =>
    simp only [List.contains_eq_mem, List.mem_cons, true_or, decide_true, if_true, cutAt_cons_self,
      cutAt_append_cons hc, checkAddress_eq_ok_iff.mpr ha]
    rcases hp with rfl | ⟨rest, rfl⟩ <;> rfl
  | unclosed hc ha =>
    simp only [List.contains_eq_mem, List.mem_cons, true_or, decide_true, if_true, cutAt_cons_self,
      cutAt_of_not_mem hc, checkAddress_eq_ok_iff.mpr ha]
    rfl
  | bare ho ha =>
    simp only [List.contains_eq_mem, ho, decide_false, Bool.false_eq_true, if_false]
    exact checkAddress_eq_ok_iff.mpr ha

theorem checkHost_eq_ok_iff {host : List Char} : checkHost host = .ok () ↔ WellFormed host := by
  have hcheck : checkHost host = .ok () ↔ ('[' ∈ host ↔ ']' ∈ host) ∧
      ('[' ∈ host → checkBracketed host = .ok ()) ∧ host.any isAmbiguous = false := by
    unfold checkHost
    simp only [List.contains_eq_mem]
    by_cases hopen : '[' ∈ host <;> by_cases hclose : ']' ∈ host <;>
      simp only [hopen, hclose, decide_true, decide_false]
    · cases checkBracketed host with
      | error fault => simp [bind, Except.bind]
      | ok u =>
        cases host.any isAmbiguous <;>
          simp [bind, Except.bind, pure, Except.pure, throw, throwThe, MonadExceptOf.throw]
    · simp [bind, Except.bind, throw, throwThe, MonadExceptOf.throw]
    · simp [bind, Except.bind, throw, throwThe, MonadExceptOf.throw]
    · cases host.any isAmbiguous <;> simp [pure, Except.pure, throw, throwThe, MonadExceptOf.throw]
  rw [hcheck]
  constructor
  · rintro ⟨hpaired, hbracketed, hplain⟩
    exact ⟨hpaired, fun h => checkBracketed_eq_ok_iff.mp (hbracketed h), by simpa using hplain⟩
  · rintro ⟨hpaired, hbracketed, hplain⟩
    exact ⟨hpaired, fun h => checkBracketed_eq_ok_iff.mpr (hbracketed h), by simpa using hplain⟩

/-- A target has a path exactly when its host is well formed. -/
theorem exists_targetPath_eq_ok_iff {target : String} :
    (∃ path, targetPath target = .ok path) ↔ WellFormed (hostOf target) := by
  rw [← checkHost_eq_ok_iff]
  unfold targetPath hostOf
  cases h : checkHost (splitHost (dropScheme (clean target.toList))).1 with
  | error fault => simp [h, bind, Except.bind]
  | ok u => simp [h, bind, Except.bind, pure, Except.pure]

end Url

/-! ## Usages -/

/-- One usage can be attached unless it is a network call to a host that is not well formed. -/
theorem exists_attachOne_eq_ok_iff (t : UsageTargets) (u : DynamicUsage) :
    (∃ found, t.attachOne u = .ok found) ↔ (u.kind = .networkCall → Url.WellFormed (Url.hostOf u.target)) := by
  rw [← Url.exists_targetPath_eq_ok_iff]
  unfold UsageTargets.attachOne
  cases hk : u.kind with
  | networkCall =>
    unfold matchRoute?
    cases hp : Url.targetPath u.target with
    | error fault => simp [bind, Except.bind]
    | ok path =>
      simp only [bind, Except.bind, pure, Except.pure]
      split <;> simp
  | hookCall | formAction | actionCall =>
    simp only
    split <;> simp

/-- Usages can be attached in turn exactly when each of them can be attached. -/
theorem exists_attach_eq_ok_iff (t : UsageTargets) (us : List DynamicUsage) :
    (∃ found, t.attach us = .ok found) ↔
      ∀ u ∈ us, u.kind = .networkCall → Url.WellFormed (Url.hostOf u.target) := by
  induction us generalizing t with
  | nil => exact ⟨fun _ u hu => absurd hu List.not_mem_nil, fun _ => ⟨_, rfl⟩⟩
  | cons u us ih =>
    rw [List.forall_mem_cons, ← exists_attachOne_eq_ok_iff t u]
    unfold UsageTargets.attach
    cases hone : t.attachOne u with
    | error fault => simp [bind, Except.bind]
    | ok one =>
      rw [← ih one.1]
      cases hrest : one.1.attach us with
      | error fault => simp [bind, Except.bind, hrest]
      | ok rest => simp [bind, Except.bind, pure, Except.pure, hrest]

/-- Run-time usages can be attached and counted, and a project analyzed, exactly when every network call among them is
to a well-formed host. -/
theorem returns_iff_wellFormed (t : UsageTargets) (us : List DynamicUsage) (d : Disk) (root : String)
    (rules : List Rule) (facts : ProjectFacts) (resolver : Resolver) :
    ((∃ t' count, t.attach us = .ok (t', count)) ↔
        ∀ u ∈ us, u.kind = .networkCall → Url.WellFormed (Url.hostOf u.target)) ∧
      ((∃ result, (analyze d root rules facts resolver).1 = .ok result) ↔
        ∀ u ∈ facts.usages, u.kind = .networkCall → Url.WellFormed (Url.hostOf u.target)) := by
  constructor
  · rw [← exists_attach_eq_ok_iff t us, Prod.exists]
  · rw [exists_analyze_eq_ok_iff, exists_attach_eq_ok_iff]
    unfold canonicalUsages
    rw [List.forall_mem_map]

/-- A call whose host opens a bracket and does not close it. -/
def unclosedCall : DynamicUsage :=
  { kind := .networkCall, target := "http://[", file := "/proj/a.ts", line := 1 }

/-- Such a call stops the attaching of usages, and with it the analysis of all the files of a project. -/
theorem unclosedCall_faults : ({} : UsageTargets).attach [unclosedCall] = .error .brackets ∧
    (analyze ⟨.directory [("proj", .directory [("a.ts", .file .empty 0), ("b.ts", .file .empty 0)])], "/proj"⟩ "/proj"
      (rulesOf none) { exports := [{ name := "b", file := "/proj/b.ts", line := 1 }], usages := [unclosedCall] }
      (.ofRoot "/proj" {})).1 = .error .brackets := by
  constructor <;> rfl

end ExportAudit
