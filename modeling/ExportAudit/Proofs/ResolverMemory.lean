import Mathlib
import ExportAudit.Resolution
import ExportAudit.Proofs.CanonicalPath

/-!
# What a resolver remembers

`Resolver.answer` is what a resolver of a project says to a reference without remembering anything. A resolver that
has been reset and since then asked from files in normal form, on a tree that stayed as it was, only remembers such
answers (`Resolver.Recalls`): a reset brings this about (`recalls_reset`), every question keeps it (`Recalls.resolve`),
and so every question is answered as if nothing was remembered (`Recalls.resolve_eq_answer`).
-/

namespace ExportAudit

namespace Resolver

variable {d : Disk} {r : Resolver} {reference file : String}

/-- The alias table of the project of a resolver, read afresh. -/
def table (r : Resolver) (d : Disk) : Option CompilerPaths :=
  (readProjectPaths d (Path.normalize r.root)).1

/-- The answer to a reference, found without memory. -/
def answer (r : Resolver) (d : Disk) (reference file : String) : Resolution :=
  if isRelative reference then (resolveRelative d reference file).1
  else (resolveAlias d (r.table d) reference file).1

/-- All that a resolver remembers is what it would find afresh. -/
structure Recalls (d : Disk) (r : Resolver) : Prop where
  tables : ∀ known, r.configs.entries.lookup (Path.normalize r.root) = some known → known = r.table d
  answers : ∀ reference file known, Path.normalize file = file →
    r.answers.lookup (reference, file) = some known → known = r.answer d reference file

theorem recalls_reset (d : Disk) (r : Resolver) : Recalls d r.reset where
  tables _ h := by cases h
  answers _ _ _ _ h := by cases h

theorem answer_reset : r.reset.answer d reference file = r.answer d reference file := rfl

/-- The alias table that is remembered or read is the one of the tree. -/
theorem Recalls.get_fst (h : Recalls d r) : (r.configs.get d r.root).1 = r.table d := by
  simp only [ConfigCache.get]
  split
  · rename_i known hknown
    exact h.tables known hknown
  · unfold table
    cases readProjectPaths d (Path.normalize r.root)
    rfl

/-- Reading the alias table leaves it remembered. -/
theorem Recalls.get_snd (h : Recalls d r) (known : Option CompilerPaths)
    (hknown : (r.configs.get d r.root).2.entries.lookup (Path.normalize r.root) = some known) : known = r.table d := by
  unfold ConfigCache.get at hknown
  simp only at hknown
  split at hknown
  · exact h.tables known hknown
  · rw [List.lookup_cons_self] at hknown
    exact (Option.some.inj hknown).symm

theorem Recalls.search_fst (h : Recalls d r) : (r.search d reference file).1 = r.answer d reference file := by
  unfold search answer
  split
  · rfl
  · exact congrArg (fun table => (resolveAlias d table reference file).1) h.get_fst

theorem Recalls.search_tables (h : Recalls d r) (known : Option CompilerPaths)
    (hknown : (r.search d reference file).2.1.entries.lookup (Path.normalize r.root) = some known) :
    known = r.table d := by
  unfold search at hknown
  split at hknown
  · exact h.tables known hknown
  · exact h.get_snd known hknown

theorem root_resolve (r : Resolver) (d : Disk) (reference file : String) :
    (r.resolve d reference file).2.root = r.root := by
  unfold resolve
  simp only
  split <;> rfl

theorem answer_congr {r' : Resolver} (h : r'.root = r.root) : r'.answer d = r.answer d := by
  unfold answer table
  rw [h]

/-- **Memory does not show**: the answer is the one that would be found afresh. -/
theorem Recalls.resolve_eq_answer (h : Recalls d r) (hfile : Path.normalize file = file) :
    (r.resolve d reference file).1 = r.answer d reference file := by
  unfold resolve
  simp only [hfile]
  split
  · rename_i known hknown
    exact h.answers reference file known hfile hknown
  · exact h.search_fst

/-- A question from a file in normal form adds nothing wrong to what is remembered. -/
theorem Recalls.resolve (h : Recalls d r) (hfile : Path.normalize file = file) :
    Recalls d (r.resolve d reference file).2 := by
  have htable : (r.resolve d reference file).2.table d = r.table d := by unfold table; rw [root_resolve]
  have hanswer : (r.resolve d reference file).2.answer d = r.answer d := answer_congr (root_resolve r d reference file)
  constructor
  · intro known hknown
    rw [root_resolve] at hknown
    rw [htable]
    unfold Resolver.resolve at hknown
    simp only [hfile] at hknown
    split at hknown
    · exact h.tables known hknown
    · exact h.search_tables known hknown
  · intro reference' file' known hfile' hknown
    rw [hanswer]
    unfold Resolver.resolve at hknown
    simp only [hfile] at hknown
    split at hknown
    · exact h.answers reference' file' known hfile' hknown
    · simp only [List.lookup_cons] at hknown
      split at hknown
      · rename_i heq
        obtain ⟨rfl, rfl⟩ : reference' = reference ∧ file' = file := by simpa using heq
        exact (Option.some.inj hknown).symm.trans h.search_fst
      · exact h.answers reference' file' known hfile' hknown

end Resolver

end ExportAudit
