import Mathlib
import ExportAudit.Proofs.ResolverMemory

/-!
# A resolver through time

A resolver is asked, reset, and meanwhile the tree it works on changes (`Event`, `World.run`). Its history falls into
periods that begin when it is made or reset. Within a period:

- what was answered stays remembered whatever happens to the tree (`lookup_run`);
- on a tree that stays as it is, all that is remembered is what would be found afresh (`recalls_run`);
- the counts are those of the questions asked, and the alias table is read at most once (`tallied_run`).

`memory_transparent` draws the conclusions about the answers (`Transparent`).
-/

namespace ExportAudit

namespace Resolver

/-! ## Histories -/

/-- What happens to a resolver and its tree: a question, a reset, or any change of the tree. -/
inductive Event where
  | ask (reference file : String)
  | reset
  | edit (change : Disk → Disk)

/-- The questions among events, with the files they are asked from. -/
def questions (events : List Event) : List (String × String) :=
  events.filterMap fun
    | .ask reference file => some (reference, file)
    | _ => none

/-- A resolver and the tree that it works on. -/
structure World where
  resolver : Resolver
  disk : Disk

namespace World

/-- A new resolver for a project, with what is known of alias tables. -/
def opened (root : String) (configs : ConfigCache) (d : Disk) : World :=
  ⟨.ofRoot root configs, d⟩

def step (w : World) : Event → World
  | .ask reference file => { w with resolver := (w.resolver.resolve w.disk reference file).2 }
  | .reset => { w with resolver := w.resolver.reset }
  | .edit change => { w with disk := change w.disk }

def run (w : World) (events : List Event) : World :=
  events.foldl step w

/-- The answer to a question. -/
def answer (w : World) (reference file : String) : Resolution :=
  (w.resolver.resolve w.disk reference file).1

theorem run_append (w : World) (events more : List Event) : w.run (events ++ more) = (w.run events).run more :=
  List.foldl_append

theorem run_concat (w : World) (events : List Event) (e : Event) : w.run (events ++ [e]) = (w.run events).step e :=
  run_append w events [e]

end World

theorem questions_concat_ask (events : List Event) (reference file : String) :
    questions (events ++ [.ask reference file]) = questions events ++ [(reference, file)] := by
  simp [questions]

theorem questions_concat_edit (events : List Event) (change : Disk → Disk) :
    questions (events ++ [.edit change]) = questions events := by
  simp [questions]

/-! ## One question -/

section Question

variable {d : Disk} {r : Resolver} {reference file : String}

/-- A question that was asked before is answered from memory. -/
theorem resolve_of_known {known : Resolution} (h : r.answers.lookup (reference, Path.normalize file) = some known) :
    r.resolve d reference file =
      (known, { r with stats := { r.stats with lookups := r.stats.lookups + 1, hits := r.stats.hits + 1 } }) := by
  unfold resolve
  simp only [h]

/-- A new question is searched for, and its answer is remembered. -/
theorem resolve_of_new (h : r.answers.lookup (reference, Path.normalize file) = none) :
    r.resolve d reference file = ((r.search d reference file).1,
      { r with
        configs := (r.search d reference file).2.1
        answers := ((reference, Path.normalize file), (r.search d reference file).1) :: r.answers
        stats := { r.stats with
          lookups := r.stats.lookups + 1
          probes := r.stats.probes + (r.search d reference file).2.2 } }) := by
  unfold resolve
  simp only [h]

/-- An answer is remembered once it is given. -/
theorem lookup_resolve (r : Resolver) (d : Disk) (reference file : String) :
    (r.resolve d reference file).2.answers.lookup (reference, Path.normalize file) =
      some (r.resolve d reference file).1 := by
  cases h : r.answers.lookup (reference, Path.normalize file) with
  | some known => rw [resolve_of_known h]; exact h
  | none => rw [resolve_of_new h]; exact List.lookup_cons_self

/-- What is remembered stays remembered when another question is asked. -/
theorem lookup_resolve_of_some {q : String × String} {known : Resolution} (hq : r.answers.lookup q = some known) :
    (r.resolve d reference file).2.answers.lookup q = some known := by
  cases h : r.answers.lookup (reference, Path.normalize file) with
  | some other => rw [resolve_of_known h]; exact hq
  | none =>
    rw [resolve_of_new h]
    have hne : (q == (reference, Path.normalize file)) = false := by
      rw [beq_eq_false_iff_ne]
      rintro rfl
      rw [h] at hq
      cases hq
    rw [List.lookup_cons, hne]
    exact hq

/-- The alias table is read when it is not known, and then it is known. -/
theorem get_reads (c : ConfigCache) (d : Disk) (root : String) :
    (∃ known, c.entries.lookup (Path.normalize root) = some known ∧ (c.get d root).2 = c) ∨
      c.entries.lookup (Path.normalize root) = none ∧ (c.get d root).2.reads = c.reads + 1 ∧
        ∃ known, (c.get d root).2.entries.lookup (Path.normalize root) = some known := by
  unfold ConfigCache.get
  cases h : c.entries.lookup (Path.normalize root) with
  | some known => exact Or.inl ⟨known, rfl, by simp only [h]⟩
  | none =>
    simp only [h]
    exact Or.inr ⟨trivial, trivial, _, List.lookup_cons_self⟩

end Question

/-! ## Periods -/

section Periods

variable {w : World} {events : List Event}

/-- A resolver that remembers nothing: it has been made or reset. -/
structure Blank (r : Resolver) : Prop where
  answers : r.answers = []
  tables : r.configs.entries = []
  stats : r.stats = {}

theorem blank_reset (r : Resolver) : Blank r.reset := ⟨rfl, rfl, rfl⟩

theorem blank_ofRoot {root : String} {configs : ConfigCache} (h : configs.entries = []) :
    Blank (ofRoot root configs) := ⟨rfl, h, rfl⟩

theorem Blank.recalls {r : Resolver} (h : Blank r) (d : Disk) : Recalls d r where
  tables known hknown := by rw [h.tables] at hknown; cases hknown
  answers reference file known _ hknown := by rw [h.answers] at hknown; cases hknown

theorem root_run (w : World) (events : List Event) : (w.run events).resolver.root = w.resolver.root := by
  induction events using List.reverseRecOn with
  | nil => rfl
  | append_singleton events e ih =>
    rw [World.run_concat, ← ih]
    cases e with
    | ask reference file => exact root_resolve _ _ _ _
    | reset | edit change => rfl

/-- What is remembered stays so until the next reset. -/
theorem lookup_run (hreset : Event.reset ∉ events) {q : String × String} {known : Resolution}
    (hq : w.resolver.answers.lookup q = some known) : (w.run events).resolver.answers.lookup q = some known := by
  induction events using List.reverseRecOn with
  | nil => exact hq
  | append_singleton events e ih =>
    rw [List.mem_append, not_or] at hreset
    rw [World.run_concat]
    cases e with
    | ask reference file => exact lookup_resolve_of_some (ih hreset.1)
    | reset => exact absurd List.mem_cons_self hreset.2
    | edit change => exact ih hreset.1

/-- On a tree that stays as it is, a period adds nothing wrong to what is remembered. -/
theorem recalls_run (hw : Recalls w.disk w.resolver) (hreset : Event.reset ∉ events)
    (hfiles : ∀ q ∈ questions events, Path.normalize q.2 = q.2)
    (hdisk : ∀ past, past <+: events → (w.run past).disk = w.disk) : Recalls w.disk (w.run events).resolver := by
  induction events using List.reverseRecOn with
  | nil => exact hw
  | append_singleton events e ih =>
    rw [List.mem_append, not_or] at hreset
    have hpast := ih hreset.1
    have hbefore : ∀ past, past <+: events → (w.run past).disk = w.disk :=
      fun past hp => hdisk past (hp.trans (List.prefix_append _ _))
    rw [World.run_concat]
    cases e with
    | ask reference file =>
      rw [questions_concat_ask] at hfiles
      have hfile : Path.normalize file = file := hfiles (reference, file) (by simp)
      have hrecalls : Recalls w.disk ((w.run events).resolver.resolve w.disk reference file).2 :=
        (hpast (fun q hq => hfiles q (List.mem_append_left _ hq)) hbefore).resolve hfile
      rw [← hbefore events (List.prefix_refl _)] at hrecalls ⊢
      exact hrecalls
    | reset => exact absurd List.mem_cons_self hreset.2
    | edit change =>
      rw [questions_concat_edit] at hfiles
      exact hpast hfiles hbefore

/-- The counts of a resolver after some questions since it was blank, when its alias tables had been read `reads`
times. -/
structure Tallied (reads : Nat) (asked : List (String × String)) (r : Resolver) : Prop where
  lookups : r.stats.lookups = asked.length
  known : ∀ q, (r.answers.lookup q).isSome = true ↔ q ∈ asked
  hits : r.stats.hits + asked.toFinset.card = asked.length
  table : r.configs.reads = reads ∧ r.configs.entries.lookup (Path.normalize r.root) = none ∨
    r.configs.reads = reads + 1 ∧ ∃ known, r.configs.entries.lookup (Path.normalize r.root) = some known

theorem Blank.tallied {r : Resolver} (h : Blank r) : Tallied r.configs.reads [] r where
  lookups := by rw [h.stats]; rfl
  known q := by rw [h.answers]; simp
  hits := by rw [h.stats]; rfl
  table := Or.inl ⟨rfl, by rw [h.tables]; rfl⟩

variable {reads : Nat} {asked : List (String × String)} {r : Resolver} {d : Disk} {reference file : String}

theorem Tallied.search_table (h : Tallied reads asked r) :
    (r.search d reference file).2.1.reads = reads ∧
        (r.search d reference file).2.1.entries.lookup (Path.normalize r.root) = none ∨
      (r.search d reference file).2.1.reads = reads + 1 ∧
        ∃ known, (r.search d reference file).2.1.entries.lookup (Path.normalize r.root) = some known := by
  unfold search
  split
  · exact h.table
  · rcases get_reads r.configs d r.root with ⟨known, hknown, hsame⟩ | ⟨hnone, hreads, hknown⟩
    · simp only [hsame]
      exact h.table
    · rcases h.table with ⟨hold, -⟩ | ⟨-, known, hsome⟩
      · exact Or.inr ⟨hreads.trans (by rw [hold]), hknown⟩
      · rw [hnone] at hsome
        cases hsome

/-- One more question, from a file in normal form. -/
theorem Tallied.resolve (h : Tallied reads asked r) (hfile : Path.normalize file = file) :
    Tallied reads (asked ++ [(reference, file)]) (r.resolve d reference file).2 := by
  have hcard : (asked ++ [(reference, file)]).toFinset = insert (reference, file) asked.toFinset := by
    ext q
    simp [or_comm]
  have hlookups := h.lookups
  have hhits := h.hits
  cases hkey : r.answers.lookup (reference, Path.normalize file) with
  | some known =>
    have hasked : (reference, file) ∈ asked := (h.known _).1 (by rw [← hfile, hkey]; rfl)
    rw [resolve_of_known hkey]
    refine ⟨?_, fun q => ?_, ?_, h.table⟩
    · simp [hlookups]
    · rw [h.known, List.mem_append, List.mem_singleton]
      exact ⟨Or.inl, fun hq => hq.elim id fun e => e ▸ hasked⟩
    · rw [hcard, Finset.insert_eq_of_mem (List.mem_toFinset.mpr hasked), List.length_append, List.length_singleton]
      simp only
      omega
  | none =>
    have hasked : (reference, file) ∉ asked := by
      rw [← h.known, ← hfile, hkey]
      exact Bool.false_ne_true
    rw [resolve_of_new hkey]
    refine ⟨?_, fun q => ?_, ?_, h.search_table⟩
    · simp [hlookups]
    · rw [List.mem_append, List.mem_singleton, ← h.known, hfile]
      simp only [List.lookup_cons]
      cases hq : q == (reference, file) with
      | true => simp [beq_iff_eq.mp hq]
      | false => simp [beq_eq_false_iff_ne.mp hq]
    · rw [hcard, Finset.card_insert_of_notMem (mt List.mem_toFinset.mp hasked), List.length_append,
        List.length_singleton]
      simp only
      omega

/-- The counts within a period. -/
theorem tallied_run (hw : Tallied reads [] w.resolver) (hreset : Event.reset ∉ events)
    (hfiles : ∀ q ∈ questions events, Path.normalize q.2 = q.2) :
    Tallied reads (questions events) (w.run events).resolver := by
  induction events using List.reverseRecOn with
  | nil => exact hw
  | append_singleton events e ih =>
    rw [List.mem_append, not_or] at hreset
    rw [World.run_concat]
    cases e with
    | ask reference file =>
      rw [questions_concat_ask] at hfiles ⊢
      have hpast := ih hreset.1 fun q hq => hfiles q (List.mem_append_left _ hq)
      exact hpast.resolve (hfiles (reference, file) (by simp))
    | reset => exact absurd List.mem_cons_self hreset.2
    | edit change =>
      rw [questions_concat_edit] at hfiles ⊢
      exact ih hreset.1 hfiles

end Periods

/-! ## Transparency -/

/-- What holds after the events of a period that began in a world, for a resolver of a project. -/
structure Transparent (root : String) (start : World) (since : List Event) : Prop where
  /-- A question is answered as it was answered before in the period, whatever happened to the tree. -/
  same : ∀ earlier later reference file, since = earlier ++ .ask reference file :: later →
    (start.run since).answer reference file = (start.run earlier).answer reference file
  /-- If the tree is as it was all the time, any question is answered as by a new resolver. -/
  afresh : (∀ past, past <+: since → (start.run past).disk = start.disk) →
    ∀ reference file, Path.normalize file = file → (start.run since).answer reference file =
      (World.opened root {} (start.run since).disk).answer reference file
  lookups : (start.run since).resolver.stats.lookups = (questions since).length
  hits : (start.run since).resolver.stats.hits = (questions since).length - (questions since).toFinset.card
  /-- A question that was asked in the period costs no test. -/
  probes : ∀ q ∈ questions since, (start.run (since ++ [.ask q.1 q.2])).resolver.stats.probes =
    (start.run since).resolver.stats.probes
  /-- The alias table is read once at most. -/
  reads : (start.run since).resolver.configs.reads ≤ start.resolver.configs.reads + 1

theorem same_of_period {start : World} {since earlier later : List Event} {reference file : String}
    (hreset : Event.reset ∉ since) (hsince : since = earlier ++ .ask reference file :: later) :
    (start.run since).answer reference file = (start.run earlier).answer reference file := by
  have hlater : Event.reset ∉ later := by
    rw [hsince, List.mem_append, List.mem_cons, not_or, not_or] at hreset
    exact hreset.2.2
  have hgiven := lookup_resolve (start.run earlier).resolver (start.run earlier).disk reference file
  have hkept : (start.run since).resolver.answers.lookup (reference, Path.normalize file) =
      some ((start.run earlier).answer reference file) := by
    rw [hsince, ← List.concat_append, List.concat_eq_append, World.run_append, World.run_concat]
    exact lookup_run hlater hgiven
  rw [World.answer, resolve_of_known hkept]

/-- **The memory of a resolver does not show.** Take any history of a resolver: events up to its last reset (or none, for
a new resolver), and the events since, in which it was asked from files in normal form. -/
theorem memory_transparent (root : String) (configs : ConfigCache) (d : Disk) (before since : List Event)
    (hbefore : before = [] ∧ configs.entries = [] ∨ before.getLast? = some .reset) (hsince : Event.reset ∉ since)
    (hfiles : ∀ q ∈ questions since, Path.normalize q.2 = q.2) :
    Transparent root ((World.opened root configs d).run before) since := by
  have hblank : Blank ((World.opened root configs d).run before).resolver := by
    rcases hbefore with ⟨rfl, hconfigs⟩ | hlast
    · exact blank_ofRoot hconfigs
    · obtain ⟨past, rfl⟩ := List.getLast?_eq_some_iff.mp hlast
      rw [World.run_concat]
      exact blank_reset _
  have hroot : ((World.opened root configs d).run before).resolver.root = Path.normalize root := root_run _ _
  generalize (World.opened root configs d).run before = start at hblank hroot
  have htallied := tallied_run hblank.tallied hsince hfiles
  refine ⟨fun earlier later reference file => same_of_period hsince, fun hdisk reference file hfile => ?_,
    htallied.lookups, ?_, fun q hq => ?_, ?_⟩
  · have hrecalls := recalls_run (hblank.recalls _) hsince hfiles hdisk
    rw [← hdisk since (List.prefix_refl _)] at hrecalls
    have hnew : Recalls (start.run since).disk (ofRoot root {}) := (blank_ofRoot rfl).recalls _
    rw [World.answer, hrecalls.resolve_eq_answer hfile, World.answer]
    exact (congrFun (congrFun (answer_congr ((root_run start since).trans hroot)) reference) file).trans
      (hnew.resolve_eq_answer hfile).symm
  · have := htallied.hits
    omega
  · obtain ⟨known, hknown⟩ := Option.isSome_iff_exists.mp ((htallied.known q).2 hq)
    have hasked : (start.run since).resolver.answers.lookup (q.1, Path.normalize q.2) = some known := by
      rw [hfiles q hq]
      exact hknown
    rw [World.run_concat, World.step, resolve_of_known hasked]
  · rcases htallied.table with ⟨hreads, -⟩ | ⟨hreads, -⟩ <;> omega

/-- A tree with two files. -/
def pairDisk : Disk :=
  ⟨.directory [("proj", .directory [("a.ts", .file .empty 0), ("b.ts", .file .empty 0)])], "/proj"⟩

/-- The second file is asked for, removed, and asked for again. -/
def removal : List Event :=
  [.ask "./b" "/proj/a.ts", .edit (·.remove "/proj/b.ts"), .ask "./b" "/proj/a.ts"]

/-- Since its reset the resolver has answered two questions, one of them from memory. It still finds the file that is
gone, as it did at first; only a new resolver does not. -/
theorem memory_transparent_removal : ∃ start, start = (World.opened "/proj" {} pairDisk).run [.reset] ∧
    (start.run removal).resolver.stats.lookups = 2 ∧ (start.run removal).resolver.stats.hits = 1 ∧
    ((start.run removal).answer "./b" "/proj/a.ts").destination = .file "/proj/b.ts" ∧
    ((World.opened "/proj" {} (start.run removal).disk).answer "./b" "/proj/a.ts").path? = none := by
  refine ⟨_, rfl, ?_⟩
  have htransparent := memory_transparent "/proj" {} pairDisk [.reset] removal (Or.inr rfl) (by simp [removal])
    (by decide +kernel)
  refine ⟨htransparent.lookups, htransparent.hits, ?_, by decide +kernel⟩
  rw [htransparent.same [] _ _ _ rfl]
  decide +kernel

end Resolver

end ExportAudit
