import Mathlib
import ExportAudit.Session

/-!
# What the steps of a run change

The steps of a run fall into two parts. Up to the last look at the flag (`Steps.conclusion`) nothing is published: the
disk stays as it is, and so does the session, but for its alias tables and its flag; and the flag is up once a request
to stop has come (`Unpublished`). When the flag is seen down at the end of this part, no request has come at all. Hence a
run that goes on to `Steps.publish` has had requests at no moment before (`Unasked`).

Each part has a triple: `conclusion_spec` and `publish_spec`, and `all_spec` for both together.

A run looks for files and reads them bit by bit, so that it can be stopped in between. Undisturbed it comes to what
`findFiles` and `ProjectFacts.ofFiles` come to at once (`files_undisturbed`, `facts_undisturbed`).
-/

namespace ExportAudit

open Std.Do

set_option mvcgen.warning false

/-- A session that differs from another one at most in its alias tables and its flag. -/
def Session.Kept (s s' : Session) : Prop :=
  ∃ configs flag, s' = { s with configs := configs, cancelRequested := flag }

theorem Session.Kept.refl (s : Session) : s.Kept s :=
  ⟨s.configs, s.cancelRequested, rfl⟩

theorem Session.Kept.withConfigs {s s' : Session} (h : s.Kept s') (configs : ConfigCache) :
    s.Kept { s' with configs := configs } := by
  obtain ⟨_, flag, rfl⟩ := h
  exact ⟨configs, flag, rfl⟩

theorem Session.Kept.cancel {s s' : Session} (h : s.Kept s') : s.Kept s'.cancel := by
  obtain ⟨configs, _, rfl⟩ := h
  exact ⟨configs, true, rfl⟩

namespace Steps

/-! ## How steps run -/

section Running

variable {α β : Type}

theorem run_bind (x : Steps α) (f : α → Steps β) (p : Progress) :
    (x >>= f).run.run p =
      match x.run.run p with
      | (.ok a, q) => (f a).run.run q
      | (.error e, q) => (.error e, q) := by
  rw [ExceptT.run_bind, StateT.run_bind]
  rcases x.run.run p with ⟨_ | a, q⟩
  · rfl
  · rfl

theorem fst_run_bind_of_ok {x : Steps α} {p : Progress} {a : α} (h : (x.run.run p).1 = .ok a) (f : α → Steps β) :
    ((x >>= f).run.run p).1 = ((f a).run.run (x.run.run p).2).1 := by
  rw [run_bind]
  rcases hx : x.run.run p with ⟨_, q⟩
  rw [hx] at h
  cases h
  rfl

theorem fst_run_bind_of_error {x : Steps α} {p : Progress} {e : Stop} (h : (x.run.run p).1 = .error e)
    (f : α → Steps β) : ((x >>= f).run.run p).1 = .error e := by
  rw [run_bind]
  rcases hx : x.run.run p with ⟨_, q⟩
  rw [hx] at h
  cases h
  rfl

theorem run_get (p : Progress) : (get : Steps Progress).run.run p = (.ok p, p) := rfl

theorem run_set (p q : Progress) : (set q : Steps PUnit).run.run p = (.ok PUnit.unit, q) := rfl

theorem run_note (notes : List Note) (p : Progress) :
    (note notes).run.run p = (.ok (), { p with notes := p.notes ++ notes }) := rfl

theorem run_poll (stage : Stage) (p : Progress) :
    (poll stage).run.run p = (if p.session.cancelRequested then .error (.cancelled stage) else .ok (), p) := by
  simp only [poll, run_bind, run_get]
  split
  · rfl
  · rfl

end Running

/-! ## Triples -/

section Triples

variable {α : Type}

/-- The end of steps satisfies one condition if they come to a value and another one if they stop. -/
def Ends (Q : α → Progress → Prop) (E : Stop → Progress → Prop) : Except Stop α × Progress → Prop
  | (.ok a, q) => Q a q
  | (.error e, q) => E e q

/-- A triple says how steps end. -/
theorem ends_of_triple {P : Progress → Prop} {Q : α → Progress → Prop} {E : Stop → Progress → Prop} {x : Steps α}
    (h : ⦃fun p => ⌜P p⌝⦄ x ⦃post⟨fun a q => ⌜Q a q⌝, fun e q => ⌜E e q⌝⟩⦄) {p : Progress} (hp : P p) :
    Ends Q E (x.run.run p) := by
  have hwp := h p hp
  simp only [WP.wp, PredTrans.apply_pushExcept, PredTrans.apply_pushArg, PredTrans.apply_Pure_pure] at hwp
  rcases hx : x.run.run p with ⟨_ | a, q⟩
  · rw [hx] at hwp
    exact hwp
  · rw [hx] at hwp
    exact hwp

/-- Steps keep a condition, however they end. -/
abbrev Keeps (I : Progress → Prop) (x : Steps α) : Prop :=
  ⦃fun p => ⌜I p⌝⦄ x ⦃post⟨fun _ q => ⌜I q⌝, fun _ q => ⌜I q⌝⟩⦄

end Triples

/-! ## Up to the last look at the flag -/

section Conclusion

/-- The state of a run that began with a session and a disk and has published nothing: the flag is up if a request to
stop has come. -/
structure Unpublished (s : Session) (d : Disk) (disturbance : Disturbance) (p : Progress) : Prop where
  disk : p.disk = d
  kept : s.Kept p.session
  heard : ∀ c ∈ p.moments, c ∈ disturbance.cancelAt → p.session.cancelRequested = true

variable {s : Session} {d : Disk} {disturbance : Disturbance} {p : Progress}

theorem unpublished_start (s : Session) (d : Disk) (disturbance : Disturbance) :
    Unpublished s d disturbance { session := s, disk := d } :=
  ⟨rfl, .refl s, fun _ h => absurd h List.not_mem_nil⟩

/-- A moment puts the flag up if a request comes then. -/
theorem Unpublished.come (h : Unpublished s d disturbance p) (c : Checkpoint) :
    Unpublished s d disturbance
      { p with
        session := if disturbance.cancelAt.contains c then p.session.cancel else p.session
        moments := p.moments ++ [c] } := by
  by_cases hc : c ∈ disturbance.cancelAt
  · rw [if_pos (List.contains_iff_mem.mpr hc)]
    exact ⟨h.disk, h.kept.cancel, fun _ _ _ => rfl⟩
  · rw [if_neg (mt List.contains_iff_mem.mp hc)]
    refine ⟨h.disk, h.kept, fun c' hmem hasked => ?_⟩
    rcases List.mem_append.mp hmem with hbefore | hnow
    · exact h.heard c' hbefore hasked
    · rw [List.mem_singleton.mp hnow] at hasked
      exact absurd hasked hc

theorem Unpublished.withConfigs (h : Unpublished s d disturbance p) (configs : ConfigCache) :
    Unpublished s d disturbance { p with session := { p.session with configs := configs } } :=
  ⟨h.disk, h.kept.withConfigs configs, h.heard⟩

theorem Unpublished.withNotes (h : Unpublished s d disturbance p) (notes : List Note) :
    Unpublished s d disturbance { p with notes := notes } :=
  ⟨h.disk, h.kept, h.heard⟩

@[spec]
theorem keeps_moment (c : Checkpoint) : Keeps (Unpublished s d disturbance) (moment disturbance c) := by
  mvcgen [moment, fail] with exact Unpublished.come ‹_› c

@[spec]
theorem keeps_note (notes : List Note) : Keeps (Unpublished s d disturbance) (note notes) := by
  mvcgen [note] with exact Unpublished.withNotes ‹_› _

/-- A run that goes on has seen the flag down. -/
@[spec]
theorem poll_spec (stage : Stage) :
    ⦃fun p => ⌜Unpublished s d disturbance p⌝⦄ poll stage
    ⦃post⟨fun _ q => ⌜Unpublished s d disturbance q ∧ q.session.cancelRequested = false⌝,
      fun _ q => ⌜Unpublished s d disturbance q⌝⟩⦄ := by
  mvcgen [poll] with simp_all

@[spec]
theorem keeps_found {α : Type} (x : Except DiscoveryError α) : Keeps (Unpublished s d disturbance) (found x) := by
  cases x with
  | ok a => mvcgen [found]
  | error e => mvcgen [found, fail]

@[spec]
theorem keeps_gathered {α : Type} (x : Except PathError α) : Keeps (Unpublished s d disturbance) (gathered x) := by
  cases x with
  | ok a => mvcgen [gathered]
  | error e => mvcgen [gathered, fail]

@[spec]
theorem keeps_forgetTables : Keeps (Unpublished s d disturbance) forgetTables := by
  mvcgen [forgetTables] with exact Unpublished.withConfigs ‹_› _

@[spec]
theorem keeps_settings (s' : Session) (w : World) :
    Keeps (Unpublished s d disturbance) (settings s' w disturbance) := by
  mvcgen [settings, fail]

@[spec]
theorem keeps_walk (settings : Settings) (number : Nat) (directories : List (List String)) (files : List String) :
    Keeps (Unpublished s d disturbance) (walk settings disturbance number directories files) := by
  induction directories generalizing number files with
  | nil => mvcgen [walk]
  | cons own rest ih => mvcgen [walk, ih] with exact And.left ‹_›

@[spec]
theorem keeps_files (d' : Disk) (root : String) (settings : Settings) :
    Keeps (Unpublished s d disturbance) (files d' root settings disturbance) := by
  mvcgen [files]

@[spec]
theorem keeps_readAll (d' : Disk) (root : String) (number : Nat) (files : List String) (facts : ProjectFacts) :
    Keeps (Unpublished s d disturbance) (readAll d' root disturbance number files facts) := by
  induction files generalizing number facts with
  | nil => mvcgen [readAll]
  | cons file rest ih => mvcgen [readAll, ih] with exact And.left ‹_›

@[spec]
theorem keeps_facts (d' : Disk) (root : String) (files : List String) :
    Keeps (Unpublished s d disturbance) (facts d' root files disturbance) := by
  mvcgen [facts]

@[spec]
theorem keeps_result (d' : Disk) (root : String) (settings : Settings) (facts : ProjectFacts) :
    Keeps (Unpublished s d disturbance) (result d' root settings facts) := by
  mvcgen [result, fail] with exact Unpublished.withConfigs ‹_› _

/-- **The first part of a run publishes nothing**, and it comes to a result only when no request to stop has come. -/
@[spec]
theorem conclusion_spec (s' : Session) (w : World) (root : String) :
    ⦃fun p => ⌜Unpublished s d disturbance p⌝⦄ conclusion s' w disturbance root
    ⦃post⟨fun _ q => ⌜Unpublished s d disturbance q ∧ q.session.cancelRequested = false⌝,
      fun _ q => ⌜Unpublished s d disturbance q⌝⟩⦄ := by
  mvcgen [conclusion] with simp_all

end Conclusion

/-! ## Publishing -/

section Publishing

/-- The state of a run that began with a session and has been asked to stop at no moment, unless when it was about to
publish. -/
structure Unasked (s : Session) (disturbance : Disturbance) (p : Progress) : Prop where
  kept : s.Kept p.session
  late : ∀ c ∈ p.moments, c ∈ disturbance.cancelAt → c = .publishing

variable {s : Session} {d : Disk} {disturbance : Disturbance} {p : Progress}

/-- Every request puts the flag up, so no request has come to a run whose flag is down. -/
theorem Unpublished.unasked (h : Unpublished s d disturbance p) (hflag : p.session.cancelRequested = false) :
    Unasked s disturbance p := by
  refine ⟨h.kept, fun c hmem hasked => ?_⟩
  rw [h.heard c hmem hasked] at hflag
  cases hflag

theorem Unasked.come (h : Unasked s disturbance p) :
    Unasked s disturbance
      { p with
        session := if disturbance.cancelAt.contains .publishing then p.session.cancel else p.session
        moments := p.moments ++ [.publishing] } := by
  constructor
  · show s.Kept (if disturbance.cancelAt.contains .publishing then p.session.cancel else p.session)
    split
    · exact h.kept.cancel
    · exact h.kept
  · intro c hmem hasked
    rcases List.mem_append.mp hmem with hbefore | hnow
    · exact h.late c hbefore hasked
    · exact List.mem_singleton.mp hnow

theorem Unasked.withDisk (h : Unasked s disturbance p) (disk : Disk) : Unasked s disturbance { p with disk := disk } :=
  ⟨h.kept, h.late⟩

theorem Unasked.withNotes (h : Unasked s disturbance p) (notes : List Note) :
    Unasked s disturbance { p with notes := notes } :=
  ⟨h.kept, h.late⟩

theorem keeps_publishing : Keeps (Unasked s disturbance) (moment disturbance .publishing) := by
  mvcgen [moment, fail, -keeps_moment] with exact Unasked.come ‹_›

-- The goals are left open on purpose: looking for a trivial proof would unfold the reports.
theorem keeps_writeReports (w : World) (settings : Settings) (r : AnalysisResult) :
    Keeps (Unasked s disturbance) (writeReports w settings r) := by
  mvcgen -trivial [writeReports, fail]
  case vc1.h_1 h _ _ => exact h.withDisk _
  case vc2.h_2 h _ _ => exact h.withDisk _

theorem publish_spec (s' : Session) (w : World) (settings : Settings) (r : AnalysisResult) :
    Keeps (Unasked s disturbance) (publish s' w disturbance settings r) := by
  mvcgen [publish, keeps_publishing, note, keeps_writeReports, -keeps_moment, -keeps_note]
  all_goals exact Unasked.withNotes ‹_› _

/-- **A whole run.** If it comes to a result it has not been asked to stop in time, and a run that stops either has
published nothing or has not been asked to stop in time. -/
theorem all_spec (s' : Session) (w : World) (root : String) :
    ⦃fun p => ⌜Unpublished s d disturbance p⌝⦄ all s' w disturbance root
    ⦃post⟨fun _ q => ⌜Unasked s disturbance q⌝,
      fun _ q => ⌜Unpublished s d disturbance q ∨ Unasked s disturbance q⌝⟩⦄ := by
  have hconclusion := @conclusion_spec s d disturbance s' w root
  have hpublish := @publish_spec s disturbance s' w
  mvcgen [all, hconclusion, hpublish, -conclusion_spec]
  case vc2.post.success.pre h => exact h.1.unasked h.2
  case vc3.post.success.post.success => exact id
  case vc4.post.success.post.except.handle => exact Or.inr
  case vc5.post.except.handle => exact Or.inl

/-- However a run ends, it changes nothing of the session but its alias tables and its flag. -/
theorem kept_all (s s' : Session) (w : World) (disturbance : Disturbance) (root : String) :
    s.Kept ((all s' w disturbance root).run.run { session := s, disk := w.disk }).2.session := by
  have hends := ends_of_triple (all_spec s' w root) (unpublished_start s w.disk disturbance)
  rcases hall : (all s' w disturbance root).run.run { session := s, disk := w.disk } with ⟨stop | r, p⟩
  · rw [hall] at hends
    exact hends.elim Unpublished.kept Unasked.kept
  · rw [hall] at hends
    exact Unasked.kept hends

end Publishing

/-! ## Undisturbed steps -/

section Undisturbed

variable {p : Progress} {settings : Settings}

theorem run_found {α : Type} (x : Except DiscoveryError α) (p : Progress) :
    (found x).run.run p = (x.mapError fun e => .failed (.discovery e), p) := by
  cases x with
  | ok a => rfl
  | error e => rfl

/-- Undisturbed, a run counts its files as it gathers them. -/
theorem walk_undisturbed (settings : Settings) (number : Nat) (directories : List (List String)) (files : List String)
    (hflag : p.session.cancelRequested = false) :
    ((walk settings {} number directories files).run.run p).1 =
      (gatherFiles settings directories files).mapError fun e => .failed (.discovery e) := by
  induction directories generalizing number files p with
  | nil => rfl
  | cons own rest ih =>
    simp only [walk, gatherFiles, run_bind, run_poll, run_found, hflag, Bool.false_eq_true, if_false]
    cases checkCount settings (files ++ own) with
    | error e => rfl
    | ok _ => exact ih (number + 1) (files ++ own) hflag

/-- Undisturbed, a run finds the files of the project. -/
theorem files_undisturbed (d : Disk) (root : String) (hflag : p.session.cancelRequested = false) :
    ((files d root settings {}).run.run p).1 =
      (findFiles d root settings).mapError fun e => .failed (.discovery e) := by
  unfold files findFiles
  cases hwalk : walkProject d root settings with
  | error e => rfl
  | ok directories =>
    have hwalked := walk_undisturbed settings 0 directories [] hflag
    show ((walk settings {} 0 directories [] >>= fun files => found (admitFiles d root settings files)).run.run p).1 =
      (gatherFiles settings directories [] >>= fun files => admitFiles d root settings files).mapError _
    cases hgathered : gatherFiles settings directories [] with
    | error e =>
      rw [hgathered] at hwalked
      exact fst_run_bind_of_error hwalked _
    | ok files =>
      rw [hgathered] at hwalked
      exact (fst_run_bind_of_ok hwalked _).trans (congrArg Prod.fst (run_found _ _))

theorem run_gathered {α : Type} (x : Except PathError α) (p : Progress) :
    (gathered x).run.run p = (x.mapError fun _ => .failed .unexpected, p) := by
  cases x with
  | ok a => rfl
  | error e => rfl

theorem readAll_undisturbed (d : Disk) (root : String) (number : Nat) (files : List String) (facts : ProjectFacts)
    (hflag : p.session.cancelRequested = false) :
    ((readAll d root {} number files facts).run.run p).1 =
      (files.foldlM (ProjectFacts.addFile d root) facts).mapError fun _ => .failed .unexpected := by
  induction files generalizing number facts p with
  | nil => rfl
  | cons file rest ih =>
    simp only [readAll, run_bind, run_poll, run_gathered, hflag, Bool.false_eq_true, if_false, List.foldlM_cons]
    cases facts.addFile d root file with
    | error e => rfl
    | ok more => exact ih (number + 1) more hflag

/-- Undisturbed, a run gathers the facts of its files. -/
theorem facts_undisturbed (d : Disk) (root : String) (files : List String)
    (hflag : p.session.cancelRequested = false) :
    ((facts d root files {}).run.run p).1 =
      (ProjectFacts.ofFiles d root files).mapError fun _ => .failed .unexpected := by
  have hread := readAll_undisturbed d root 0 files {} hflag
  unfold facts ProjectFacts.ofFiles
  cases hgathered : files.foldlM (ProjectFacts.addFile d root) ({} : ProjectFacts) with
  | error e =>
    rw [hgathered] at hread
    exact fst_run_bind_of_error hread _
  | ok facts =>
    rw [hgathered] at hread
    exact fst_run_bind_of_ok hread _

end Undisturbed

end Steps

end ExportAudit
