import Mathlib
import ExportAudit.Proofs.RunSteps

/-!
# Results are published whole or not at all

What a session does when it is called again and again (`Call`, `Session.after`): each call asks for a run, which brings
its own surroundings and disturbances, or asks the active run to stop. A run that finds the lock taken changes nothing.
Any other run keeps to `RunLaw`, after every history of calls (`runs_keep_law`).
-/

namespace ExportAudit

namespace Session

variable {s : Session} {w : World} {root? : Option String} {disturbance : Disturbance}

/-! ## One run -/

/-- What the steps of a run come to, and the state that they leave. -/
def ending (s : Session) (w : World) (root? : Option String) (disturbance : Disturbance) :
    Except Stop AnalysisResult × Progress :=
  (Steps.all s w disturbance (s.runRoot w.disk root?)).run.run { session := s.begun, disk := w.disk }

theorem run_of_isRunning (h : s.isRunning = true) :
    s.run w root? disturbance = (s, { outcome := .skipped, disk := w.disk }) :=
  if_pos h

theorem run_of_not_isRunning (h : s.isRunning = false) :
    s.run w root? disturbance =
      ((s.ending w root? disturbance).2.session.finish w.elapsed (outcomeOf (s.ending w root? disturbance).1),
        { outcome := outcomeOf (s.ending w root? disturbance).1
          notes := (s.ending w root? disturbance).2.notes ++ (outcomeOf (s.ending w root? disturbance).1).endNotes
          disk := (s.ending w root? disturbance).2.disk
          moments := (s.ending w root? disturbance).2.moments }) := by
  unfold run
  rw [h]
  rfl

/-- If the steps of a run were asked to stop in time, they stop, and nothing is published. -/
theorem ends_ending (s : Session) (w : World) (root? : Option String) (disturbance : Disturbance) :
    Steps.Ends (fun _ q => Steps.Unasked s.begun disturbance q)
      (fun _ q => Steps.Unpublished s.begun w.disk disturbance q ∨ Steps.Unasked s.begun disturbance q)
      (s.ending w root? disturbance) :=
  Steps.ends_of_triple (Steps.all_spec s w _) (Steps.unpublished_start s.begun w.disk disturbance)

theorem kept_ending (s : Session) (w : World) (root? : Option String) (disturbance : Disturbance) :
    s.begun.Kept (s.ending w root? disturbance).2.session :=
  Steps.kept_all s.begun s w disturbance _

theorem stopped_ending {c : Checkpoint} (hasked : c ∈ disturbance.cancelAt)
    (hmem : c ∈ (s.ending w root? disturbance).2.moments) (hc : c ≠ .publishing) :
    (s.ending w root? disturbance).1.toOption = none ∧ (s.ending w root? disturbance).2.disk = w.disk := by
  have hends := ends_ending s w root? disturbance
  rcases hending : s.ending w root? disturbance with ⟨stop | r, p⟩
  · rw [hending] at hends hmem
    rcases hends with hunpublished | hunasked
    · exact ⟨rfl, hunpublished.disk⟩
    · exact absurd (hunasked.late c hmem hasked) hc
  · rw [hending] at hends hmem
    exact absurd (Steps.Unasked.late hends c hmem hasked) hc

theorem result?_outcomeOf (ended : Except Stop AnalysisResult) : (outcomeOf ended).result? = ended.toOption := by
  rcases ended with (_ | f) | r
  · rfl
  · rfl
  · rfl

theorem messages_outcomeOf {ended : Except Stop AnalysisResult} (h : ∀ f, ended ≠ .error (.failed f)) :
    (outcomeOf ended).messages = [] := by
  rcases ended with (_ | f) | r
  · rfl
  · exact absurd rfl (h f)
  · rfl

/-- The end of a run frees the lock and keeps the result, if there is one. -/
theorem finish_eq (s : Session) (elapsed : Nat) (outcome : RunOutcome) : s.finish elapsed outcome =
    { s with
      isRunning := false
      lastResult := outcome.result?.or s.lastResult
      lastElapsed := (outcome.result?.map fun _ => elapsed).or s.lastElapsed } := by
  cases outcome with
  | skipped | cancelled | failed f | published r => rfl

/-- What holds of a run whose steps ended in some way, of the session after it, and of its report. -/
structure RunLaw (s : Session) (w : World) (disturbance : Disturbance) (ended : Except Stop AnalysisResult)
    (after : Session) (report : RunReport) : Prop where
  /-- The lock is free. -/
  free : after.isRunning = false
  /-- The result of the steps is returned. -/
  returned : report.outcome.result? = ended.toOption
  /-- What is returned becomes the last result. If nothing is returned, the last result stays. -/
  lastResult : after.lastResult = report.outcome.result?.or s.lastResult
  lastElapsed : after.lastElapsed = (report.outcome.result?.map fun _ => w.elapsed).or s.lastElapsed
  /-- The user is told of a failure, once. -/
  told : ∀ f, ended = .error (.failed f) → report.outcome.messages = [f.message]
  /-- The user is told of nothing else. -/
  quiet : (∀ f, ended ≠ .error (.failed f)) → report.outcome.messages = []
  /-- A run that is asked to stop before it is about to publish returns nothing and writes nothing. -/
  stopped : ∀ c ∈ disturbance.cancelAt, c ∈ report.moments → c ≠ .publishing →
    report.outcome.result? = none ∧ report.disk = w.disk ∧ after.lastResult = s.lastResult

theorem runLaw_run (h : s.isRunning = false) :
    RunLaw s w disturbance (s.ending w root? disturbance).1 (s.run w root? disturbance).1
      (s.run w root? disturbance).2 := by
  obtain ⟨configs, flag, hkept⟩ := kept_ending s w root? disturbance
  rw [run_of_not_isRunning h, finish_eq, hkept]
  refine ⟨rfl, result?_outcomeOf _, rfl, rfl, fun f hf => ?_, messages_outcomeOf, fun c hasked hmem hc => ?_⟩
  · rw [hf]
    rfl
  · obtain ⟨hnone, hdisk⟩ := stopped_ending hasked hmem hc
    have hresult := (result?_outcomeOf _).trans hnone
    refine ⟨hresult, hdisk, ?_⟩
    show (outcomeOf _).result?.or s.lastResult = s.lastResult
    rw [hresult]
    rfl

end Session

/-! ## Histories -/

/-- A call of a session from outside. -/
inductive Call where
  | run (w : World) (root? : Option String) (disturbance : Disturbance)
  | cancel

namespace Session

/-- The session after a call. -/
def call (s : Session) : Call → Session
  | .run w root? disturbance => (s.run w root? disturbance).1
  | .cancel => s.cancel

/-- The result that a call returns. -/
def answer? (s : Session) : Call → Option AnalysisResult
  | .run w root? disturbance => (s.run w root? disturbance).2.outcome.result?
  | .cancel => none

/-- The session after calls. -/
def after (s : Session) (calls : List Call) : Session :=
  calls.foldl call s

/-- The results that calls return, in order. -/
def results (s : Session) : List Call → List AnalysisResult
  | [] => []
  | c :: rest => (s.answer? c).toList ++ (s.call c).results rest

variable {s : Session}

theorem isRunning_call (s : Session) (c : Call) : (s.call c).isRunning = s.isRunning := by
  cases c with
  | run w root? disturbance =>
    cases h : s.isRunning with
    | true => exact (congrArg (·.1.isRunning) (run_of_isRunning h)).trans h
    | false => exact (runLaw_run h).free
  | cancel => rfl

theorem lastResult_call (s : Session) (c : Call) : (s.call c).lastResult = (s.answer? c).or s.lastResult := by
  cases c with
  | run w root? disturbance =>
    cases h : s.isRunning with
    | true =>
      show (s.run w root? disturbance).1.lastResult = (s.run w root? disturbance).2.outcome.result?.or s.lastResult
      rw [run_of_isRunning h]
      rfl
    | false => exact (runLaw_run h).lastResult
  | cancel => rfl

theorem isRunning_after (s : Session) (calls : List Call) : (s.after calls).isRunning = s.isRunning := by
  induction calls generalizing s with
  | nil => rfl
  | cons c rest ih => exact (ih (s.call c)).trans (isRunning_call s c)

/-- The last result of a session is the one that was returned last. -/
theorem lastResult_after (s : Session) (calls : List Call) :
    (s.after calls).lastResult = (s.results calls).getLast?.or s.lastResult := by
  induction calls generalizing s with
  | nil => rfl
  | cons c rest ih =>
    have hrest : (s.after (c :: rest)).lastResult = ((s.call c).after rest).lastResult := rfl
    rw [hrest, ih, lastResult_call, results, List.getLast?_append, Option.or_assoc]
    cases s.answer? c <;> rfl

/-- A project with one file. -/
def lonelyDisk : Disk :=
  ⟨.directory [("proj", .directory [("a.ts", .file .empty 0)])], "/proj"⟩

-- A request that comes once the file is read is heard before the analysis.
example : (Session.run { root := "/proj", settings := some {} } { disk := lonelyDisk } none
    { cancelAt := [.read 0] }).2.moments = [.settings, .walked 0, .read 0, .parsed] := by
  decide +kernel

end Session

end ExportAudit
