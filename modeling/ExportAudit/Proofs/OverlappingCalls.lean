import Mathlib
import ExportAudit.Proofs.Publishing

/-!
# Calls at the same time

Several callers may ask one session for a run at the same time. A call takes the lock or returns at once; it carries out
the steps of the run, frees the lock, and only then stores its result (`Callers.step`). The steps of different calls may
come in any order (`Callers.along`).

- The lock keeps runs apart (`Callers.Exclusive`): a call that has it is the one that took it last.
- The result is stored when the lock is free again, so the last result is that of the call that stored last
  (`Callers.Keeping`), which need not be the one that took the lock last (`older_run_stays`). It is exactly if no other
  result was still to be stored when the newest one was (`Callers.getLast?_stored_along_iff`).

`Callers.last_stored_stays` says this of every order of steps. A call whose steps are not interrupted is a run
(`Callers.session_along_uninterrupted`).
-/

namespace ExportAudit

/-! ## Steps of calls -/

/-- What a call of a session brings with it. -/
structure Request where
  world : World
  root? : Option String := none
  disturbance : Disturbance := {}

/-- How far a call has come. -/
inductive Phase where
  /-- It has not yet tried the lock. -/
  | waiting
  /-- It has taken the lock. -/
  | holding
  /-- Its run has come to an end; it still has the lock. -/
  | ended (outcome : RunOutcome)
  /-- It has freed the lock and not yet stored its result. -/
  | freed (outcome : RunOutcome)
  | returned (outcome : RunOutcome)

namespace Phase

/-- Whether the call has not begun or has returned. -/
def isAtRest : Phase → Bool
  | .waiting | .returned _ => true
  | _ => false

/-- Whether the call has the lock. -/
def isInside : Phase → Bool
  | .holding | .ended _ => true
  | _ => false

/-- The result that the call has returned. -/
def result? : Phase → Option AnalysisResult
  | .returned outcome => outcome.result?
  | _ => none

/-- Whether the call is known to have taken the lock. -/
def hasTaken : Phase → Bool
  | .waiting => false
  | .holding | .ended _ | .freed _ => true
  | .returned outcome => outcome.result?.isSome

/-- Whether the call has freed the lock with a result that it has yet to store. -/
def isLate : Phase → Bool
  | .freed outcome => outcome.result?.isSome
  | _ => false

theorem exists_of_isLate {p : Phase} (h : p.isLate = true) :
    ∃ outcome, p = .freed outcome ∧ outcome.result?.isSome = true := by
  cases p with
  | freed outcome => exact ⟨outcome, rfl, h⟩
  | waiting | holding | ended outcome | returned outcome => cases h

theorem exists_of_result? {p : Phase} (h : p.result?.isSome = true) :
    ∃ outcome, p = .returned outcome ∧ outcome.result?.isSome = true := by
  cases p with
  | returned outcome => exact ⟨outcome, rfl, h⟩
  | waiting | holding | ended outcome | freed outcome => cases h

theorem hasTaken_of_result? {p : Phase} (h : p.result?.isSome = true) : p.hasTaken = true := by
  cases p with
  | returned outcome => exact h
  | waiting | holding | ended outcome | freed outcome => cases h

end Phase

/-- The run of a call on a session whose lock it has taken. -/
def Session.work (s : Session) (q : Request) : Except Stop AnalysisResult × Progress :=
  (Steps.all s q.world q.disturbance (s.runRoot q.world.disk q.root?)).run.run { session := s, disk := q.world.disk }

/-- The callers of one session, each with one call. -/
structure Callers where
  session : Session
  phase : Nat → Phase := fun _ => .waiting
  /-- The calls that have taken the lock, in that order. -/
  taken : List Nat := []
  /-- The calls that have stored a result, in that order. -/
  stored : List Nat := []

namespace Callers

/-- The next step of a call. -/
def step (requests : Nat → Request) (c : Callers) (i : Nat) : Callers :=
  match c.phase i with
  | .waiting =>
    if c.session.isRunning then { c with phase := Function.update c.phase i (.returned .skipped) }
    else { c with
      session := c.session.begun
      phase := Function.update c.phase i .holding
      taken := c.taken ++ [i] }
  | .holding =>
    let (ended, progress) := c.session.work (requests i)
    { c with
      session := progress.session
      phase := Function.update c.phase i (.ended (Session.outcomeOf ended)) }
  | .ended outcome =>
    { c with
      session := c.session.release
      phase := Function.update c.phase i (.freed outcome) }
  | .freed outcome =>
    { c with
      session := c.session.store (requests i).world.elapsed outcome
      phase := Function.update c.phase i (.returned outcome)
      stored := if outcome.result?.isSome then c.stored ++ [i] else c.stored }
  | .returned _ => c

/-- The calls after steps in some order, each given by its call. -/
def along (requests : Nat → Request) (c : Callers) (schedule : List Nat) : Callers :=
  schedule.foldl (step requests) c

/-- The calls that have returned a result, in the order in which they took the lock. -/
def successful (c : Callers) : List Nat :=
  c.taken.filter fun i => (c.phase i).result?.isSome

end Callers

/-! ## What holds at every moment -/

/-- The steps of a run leave the session as it was, but for its alias tables and its flag. -/
theorem Session.kept_work (s : Session) (q : Request) : s.Kept (s.work q).2.session :=
  Steps.kept_all s s q.world q.disturbance _

theorem Session.lastResult_work (s : Session) (q : Request) : (s.work q).2.session.lastResult = s.lastResult := by
  obtain ⟨configs, flag, hkept⟩ := s.kept_work q
  rw [hkept]

theorem Session.isRunning_work (s : Session) (q : Request) : (s.work q).2.session.isRunning = s.isRunning := by
  obtain ⟨configs, flag, hkept⟩ := s.kept_work q
  rw [hkept]

theorem Session.lastResult_store (s : Session) (elapsed : Nat) (outcome : RunOutcome) :
    (s.store elapsed outcome).lastResult = outcome.result?.or s.lastResult := by
  cases outcome <;> rfl

theorem Session.isRunning_store (s : Session) (elapsed : Nat) (outcome : RunOutcome) :
    (s.store elapsed outcome).isRunning = s.isRunning := by
  cases outcome <;> rfl

namespace Callers

variable {s : Session} {requests : Nat → Request} {c : Callers}

/-! ### One step -/

theorem step_skip {i : Nat} (hi : c.phase i = .waiting) (hrunning : c.session.isRunning = true) :
    c.step requests i = { c with phase := Function.update c.phase i (.returned .skipped) } := by
  rw [step, hi]
  exact if_pos hrunning

theorem step_take {i : Nat} (hi : c.phase i = .waiting) (hfree : c.session.isRunning = false) :
    c.step requests i =
      { c with
        session := c.session.begun
        phase := Function.update c.phase i .holding
        taken := c.taken ++ [i] } := by
  rw [step, hi]
  exact if_neg (by simp [hfree])

theorem step_work {i : Nat} (hi : c.phase i = .holding) :
    c.step requests i =
      { c with
        session := (c.session.work (requests i)).2.session
        phase := Function.update c.phase i (.ended (Session.outcomeOf (c.session.work (requests i)).1)) } := by
  rw [step, hi]

theorem step_free {i : Nat} {outcome : RunOutcome} (hi : c.phase i = .ended outcome) :
    c.step requests i =
      { c with
        session := c.session.release
        phase := Function.update c.phase i (.freed outcome) } := by
  rw [step, hi]

theorem step_store {i : Nat} {outcome : RunOutcome} (hi : c.phase i = .freed outcome) :
    c.step requests i =
      { c with
        session := c.session.store (requests i).world.elapsed outcome
        phase := Function.update c.phase i (.returned outcome)
        stored := if outcome.result?.isSome then c.stored ++ [i] else c.stored } := by
  rw [step, hi]

theorem step_returned {i : Nat} {outcome : RunOutcome} (hi : c.phase i = .returned outcome) :
    c.step requests i = c := by
  rw [step, hi]

/-- A step of a call is no step of any other. -/
theorem phase_step_of_ne {i j : Nat} (hij : j ≠ i) : (c.step requests i).phase j = c.phase j := by
  cases hi : c.phase i with
  | waiting =>
    cases hrunning : c.session.isRunning with
    | true => simp [step_skip hi hrunning, hij]
    | false => simp [step_take hi hrunning, hij]
  | holding => simp [step_work hi, hij]
  | ended outcome => simp [step_free hi, hij]
  | freed outcome => simp [step_store hi, hij]
  | returned outcome => rw [step_returned hi]

/-- A call comes to return a result only by storing it. -/
theorem phase_of_step_returned {i : Nat} {outcome : RunOutcome} (h : (c.step requests i).phase i = .returned outcome)
    (hsome : outcome.result?.isSome = true) : c.phase i = .freed outcome ∨ c.phase i = .returned outcome := by
  cases hi : c.phase i with
  | waiting =>
    cases hrunning : c.session.isRunning with
    | true =>
      simp only [step_skip hi hrunning, Function.update_self, Phase.returned.injEq] at h
      rw [← h] at hsome
      cases hsome
    | false => simp [step_take hi hrunning] at h
  | holding => simp [step_work hi] at h
  | ended other => simp [step_free hi] at h
  | freed other => exact Or.inl (by simpa [step_store hi] using h)
  | returned other => exact Or.inr (by rwa [step_returned hi, hi] at h)

/-! ### The lock -/

/-- The lock keeps runs apart: a call that has it is the one that took it last, and no call takes it twice. -/
structure Exclusive (c : Callers) : Prop where
  lock : ∀ i, (c.phase i).isInside = true → c.session.isRunning = true
  holder : ∀ i, (c.phase i).isInside = true → c.taken.getLast? = some i
  nodup : c.taken.Nodup
  not_mem : ∀ i, c.phase i = .waiting → i ∉ c.taken
  mem : ∀ i, (c.phase i).hasTaken = true → i ∈ c.taken

theorem exclusive_start (s : Session) : Exclusive { session := s } := by
  constructor <;> simp [Phase.isInside, Phase.hasTaken]

theorem Exclusive.eq_of_isInside (h : Exclusive c) {i j : Nat} (hi : (c.phase i).isInside = true)
    (hj : (c.phase j).isInside = true) : i = j := by
  have hlast := h.holder i hi
  rw [h.holder j hj, Option.some.injEq] at hlast
  exact hlast.symm

theorem isInside_of_update {phase : Nat → Phase} {i j : Nat} {p : Phase}
    (h : p.isInside = true → (phase i).isInside = true) (hj : (Function.update phase i p j).isInside = true) :
    (phase j).isInside = true := by
  by_cases hji : j = i
  · rw [hji, Function.update_self] at hj
    rw [hji]
    exact h hj
  · rwa [Function.update_of_ne hji] at hj

/-- A step that takes no lock leaves the calls apart if nobody has the lock that is free. -/
theorem Exclusive.of_update (h : Exclusive c) {c' : Callers} {i : Nat} {p : Phase}
    (hphase : c'.phase = Function.update c.phase i p) (htaken : c'.taken = c.taken)
    (hinside : p.isInside = true → (c.phase i).isInside = true) (hhas : p.hasTaken = true → (c.phase i).hasTaken = true)
    (hwaiting : p ≠ .waiting) (hlock : ∀ j, (c'.phase j).isInside = true → c'.session.isRunning = true) :
    Exclusive c' := by
  refine ⟨hlock, fun j hj => ?_, ?_, fun j hj => ?_, fun j hj => ?_⟩
  · rw [hphase] at hj
    rw [htaken]
    exact h.holder j (isInside_of_update hinside hj)
  · rw [htaken]
    exact h.nodup
  · rw [hphase, Function.update_apply] at hj
    split at hj
    · exact absurd hj hwaiting
    · rw [htaken]
      exact h.not_mem j hj
  · rw [hphase, Function.update_apply] at hj
    rw [htaken]
    split at hj
    · rename_i hji
      rw [hji]
      exact h.mem i (hhas hj)
    · exact h.mem j hj

/-- No call has a lock that is free, so one that takes it is alone. -/
theorem Exclusive.take (h : Exclusive c) {i : Nat} (hi : c.phase i = .waiting) (hfree : c.session.isRunning = false) :
    Exclusive
      { c with
        session := c.session.begun
        phase := Function.update c.phase i .holding
        taken := c.taken ++ [i] } := by
  refine ⟨fun _ _ => rfl, fun j hj => ?_, ?_, fun j hj => ?_, fun j hj => ?_⟩
  · have hji : j = i := by
      by_contra hji
      replace hj : (Function.update c.phase i .holding j).isInside = true := hj
      rw [Function.update_of_ne hji] at hj
      rw [h.lock j hj] at hfree
      cases hfree
    rw [hji, List.getLast?_concat]
  · rw [List.nodup_append_comm]
    exact List.nodup_cons.mpr ⟨h.not_mem i hi, h.nodup⟩
  · replace hj : Function.update c.phase i .holding j = .waiting := hj
    rw [Function.update_apply] at hj
    split at hj
    · cases hj
    · rename_i hji
      rw [List.mem_append, List.mem_singleton, not_or]
      exact ⟨h.not_mem j hj, hji⟩
  · replace hj : (Function.update c.phase i .holding j).hasTaken = true := hj
    rw [Function.update_apply] at hj
    rw [List.mem_append, List.mem_singleton]
    split at hj
    · exact Or.inr ‹_›
    · exact Or.inl (h.mem j hj)

theorem Exclusive.step (h : Exclusive c) (requests : Nat → Request) (i : Nat) : Exclusive (c.step requests i) := by
  cases hi : c.phase i with
  | waiting =>
    cases hrunning : c.session.isRunning with
    | true =>
      rw [step_skip hi hrunning]
      exact h.of_update rfl rfl nofun nofun nofun fun _ _ => hrunning
    | false =>
      rw [step_take hi hrunning]
      exact h.take hi hrunning
  | holding =>
    have hinside : (c.phase i).isInside = true := by rw [hi]; rfl
    rw [step_work hi]
    refine h.of_update rfl rfl (fun _ => hinside) (fun _ => by rw [hi]; rfl) nofun fun _ _ => ?_
    rw [Session.isRunning_work]
    exact h.lock i hinside
  | ended outcome =>
    have hinside : (c.phase i).isInside = true := by rw [hi]; rfl
    rw [step_free hi]
    have hfreed : (Phase.freed outcome).isInside = true → (c.phase i).isInside = true := nofun
    refine h.of_update rfl rfl hfreed (fun _ => by rw [hi]; rfl) nofun fun j hj => ?_
    -- The call that frees the lock was the only one that had it.
    replace hj : (Function.update c.phase i (.freed outcome) j).isInside = true := hj
    have hji : j = i := h.eq_of_isInside (isInside_of_update hfreed hj) hinside
    rw [hji, Function.update_self] at hj
    cases hj
  | freed outcome =>
    rw [step_store hi]
    have hreturned : (Phase.returned outcome).isInside = true → (c.phase i).isInside = true := nofun
    refine h.of_update rfl rfl hreturned (fun _ => by rw [hi]; rfl) nofun fun j hj => ?_
    rw [Session.isRunning_store]
    exact h.lock j (isInside_of_update hreturned hj)
  | returned outcome =>
    rw [step_returned hi]
    exact h

/-! ### Stored results -/

/-- The last result is that of the call that stored last, and the calls that return a result are those that store one. -/
structure Keeping (s : Session) (c : Callers) : Prop where
  nodup : c.stored.Nodup
  mem_iff : ∀ i, i ∈ c.stored ↔ (c.phase i).result?.isSome = true
  lastResult : c.session.lastResult = (c.stored.getLast?.bind fun i => (c.phase i).result?).or s.lastResult

theorem keeping_start (s : Session) : Keeping s { session := s } := by
  constructor <;> simp [Phase.result?]

theorem result?_update {phase : Nat → Phase} {i : Nat} {p : Phase} (h : p.result? = (phase i).result?) (j : Nat) :
    (Function.update phase i p j).result? = (phase j).result? := by
  by_cases hj : j = i
  · rw [hj, Function.update_self, h]
  · rw [Function.update_of_ne hj]

/-- What stores nothing keeps what is stored. -/
theorem Keeping.of_eq (h : Keeping s c) {c' : Callers} (hresult : ∀ j, (c'.phase j).result? = (c.phase j).result?)
    (hstored : c'.stored = c.stored) (hlast : c'.session.lastResult = c.session.lastResult) : Keeping s c' := by
  refine ⟨?_, fun j => ?_, ?_⟩
  · rw [hstored]
    exact h.nodup
  · rw [hstored, hresult]
    exact h.mem_iff j
  · rw [hstored, hlast]
    simp only [hresult]
    exact h.lastResult

/-- A call stores its result in the place of any other. -/
theorem Keeping.store (h : Keeping s c) {i : Nat} {outcome : RunOutcome} (hi : c.phase i = .freed outcome)
    (elapsed : Nat) :
    Keeping s
      { c with
        session := c.session.store elapsed outcome
        phase := Function.update c.phase i (.returned outcome)
        stored := if outcome.result?.isSome then c.stored ++ [i] else c.stored } := by
  cases hresult : outcome.result? with
  | none =>
    refine h.of_eq (result?_update ?_) rfl ?_
    · rw [hi]
      exact hresult
    · rw [Session.lastResult_store, hresult]
      rfl
  | some r =>
    have hnew : i ∉ c.stored := by
      rw [h.mem_iff, hi]
      exact Bool.false_ne_true
    refine ⟨?_, fun j => ?_, ?_⟩
    · show (c.stored ++ [i]).Nodup
      rw [List.nodup_append_comm]
      exact List.nodup_cons.mpr ⟨hnew, h.nodup⟩
    · show j ∈ c.stored ++ [i] ↔ (Function.update c.phase i (.returned outcome) j).result?.isSome = true
      rw [List.mem_append, List.mem_singleton, h.mem_iff, Function.update_apply]
      split
      · rename_i hj
        simp [hj, Phase.result?, hresult]
      · rename_i hj
        simp [hj]
    · rw [Session.lastResult_store, hresult]
      simp [Phase.result?, hresult]

theorem Keeping.step (h : Keeping s c) (requests : Nat → Request) (i : Nat) : Keeping s (c.step requests i) := by
  cases hi : c.phase i with
  | waiting =>
    cases hrunning : c.session.isRunning with
    | true =>
      rw [step_skip hi hrunning]
      exact h.of_eq (result?_update (by rw [hi]; rfl)) rfl rfl
    | false =>
      rw [step_take hi hrunning]
      exact h.of_eq (result?_update (by rw [hi]; rfl)) rfl rfl
  | holding =>
    rw [step_work hi]
    exact h.of_eq (result?_update (by rw [hi]; rfl)) rfl (c.session.lastResult_work (requests i))
  | ended outcome =>
    rw [step_free hi]
    exact h.of_eq (result?_update (by rw [hi]; rfl)) rfl rfl
  | freed outcome =>
    rw [step_store hi]
    exact h.store hi _
  | returned outcome =>
    rw [step_returned hi]
    exact h

/-! ### Every order of steps -/

theorem along_append (requests : Nat → Request) (c : Callers) (before after : List Nat) :
    c.along requests (before ++ after) = (c.along requests before).along requests after :=
  List.foldl_append

theorem phase_along_of_not_mem {i : Nat} {schedule : List Nat} (hi : i ∉ schedule) :
    (c.along requests schedule).phase i = c.phase i := by
  induction schedule generalizing c with
  | nil => rfl
  | cons j schedule ih =>
    rw [List.mem_cons, not_or] at hi
    obtain ⟨hij, hrest⟩ := hi
    exact (ih hrest).trans (phase_step_of_ne hij)

theorem exclusive_along (requests : Nat → Request) (s : Session) (schedule : List Nat) :
    Exclusive (along requests { session := s } schedule) := by
  induction schedule using List.reverseRecOn with
  | nil => exact exclusive_start s
  | append_singleton schedule i ih =>
    rw [along_append]
    exact ih.step requests i

theorem keeping_along (requests : Nat → Request) (s : Session) (schedule : List Nat) :
    Keeping s (along requests { session := s } schedule) := by
  induction schedule using List.reverseRecOn with
  | nil => exact keeping_start s
  | append_singleton schedule i ih =>
    rw [along_append]
    exact ih.step requests i

/-! ## Which result stays -/

/-- One moment comes after another: calls only go on, and what is listed is listed behind what was. -/
structure Later (c c' : Callers) : Prop where
  waiting : ∀ i, c'.phase i = .waiting → c.phase i = .waiting
  freed : ∀ i outcome, c.phase i = .freed outcome → c'.phase i = .freed outcome ∨ c'.phase i = .returned outcome
  returned : ∀ i outcome, c.phase i = .returned outcome → c'.phase i = .returned outcome
  taken : ∃ more, c'.taken = c.taken ++ more ∧ ∀ i ∈ more, c.phase i = .waiting
  stored : ∃ more, c'.stored = c.stored ++ more ∧ ∀ i ∈ more, ∀ outcome, c.phase i ≠ .returned outcome

theorem Later.refl (c : Callers) : Later c c :=
  ⟨fun _ => id, fun _ _ => Or.inl, fun _ _ => id, ⟨[], by simp⟩, ⟨[], by simp⟩⟩

theorem Later.trans {c c' c'' : Callers} (h : Later c c') (h' : Later c' c'') : Later c c'' := by
  obtain ⟨taken, htaken, hwaiting⟩ := h.taken
  obtain ⟨taken', htaken', hwaiting'⟩ := h'.taken
  obtain ⟨stored, hstored, hopen⟩ := h.stored
  obtain ⟨stored', hstored', hopen'⟩ := h'.stored
  refine ⟨fun i hi => h.waiting i (h'.waiting i hi), fun i outcome hi => ?_,
    fun i outcome hi => h'.returned i outcome (h.returned i outcome hi), ⟨taken ++ taken', ?_, fun i hi => ?_⟩,
    ⟨stored ++ stored', ?_, fun i hi => ?_⟩⟩
  · rcases h.freed i outcome hi with hi | hi
    · exact h'.freed i outcome hi
    · exact Or.inr (h'.returned i outcome hi)
  · rw [htaken', htaken, List.append_assoc]
  · rcases List.mem_append.mp hi with hi | hi
    · exact hwaiting i hi
    · exact h.waiting i (hwaiting' i hi)
  · rw [hstored', hstored, List.append_assoc]
  · rcases List.mem_append.mp hi with hi | hi
    · exact hopen i hi
    · exact fun outcome hreturned => hopen' i hi outcome (h.returned i outcome hreturned)

theorem Later.of_update {c' : Callers} {i : Nat} {p : Phase} (hphase : c'.phase = Function.update c.phase i p)
    (hwaiting : p ≠ .waiting) (hfreed : ∀ outcome, c.phase i = .freed outcome → p = .returned outcome)
    (hreturned : ∀ outcome, c.phase i ≠ .returned outcome)
    (htaken : ∃ more, c'.taken = c.taken ++ more ∧ ∀ j ∈ more, c.phase j = .waiting)
    (hstored : ∃ more, c'.stored = c.stored ++ more ∧ ∀ j ∈ more, ∀ outcome, c.phase j ≠ .returned outcome) :
    Later c c' := by
  refine ⟨fun j hj => ?_, fun j outcome hj => ?_, fun j outcome hj => ?_, htaken, hstored⟩
  · rw [hphase, Function.update_apply] at hj
    split at hj
    · exact absurd hj hwaiting
    · exact hj
  · by_cases hji : j = i
    · rw [hphase, hji, Function.update_self]
      exact Or.inr (hfreed outcome (hji ▸ hj))
    · rw [hphase, Function.update_of_ne hji]
      exact Or.inl hj
  · have hji : j ≠ i := by
      rintro rfl
      exact hreturned outcome hj
    rw [hphase, Function.update_of_ne hji]
    exact hj

theorem later_step (requests : Nat → Request) (c : Callers) (i : Nat) : Later c (c.step requests i) := by
  have hopen : ∃ more, c.stored = c.stored ++ more ∧ ∀ j ∈ more, ∀ outcome, c.phase j ≠ .returned outcome :=
    ⟨[], by simp⟩
  have hsame : ∃ more, c.taken = c.taken ++ more ∧ ∀ j ∈ more, c.phase j = .waiting := ⟨[], by simp⟩
  cases hi : c.phase i with
  | waiting =>
    cases hrunning : c.session.isRunning with
    | true =>
      rw [step_skip hi hrunning]
      exact .of_update rfl nofun (by simp [hi]) (by simp [hi]) hsame hopen
    | false =>
      rw [step_take hi hrunning]
      exact .of_update rfl nofun (by simp [hi]) (by simp [hi]) ⟨[i], rfl, by simpa using hi⟩ hopen
  | holding =>
    rw [step_work hi]
    exact .of_update rfl nofun (by simp [hi]) (by simp [hi]) hsame hopen
  | ended outcome =>
    rw [step_free hi]
    exact .of_update rfl nofun (by simp [hi]) (by simp [hi]) hsame hopen
  | freed outcome =>
    rw [step_store hi]
    refine .of_update rfl nofun (by simp [hi]) (by simp [hi]) hsame ?_
    by_cases hresult : outcome.result?.isSome = true
    · exact ⟨[i], if_pos hresult, by simp [hi]⟩
    · exact ⟨[], by simp [hresult], by simp⟩
  | returned outcome =>
    rw [step_returned hi]
    exact .refl c

theorem later_along (requests : Nat → Request) (c : Callers) (schedule : List Nat) :
    Later c (c.along requests schedule) := by
  induction schedule generalizing c with
  | nil => exact .refl c
  | cons i schedule ih => exact (later_step requests c i).trans (ih (c.step requests i))

/-- A call that has returned a result has stored it at some moment. -/
theorem exists_store {j : Nat} {outcome : RunOutcome} {schedule : List Nat} (hsome : outcome.result?.isSome = true)
    (h : (along requests { session := s } schedule).phase j = .returned outcome) :
    ∃ before after, schedule = before ++ j :: after ∧
      (along requests { session := s } before).phase j = .freed outcome := by
  induction schedule using List.reverseRecOn with
  | nil => cases h
  | append_singleton schedule k ih =>
    rw [along_append] at h
    generalize hc : along requests { session := s } schedule = c at h ih
    replace h : (c.step requests k).phase j = .returned outcome := h
    by_cases hjk : j = k
    · subst hjk
      rcases phase_of_step_returned h hsome with hfreed | hreturned
      · exact ⟨schedule, [], rfl, by rw [hc, hfreed]⟩
      · obtain ⟨before, after, rfl, hfreed⟩ := ih hreturned
        exact ⟨before, after ++ [j], by simp, hfreed⟩
    · rw [phase_step_of_ne hjk] at h
      obtain ⟨before, after, rfl, hfreed⟩ := ih h
      exact ⟨before, after ++ [k], by simp, hfreed⟩

/-- All calls that have begun have returned. -/
def AtRest (c : Callers) : Prop :=
  ∀ i, (c.phase i).isAtRest = true

theorem AtRest.returned {outcome : RunOutcome} {i : Nat} (h : c.AtRest)
    (hi : c.phase i = .freed outcome ∨ c.phase i = .returned outcome) : c.phase i = .returned outcome := by
  rcases hi with hi | hi
  · have hrest := h i
    rw [hi] at hrest
    cases hrest
  · exact hi

theorem mem_of_getLast?_append {front back : List Nat} {i : Nat} (hback : back ≠ [])
    (h : (front ++ back).getLast? = some i) : i ∈ back := by
  rw [List.getLast?_append_of_ne_nil _ hback] at h
  exact List.mem_of_getLast? h

/-- A successful call that took the lock behind another one is behind it among the successful ones. -/
theorem mem_of_successful_getLast? {front back : List Nat} {i j : Nat} (htaken : c.taken = front ++ back) (hi : i ∈ back)
    (hresult : (c.phase i).result?.isSome = true) (hlast : c.successful.getLast? = some j) : j ∈ back := by
  have hmem : i ∈ back.filter fun i => (c.phase i).result?.isSome := List.mem_filter.mpr ⟨hi, hresult⟩
  rw [successful, htaken, List.filter_append] at hlast
  exact List.mem_of_mem_filter (mem_of_getLast?_append (List.ne_nil_of_mem hmem) hlast)

section Newest

variable {b e : Callers} {i j : Nat} {outcome : RunOutcome}

/-- A call that stores behind another one, and had not freed the lock when the other stored, has taken it later. -/
theorem exists_taken_behind (hb : Exclusive b) (he : Exclusive e) (hj : b.phase j = .freed outcome)
    (hlater : Later (b.step requests j) e) (hij : i ≠ j)
    (hi : b.phase i = .waiting ∨ (b.phase i).isInside = true) (hresult : (e.phase i).result?.isSome = true) :
    ∃ front back, e.taken = front ++ back ∧ i ∈ back ∧ j ∉ back := by
  obtain ⟨more, htaken, hwaiting⟩ := hlater.taken
  have htaken' : e.taken = b.taken ++ more := by simpa [step_store hj] using htaken
  have hjmore : j ∉ more := by
    intro hmem
    simpa [step_store hj] using hwaiting j hmem
  rcases hi with hi | hi
  · have hmem := he.mem i (Phase.hasTaken_of_result? hresult)
    rw [htaken', List.mem_append] at hmem
    exact ⟨b.taken, more, htaken', hmem.resolve_left (hb.not_mem i hi), hjmore⟩
  · -- The call that has the lock is the last one that took it.
    obtain ⟨front, hfront⟩ := List.getLast?_eq_some_iff.mp (hb.holder i hi)
    refine ⟨front, i :: more, by rw [htaken', hfront, List.append_assoc, List.singleton_append], by simp, ?_⟩
    simp [hij.symm, hjmore]

/-- What is stored behind the result of a call is stored by calls that had not returned. -/
theorem exists_stored_behind (hj : b.phase j = .freed outcome) (hsome : outcome.result?.isSome = true)
    (hlater : Later (b.step requests j) e) :
    ∃ more, e.stored = (b.stored ++ [j]) ++ more ∧ j ∉ more ∧
      ∀ i ∈ more, i ≠ j ∧ ∀ other, b.phase i ≠ .returned other := by
  obtain ⟨more, hstored, hopen⟩ := hlater.stored
  have hjmore : j ∉ more := fun hmem => hopen j hmem outcome (by simp [step_store hj])
  refine ⟨more, by simpa [step_store hj, hsome] using hstored, hjmore, fun i hi => ?_⟩
  have hij : i ≠ j := by
    rintro rfl
    exact hjmore hi
  exact ⟨hij, fun other hother => hopen i hi other (by rw [phase_step_of_ne hij, hother])⟩

/-- A result that is still to be stored when a call stores its own is stored behind it. -/
theorem getLast?_stored_ne_of_isLate (hkb : Keeping s b) (hke : Keeping s e) (hj : b.phase j = .freed outcome)
    (hsome : outcome.result?.isSome = true) (hlater : Later (b.step requests j) e) (hrest : e.AtRest) (hij : i ≠ j)
    (hlate : (b.phase i).isLate = true) : e.stored.getLast? ≠ some j := by
  obtain ⟨more, hstored, hjmore, -⟩ := exists_stored_behind hj hsome hlater
  obtain ⟨other, hi, hother⟩ := Phase.exists_of_isLate hlate
  have hend : e.phase i = .returned other := hrest.returned (hlater.freed i other (by rw [phase_step_of_ne hij, hi]))
  have hmem : i ∈ e.stored := (hke.mem_iff i).2 (by rw [hend]; exact hother)
  have hnot : i ∉ b.stored := by
    rw [hkb.mem_iff, hi]
    exact Bool.false_ne_true
  have hmore : i ∈ more := by
    rw [hstored, List.mem_append, List.mem_append, List.mem_singleton] at hmem
    exact hmem.resolve_left fun h => h.elim hnot hij
  intro hlast
  rw [hstored] at hlast
  exact hjmore (mem_of_getLast?_append (List.ne_nil_of_mem hmore) hlast)

/-- If no other result is still to be stored when the newest successful call stores its own, nothing is stored behind
it: a call that did had not freed the lock, so it would be newer still. -/
theorem getLast?_stored_of_clear (hb : Exclusive b) (he : Exclusive e) (hke : Keeping s e)
    (hj : b.phase j = .freed outcome) (hsome : outcome.result?.isSome = true) (hlater : Later (b.step requests j) e)
    (hrest : e.AtRest) (hnewest : e.successful.getLast? = some j) (hclear : ∀ i, i ≠ j → (b.phase i).isLate = false) :
    e.stored.getLast? = some j := by
  obtain ⟨more, hstored, -, hopen⟩ := exists_stored_behind hj hsome hlater
  rcases more with _ | ⟨i, more⟩
  · rw [hstored, List.append_nil, List.getLast?_concat]
  · obtain ⟨hij, hnot⟩ := hopen i List.mem_cons_self
    have hresult : (e.phase i).result?.isSome = true := by
      rw [← hke.mem_iff, hstored]
      simp
    have hphase : b.phase i = .waiting ∨ (b.phase i).isInside = true := by
      cases hphase : b.phase i with
      | waiting => exact Or.inl rfl
      | holding => exact Or.inr rfl
      | ended other => exact Or.inr rfl
      | freed other =>
        -- It returns what it has, and that is no result.
        have hend := hrest.returned (hlater.freed i other (by rw [phase_step_of_ne hij, hphase]))
        have hnone := hclear i hij
        rw [hphase] at hnone
        rw [hend] at hresult
        exact absurd (hresult.symm.trans hnone) (by decide)
      | returned other => exact absurd hphase (hnot other)
    obtain ⟨front, back, htaken, hback, hjback⟩ := exists_taken_behind hb he hj hlater hij hphase hresult
    exact absurd (mem_of_successful_getLast? htaken hback hresult hnewest) hjback

/-- **Which result stays.** The result of the newest successful call is the last one stored exactly if no other one was
still to be stored when it was. -/
theorem getLast?_stored_along_iff {before after : List Nat}
    (hj : (along requests { session := s } before).phase j = .freed outcome)
    (hrest : (along requests { session := s } (before ++ j :: after)).AtRest)
    (hnewest : (along requests { session := s } (before ++ j :: after)).successful.getLast? = some j) :
    (along requests { session := s } (before ++ j :: after)).stored.getLast? = some j ↔
      ∀ i, i ≠ j → ((along requests { session := s } before).phase i).isLate = false := by
  have hexclusive := exclusive_along requests s (before ++ j :: after)
  have hkeeping := keeping_along requests s (before ++ j :: after)
  have hlater : Later ((along requests { session := s } before).step requests j)
      (along requests { session := s } (before ++ j :: after)) := by
    rw [along_append]
    exact later_along requests _ after
  have hreturned := hlater.returned j outcome (by simp [step_store hj])
  have hsome := (List.mem_filter.mp (List.mem_of_getLast? hnewest)).2
  rw [hreturned] at hsome
  constructor
  · intro hlast i hij
    by_contra hlate
    exact getLast?_stored_ne_of_isLate (keeping_along requests s before) hkeeping hj hsome hlater hrest hij
      (Bool.eq_true_of_not_eq_false hlate) hlast
  · exact getLast?_stored_of_clear (exclusive_along requests s before) hexclusive hkeeping hj hsome hlater hrest hnewest

end Newest

/-- What comes of calls of a session in some order of their steps. -/
structure LastStoredStays (requests : Nat → Request) (s : Session) (schedule : List Nat) (c : Callers) : Prop where
  /-- No two calls have the lock. -/
  exclusive : ∀ i j, (c.phase i).isInside = true → (c.phase j).isInside = true → i = j
  /-- The calls that have stored a result are those that have returned one. -/
  stored : c.stored.Perm c.successful
  /-- The last result is the one stored last, or that of the session if none was. -/
  lastResult : c.session.lastResult = (c.stored.getLast?.bind fun i => (c.phase i).result?).or s.lastResult
  /-- Once all have returned, the newest successful call is the one that stored last exactly if no other result was
  still to be stored when it stored its own. -/
  newest : c.AtRest → ∀ j, c.successful.getLast? = some j →
    (c.stored.getLast? = some j ↔ ∀ before after outcome, schedule = before ++ j :: after →
      (along requests { session := s } before).phase j = .freed outcome →
        ∀ i, i ≠ j → ((along requests { session := s } before).phase i).isLate = false)

/-- **The result stored last stays**, whatever the order in which the lock was taken. -/
theorem last_stored_stays (requests : Nat → Request) (s : Session) (schedule : List Nat) :
    LastStoredStays requests s schedule (along requests { session := s } schedule) := by
  have hexclusive := exclusive_along requests s schedule
  have hkeeping := keeping_along requests s schedule
  refine ⟨fun i j => hexclusive.eq_of_isInside, ?_, hkeeping.lastResult, fun hrest j hnewest => ⟨?_, fun hclear => ?_⟩⟩
  · refine (List.perm_ext_iff_of_nodup hkeeping.nodup (hexclusive.nodup.filter _)).2 fun i => ?_
    rw [hkeeping.mem_iff, List.mem_filter]
    exact ⟨fun h => ⟨hexclusive.mem i (Phase.hasTaken_of_result? h), h⟩, And.right⟩
  · rintro hlast before after outcome rfl hj
    exact (getLast?_stored_along_iff hj hrest hnewest).1 hlast
  · have hsome := (List.mem_filter.mp (List.mem_of_getLast? hnewest)).2
    obtain ⟨outcome, hreturned, hresult⟩ := Phase.exists_of_result? hsome
    obtain ⟨before, after, rfl, hj⟩ := exists_store hresult hreturned
    exact (getLast?_stored_along_iff hj hrest hnewest).2 (hclear before after outcome rfl hj)

/-- A call whose steps are not interrupted is a run of the session. -/
theorem session_along_uninterrupted {i : Nat} (hi : c.phase i = .waiting) (hfree : c.session.isRunning = false) :
    (c.along requests [i, i, i, i]).session =
      (c.session.run (requests i).world (requests i).root? (requests i).disturbance).1 := by
  rw [Session.run_of_not_isRunning hfree]
  have htake : (c.step requests i).phase i = .holding := by simp [step_take hi hfree]
  have hwork : ((c.step requests i).step requests i).phase i =
      .ended (Session.outcomeOf ((c.step requests i).session.work (requests i)).1) := by simp [step_work htake]
  have hdone : (((c.step requests i).step requests i).step requests i).phase i =
      .freed (Session.outcomeOf ((c.step requests i).session.work (requests i)).1) := by simp [step_free hwork]
  show ((((c.step requests i).step requests i).step requests i).step requests i).session = _
  rw [step_store hdone, step_free hwork, step_work htake, step_take hi hfree]
  rfl

end Callers

/-! ## An older result that stays -/

/-- A tree with two projects of one file each. -/
def twinDisk : Disk :=
  ⟨.directory [("old", .directory [("a.ts", .file .empty 0)]), ("new", .directory [("a.ts", .file .empty 0)])], "/"⟩

/-- The first call is for one project and all others are for the other one. -/
def twinRequests (i : Nat) : Request :=
  { world := { disk := twinDisk }, root? := if i = 0 then some "/old" else some "/new" }

/-- Between the step in which the first call frees the lock and the one in which it stores its result, the second call
does all its steps. -/
def twinCallers : Callers :=
  Callers.along twinRequests { session := { root := "/old", settings := some {}, writesReports := false } }
    [0, 0, 0, 1, 1, 1, 1, 0]

/-- Both calls return a result, the second took the lock last, and the result of the first stays. -/
theorem older_run_stays : twinCallers.AtRest ∧ twinCallers.successful = [0, 1] ∧ twinCallers.stored = [1, 0] ∧
    (twinCallers.phase 1).result?.map (·.root) = some "/new" ∧
    twinCallers.session.lastResult.map (·.root) = some "/old" := by
  refine ⟨fun i => ?_, by decide +kernel, by decide +kernel, by decide +kernel, by decide +kernel⟩
  rcases i with _ | _ | i
  · decide +kernel
  · decide +kernel
  · -- No other call has begun.
    rw [twinCallers, Callers.phase_along_of_not_mem (by simp)]
    rfl

end ExportAudit
