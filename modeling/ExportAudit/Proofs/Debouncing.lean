import Mathlib
import ExportAudit.Trigger

/-!
# Debouncing in any order of steps

A debouncer is triggered and cancelled, and its timers run out, clear the field and make their calls. These steps may
come in any order (`Debouncer.after`).

- Every timer is in one place at a time (`Sound`, `sound_after`).
- A timer that has run out clears the field, whichever timer is there by then. A timer that loses its place like this
  is `Lost`: it waits, but the field does not tell, and no one can cancel it. The timers that wait are the one in the
  field and those that are lost (`mem_waiting_after`).
- So where nothing is under way, the field tells whether a timer waits unless one is lost, and a cancelled debouncer makes
  no call unless one is lost (`pending_tells`). None is lost if no trigger comes between the end of a timer and its
  clearing of the field (`Calm`); `overtaking_loses_timer` is a trigger that does.
-/

namespace ExportAudit.Debouncer

/-! ## Steps -/

/-- What can happen to a debouncer. Timers are given by their numbers. -/
inductive Step where
  | trigger
  | cancel
  | expire (t : Nat)
  | clear (t : Nat)
  | call (t : Nat)
  deriving DecidableEq, Repr

/-- The debouncer after one step. -/
def step (b : Debouncer) : Step → Debouncer
  | .trigger => b.trigger
  | .cancel => b.cancel
  | .expire t => b.expire t
  | .clear t => b.clear t
  | .call t => b.call t

/-- A new debouncer after steps in some order. -/
def after (steps : List Step) : Debouncer :=
  steps.foldl step {}

/-- No timer that has run out has still to clear the field or to make its call. -/
structure Idle (b : Debouncer) : Prop where
  expired : b.expired = []
  cleared : b.cleared = []

/-- A timer still waits that has been cleared from the field by another one, which had run out before. -/
def Lost (steps : List Step) (t : Nat) : Prop :=
  ∃ earlier u later, steps = earlier ++ .clear u :: later ∧ u ∈ (after earlier).expired ∧
    (after earlier).timer = some t ∧ t ∈ (after earlier).waiting ∧ .expire t ∉ later

/-- No trigger comes while a timer that has run out has still to clear the field. -/
def Calm (steps : List Step) : Prop :=
  ∀ earlier later, steps = earlier ++ .trigger :: later → (after earlier).expired = []

instance (b : Debouncer) : Decidable (Idle b) :=
  decidable_of_iff (b.expired = [] ∧ b.cleared = []) ⟨fun h => ⟨h.1, h.2⟩, fun h => ⟨h.expired, h.cleared⟩⟩

variable {b : Debouncer} {s : Step} {steps later : List Step} {t u : Nat}

theorem after_concat (steps : List Step) (s : Step) : after (steps ++ [s]) = (after steps).step s := by
  rw [after, List.foldl_append]
  rfl

theorem after_append (steps later : List Step) : after (steps ++ later) = later.foldl step (after steps) :=
  List.foldl_append

/-! ## What a step does -/

@[simp]
theorem timer_cancel (b : Debouncer) : b.cancel.timer = none := by
  unfold cancel
  cases h : b.timer <;> simp [h]

@[simp]
theorem expired_cancel (b : Debouncer) : b.cancel.expired = b.expired := by
  unfold cancel
  cases b.timer <;> rfl

@[simp]
theorem cleared_cancel (b : Debouncer) : b.cancel.cleared = b.cleared := by
  unfold cancel
  cases b.timer <;> rfl

@[simp]
theorem started_cancel (b : Debouncer) : b.cancel.started = b.started := by
  unfold cancel
  cases b.timer <;> rfl

@[simp]
theorem calls_cancel (b : Debouncer) : b.cancel.calls = b.calls := by
  unfold cancel
  cases b.timer <;> rfl

theorem nodup_waiting_cancel (h : b.waiting.Nodup) : b.cancel.waiting.Nodup := by
  unfold cancel
  cases b.timer with
  | none => exact h
  | some t => exact h.erase t

theorem mem_waiting_cancel (h : b.waiting.Nodup) : t ∈ b.cancel.waiting ↔ t ∈ b.waiting ∧ b.timer ≠ some t := by
  unfold cancel
  cases htimer : b.timer with
  | none => simp
  | some u =>
    simp only [h.mem_erase_iff, ne_eq, Option.some.injEq]
    rw [and_comm, eq_comm]

theorem expire_of_mem (h : t ∈ b.waiting) :
    b.expire t = { b with waiting := b.waiting.erase t, expired := b.expired ++ [t] } :=
  if_pos (by simpa using h)

theorem expire_of_not_mem (h : t ∉ b.waiting) : b.expire t = b :=
  if_neg (by simpa using h)

theorem clear_of_mem (h : t ∈ b.expired) :
    b.clear t = { b with timer := none, expired := b.expired.erase t, cleared := b.cleared ++ [t] } :=
  if_pos (by simpa using h)

theorem clear_of_not_mem (h : t ∉ b.expired) : b.clear t = b :=
  if_neg (by simpa using h)

theorem call_of_mem (h : t ∈ b.cleared) : b.call t = { b with cleared := b.cleared.erase t, calls := b.calls + 1 } :=
  if_pos (by simpa using h)

theorem call_of_not_mem (h : t ∉ b.cleared) : b.call t = b :=
  if_neg (by simpa using h)

theorem call_eq (b : Debouncer) (t : Nat) : ∃ cleared calls, b.call t = { b with cleared := cleared, calls := calls } := by
  by_cases h : t ∈ b.cleared
  · exact ⟨_, _, call_of_mem h⟩
  · exact ⟨_, _, call_of_not_mem h⟩

/-! ## The places of timers -/

/-- Every timer has been started and is in one place, and the one in the field is waiting or has run out. -/
structure Sound (b : Debouncer) : Prop where
  nodup : b.waiting.Nodup
  waiting_lt : ∀ t ∈ b.waiting, t < b.started
  expired_lt : ∀ t ∈ b.expired, t < b.started
  apart : ∀ t ∈ b.waiting, t ∉ b.expired
  held : ∀ t, b.timer = some t → t ∈ b.waiting ∨ t ∈ b.expired

theorem Sound.cancel (h : Sound b) : Sound b.cancel where
  nodup := nodup_waiting_cancel h.nodup
  waiting_lt t ht := by
    rw [started_cancel]
    exact h.waiting_lt t ((mem_waiting_cancel h.nodup).mp ht).1
  expired_lt := by simpa using h.expired_lt
  apart t ht := by
    rw [expired_cancel]
    exact h.apart t ((mem_waiting_cancel h.nodup).mp ht).1
  held t ht := by simp at ht

theorem Sound.trigger (h : Sound b) : Sound b.trigger := by
  have hcancel := h.cancel
  refine ⟨?_, ?_, ?_, ?_, ?_⟩
  · refine hcancel.nodup.append (List.nodup_singleton _) ?_
    rw [List.disjoint_singleton]
    exact fun hmem => absurd (hcancel.waiting_lt _ hmem) (lt_irrefl _)
  · intro t ht
    rcases List.mem_append.mp ht with ht | ht
    · exact Nat.lt_succ_of_lt (hcancel.waiting_lt t ht)
    · rw [List.mem_singleton.mp ht]
      exact Nat.lt_succ_self _
  · exact fun t ht => Nat.lt_succ_of_lt (hcancel.expired_lt t ht)
  · intro t ht
    rcases List.mem_append.mp ht with ht | ht
    · exact hcancel.apart t ht
    · rw [List.mem_singleton.mp ht]
      exact fun hmem => absurd (hcancel.expired_lt _ hmem) (lt_irrefl _)
  · intro t ht
    exact Or.inl (List.mem_append_right _ (List.mem_singleton.mpr (Option.some.inj ht).symm))

theorem Sound.expire (h : Sound b) (t : Nat) : Sound (b.expire t) := by
  by_cases ht : t ∈ b.waiting
  · rw [expire_of_mem ht]
    refine ⟨h.nodup.erase t, fun u hu => h.waiting_lt u (List.mem_of_mem_erase hu), ?_, ?_, ?_⟩
    · intro u hu
      rcases List.mem_append.mp hu with hu | hu
      · exact h.expired_lt u hu
      · exact List.mem_singleton.mp hu ▸ h.waiting_lt t ht
    · intro u hu
      obtain ⟨hne, hu⟩ := h.nodup.mem_erase_iff.mp hu
      rw [List.mem_append, List.mem_singleton, not_or]
      exact ⟨h.apart u hu, hne⟩
    · intro u hu
      by_cases hne : u = t
      · exact Or.inr (List.mem_append_right _ (List.mem_singleton.mpr hne))
      · exact (h.held u hu).imp (fun hmem => h.nodup.mem_erase_iff.mpr ⟨hne, hmem⟩) (List.mem_append_left _)
  · rwa [expire_of_not_mem ht]

theorem Sound.clear (h : Sound b) (t : Nat) : Sound (b.clear t) := by
  by_cases ht : t ∈ b.expired
  · rw [clear_of_mem ht]
    exact ⟨h.nodup, h.waiting_lt, fun u hu => h.expired_lt u (List.mem_of_mem_erase hu),
      fun u hu hmem => h.apart u hu (List.mem_of_mem_erase hmem), fun u hu => by simp at hu⟩
  · rwa [clear_of_not_mem ht]

theorem Sound.step (h : Sound b) (s : Step) : Sound (b.step s) := by
  cases s with
  | trigger => exact h.trigger
  | cancel => exact h.cancel
  | expire t => exact h.expire t
  | clear t => exact h.clear t
  | call t =>
    obtain ⟨cleared, calls, hcall⟩ := call_eq b t
    rw [Debouncer.step, hcall]
    exact ⟨h.nodup, h.waiting_lt, h.expired_lt, h.apart, h.held⟩

theorem sound_after (steps : List Step) : Sound (after steps) := by
  induction steps using List.reverseRecOn with
  | nil => exact ⟨List.nodup_nil, by simp [after], by simp [after], by simp [after], by simp [after]⟩
  | append_singleton steps s ih => exact after_concat steps s ▸ ih.step s

/-! ## Lost timers -/

/-- One more step lets a lost timer run out, or loses the one that it clears from the field. -/
theorem lost_concat : Lost (steps ++ [s]) t ↔ Lost steps t ∧ s ≠ .expire t ∨
    ∃ u, s = .clear u ∧ u ∈ (after steps).expired ∧ (after steps).timer = some t ∧ t ∈ (after steps).waiting := by
  constructor
  · rintro ⟨earlier, u, later, heq, hu, htimer, ht, hlater⟩
    obtain rfl | ⟨later, last, rfl⟩ := later.eq_nil_or_concat'
    · obtain ⟨rfl, hs⟩ := List.append_inj' heq rfl
      exact Or.inr ⟨u, List.singleton_inj.mp hs, hu, htimer, ht⟩
    · rw [← List.cons_append, ← List.append_assoc] at heq
      obtain ⟨rfl, hs⟩ := List.append_inj' heq rfl
      rw [List.mem_append, not_or, List.mem_singleton] at hlater
      refine Or.inl ⟨⟨earlier, u, later, rfl, hu, htimer, ht, hlater.1⟩, ?_⟩
      rw [List.singleton_inj.mp hs]
      exact Ne.symm hlater.2
  · rintro (⟨⟨earlier, u, later, rfl, hu, htimer, ht, hlater⟩, hs⟩ | ⟨u, rfl, hu, htimer, ht⟩)
    · refine ⟨earlier, u, later ++ [s], by simp, hu, htimer, ht, ?_⟩
      rw [List.mem_append, not_or, List.mem_singleton]
      exact ⟨hlater, Ne.symm hs⟩
    · exact ⟨steps, u, [], rfl, hu, htimer, ht, List.not_mem_nil⟩

/-- A timer that waits is beside the field exactly if it was so before and has not run out, or has just been cleared from
it. -/
theorem beside_field_step (h : Sound b) (s : Step) (t : Nat) :
    t ∈ (b.step s).waiting ∧ (b.step s).timer ≠ some t ↔ (t ∈ b.waiting ∧ b.timer ≠ some t) ∧ s ≠ .expire t ∨
      ∃ u, s = .clear u ∧ u ∈ b.expired ∧ b.timer = some t ∧ t ∈ b.waiting := by
  cases s with
  | trigger =>
    have hlt := h.waiting_lt t
    simp only [step, trigger, List.mem_append, List.mem_singleton, mem_waiting_cancel h.nodup, started_cancel]
    grind
  | cancel => simp [step, mem_waiting_cancel h.nodup]
  | expire u =>
    by_cases hu : u ∈ b.waiting
    · simp only [step, expire_of_mem hu, h.nodup.mem_erase_iff]
      grind
    · simp only [step, expire_of_not_mem hu]
      grind
  | clear u =>
    by_cases hu : u ∈ b.expired
    · simp only [step, clear_of_mem hu]
      grind
    · simp only [step, clear_of_not_mem hu]
      grind
  | call u =>
    obtain ⟨cleared, calls, hcall⟩ := call_eq b u
    simp [step, hcall]

/-- The lost timers are those that wait and are not in the field. -/
theorem lost_iff : Lost steps t ↔ t ∈ (after steps).waiting ∧ (after steps).timer ≠ some t := by
  induction steps using List.reverseRecOn with
  | nil => simp [Lost, after]
  | append_singleton steps s ih => rw [lost_concat, after_concat, beside_field_step (sound_after steps), ih]

/-- The timers that wait are the one in the field, unless it has run out, and those that are lost. -/
theorem mem_waiting_after : t ∈ (after steps).waiting ↔
    (after steps).timer = some t ∧ t ∉ (after steps).expired ∨ Lost steps t := by
  have hsound := sound_after steps
  have happart := hsound.apart t
  have hheld := hsound.held t
  rw [lost_iff]
  grind

/-! ## Calm schedules -/

/-- At most the timer in the field waits, and none while one that has run out has still to clear the field. -/
structure Settled (b : Debouncer) : Prop where
  one : b.expired = [] ∨ b.waiting = []
  held : ∀ t ∈ b.waiting, b.timer = some t

theorem Settled.waiting_cancel (h : Settled b) (hsound : Sound b) : b.cancel.waiting = [] :=
  List.eq_nil_iff_forall_not_mem.mpr fun t ht =>
    let ⟨hwaiting, hne⟩ := (mem_waiting_cancel hsound.nodup).mp ht
    hne (h.held t hwaiting)

/-- A step keeps this, as long as a trigger finds no timer that has run out. -/
theorem Settled.step (h : Settled b) (hsound : Sound b) (hcalm : s = .trigger → b.expired = []) :
    Settled (b.step s) := by
  cases s with
  | trigger =>
    refine ⟨Or.inl ((expired_cancel b).trans (hcalm rfl)), fun t ht => ?_⟩
    simp only [Debouncer.step, Debouncer.trigger, h.waiting_cancel hsound, List.nil_append, List.mem_singleton] at ht
    exact congrArg some ht.symm
  | cancel =>
    have hnil := h.waiting_cancel hsound
    exact ⟨Or.inr hnil, by simp [Debouncer.step, hnil]⟩
  | expire t =>
    by_cases ht : t ∈ b.waiting
    · -- all that wait are in the field, so this was the only one
      have hnil : b.waiting.erase t = [] := List.eq_nil_iff_forall_not_mem.mpr fun u hu =>
        let ⟨hne, hmem⟩ := hsound.nodup.mem_erase_iff.mp hu
        hne (Option.some.inj ((h.held u hmem).symm.trans (h.held t ht)))
      rw [Debouncer.step, expire_of_mem ht]
      exact ⟨Or.inr hnil, by simp [hnil]⟩
    · rwa [Debouncer.step, expire_of_not_mem ht]
  | clear t =>
    by_cases ht : t ∈ b.expired
    · have hnil : b.waiting = [] := h.one.resolve_left (List.ne_nil_of_mem ht)
      rw [Debouncer.step, clear_of_mem ht]
      exact ⟨Or.inr hnil, by simp [hnil]⟩
    · rwa [Debouncer.step, clear_of_not_mem ht]
  | call t =>
    obtain ⟨cleared, calls, hcall⟩ := call_eq b t
    rw [Debouncer.step, hcall]
    exact ⟨h.one, h.held⟩

theorem Calm.of_append (h : Calm (steps ++ later)) : Calm steps :=
  fun earlier rest heq => h earlier (rest ++ later) (by rw [heq, List.append_assoc, List.cons_append])

theorem Calm.settled (h : Calm steps) : Settled (after steps) := by
  induction steps using List.reverseRecOn with
  | nil => exact ⟨Or.inl rfl, by simp [after]⟩
  | append_singleton steps s ih =>
    rw [after_concat]
    refine (ih h.of_append).step (sound_after steps) fun hs => ?_
    exact h steps [] (by rw [hs])

theorem Calm.not_lost (h : Calm steps) (t : Nat) : ¬ Lost steps t := by
  rw [lost_iff]
  exact fun ⟨hwaiting, hne⟩ => hne (h.settled.held t hwaiting)

/-! ## What the field tells -/

/-- Nothing is left to run out, to clear the field or to make a call. -/
structure Spent (b : Debouncer) : Prop extends Idle b where
  waiting : b.waiting = []

/-- Only a trigger brings a call into a debouncer that has none to come. -/
theorem Spent.step (h : Spent b) (hs : s ≠ .trigger) : Spent (b.step s) ∧ (b.step s).calls = b.calls := by
  cases s with
  | trigger => exact absurd rfl hs
  | cancel =>
    have hnil : b.cancel.waiting = [] := by
      unfold Debouncer.cancel
      cases b.timer <;> simp [h.waiting]
    exact ⟨⟨⟨(expired_cancel b).trans h.expired, (cleared_cancel b).trans h.cleared⟩, hnil⟩, calls_cancel b⟩
  | expire t => rw [Debouncer.step, expire_of_not_mem (by simp [h.waiting])]; exact ⟨h, rfl⟩
  | clear t => rw [Debouncer.step, clear_of_not_mem (by simp [h.expired])]; exact ⟨h, rfl⟩
  | call t => rw [Debouncer.step, call_of_not_mem (by simp [h.cleared])]; exact ⟨h, rfl⟩

theorem Spent.calls_foldl (h : Spent b) (hlater : .trigger ∉ later) : (later.foldl Debouncer.step b).calls = b.calls := by
  induction later generalizing b with
  | nil => rfl
  | cons s later ih =>
    rw [List.mem_cons, not_or] at hlater
    obtain ⟨hspent, hcalls⟩ := h.step (Ne.symm hlater.1)
    rw [List.foldl_cons, ih hspent hlater.2, hcalls]

/-- A timer that waits where nothing is under way can run out, clear the field and make its call. -/
theorem Idle.calls_runOut (h : Idle b) (ht : t ∈ b.waiting) :
    ([.expire t, .clear t, .call t].foldl Debouncer.step b).calls = b.calls + 1 := by
  simp [Debouncer.step, expire_of_mem ht, clear, call, h.expired, h.cleared]

theorem Idle.cancel (h : Idle b) : Idle b.cancel :=
  ⟨(expired_cancel b).trans h.expired, (cleared_cancel b).trans h.cleared⟩

/-- A debouncer cancelled while nothing is under way makes no further call exactly if no timer is lost. -/
theorem calls_after_cancel_iff (hidle : Idle (after steps)) :
    (∀ later, .trigger ∉ later → (after (steps ++ .cancel :: later)).calls = (after steps).calls) ↔
      ∀ t, ¬ Lost steps t := by
  have hafter : ∀ later, after (steps ++ .cancel :: later) = later.foldl step (after steps).cancel :=
    fun later => after_append steps (.cancel :: later)
  simp only [lost_iff, ← mem_waiting_cancel (sound_after steps).nodup]
  constructor
  · intro h t ht
    have hcalls := h [.expire t, .clear t, .call t] (by simp)
    rw [hafter, hidle.cancel.calls_runOut ht, calls_cancel] at hcalls
    omega
  · intro hnone later hlater
    have hspent : Spent (after steps).cancel := ⟨hidle.cancel, List.eq_nil_iff_forall_not_mem.mpr hnone⟩
    rw [hafter, hspent.calls_foldl hlater, calls_cancel]

/-- The field tells whether a timer waits exactly if it holds one or no timer is lost. -/
theorem isPending_tells_iff (hidle : Idle (after steps)) :
    ((after steps).isPending = false ↔ (after steps).waiting = []) ↔
      (after steps).isPending = true ∨ ∀ t, ¬ Lost steps t := by
  cases htimer : (after steps).timer with
  | none => simp [isPending, htimer, mem_waiting_after, List.eq_nil_iff_forall_not_mem]
  | some t =>
    have ht : t ∈ (after steps).waiting := ((sound_after steps).held t htimer).resolve_right (by simp [hidle.expired])
    simp [isPending, htimer, List.ne_nil_of_mem ht]

/-- **What the field of a debouncer tells.** Take any order of steps after which nothing is under way. The field tells
whether a timer waits exactly if it holds one or no timer is lost; a cancel that is not followed by a trigger is followed
by no call either exactly if no timer is lost; and none is lost if every trigger comes while no timer that has run out
has still to clear the field. -/
theorem pending_tells (steps : List Step) (hidle : Idle (after steps)) :
    (((after steps).isPending = false ↔ (after steps).waiting = []) ↔
        (after steps).isPending = true ∨ ∀ t, ¬ Lost steps t) ∧
      ((∀ later, .trigger ∉ later → (after (steps ++ .cancel :: later)).calls = (after steps).calls) ↔
        ∀ t, ¬ Lost steps t) ∧
      (Calm steps → ∀ t, ¬ Lost steps t) :=
  ⟨isPending_tells_iff hidle, calls_after_cancel_iff hidle, Calm.not_lost⟩

/-- A trigger after a timer has made its call, and one after that. -/
def burst : List Step :=
  [.trigger, .expire 0, .clear 0, .call 0, .trigger, .trigger]

theorem pending_tells_burst :
    Idle (after burst) ∧ ((after burst).isPending = false ↔ (after burst).waiting = []) ∧
      ∀ later, .trigger ∉ later → (after (burst ++ .cancel :: later)).calls = (after burst).calls := by
  have hidle : Idle (after burst) := by decide
  have hlost : ∀ t, ¬ Lost burst t := by
    have hwaiting : (after burst).waiting = [2] := by decide
    have htimer : (after burst).timer = some 2 := by decide
    simp [lost_iff, hwaiting, htimer, eq_comm]
  exact ⟨hidle, (pending_tells burst hidle).1.mpr (Or.inr hlost), (pending_tells burst hidle).2.1.mpr hlost⟩

/-- A trigger that comes when a timer has run out and has not yet cleared the field: the old timer then clears the new
one, which waits though nothing is pending, and makes its call after the cancel. -/
theorem overtaking_loses_timer :
    (¬ ∀ steps, Idle (after steps) → ((after steps).isPending = false ↔ (after steps).waiting = [])) ∧
      ¬ ∀ steps later, Idle (after steps) → .trigger ∉ later →
        (after (steps ++ .cancel :: later)).calls = (after steps).calls := by
  constructor
  · intro h
    exact absurd (h [.trigger, .expire 0, .trigger, .clear 0, .call 0] (by decide)) (by decide)
  · intro h
    exact absurd (h [.trigger, .expire 0, .trigger, .clear 0, .call 0] [.expire 1, .clear 1, .call 1] (by decide)
      (by decide)) (by decide)

end ExportAudit.Debouncer
