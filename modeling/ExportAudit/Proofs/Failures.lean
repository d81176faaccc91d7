import Mathlib

/-!
# Computations that may fail

Where a failure comes from, and what a success came through, for the ways in which computations are put together.
-/

namespace ExportAudit

variable {ε α β : Type} {e : ε}

theorem error_of_map {f : α → β} {x : Except ε α} (h : x.map f = .error e) : x = .error e := by
  cases x with
  | error fault =>
    cases h
    rfl
  | ok a => cases h

theorem error_of_bind {x : Except ε α} {f : α → Except ε β} (h : x >>= f = .error e) :
    x = .error e ∨ ∃ a, x = .ok a ∧ f a = .error e := by
  cases x with
  | error fault =>
    cases h
    exact .inl rfl
  | ok a => exact .inr ⟨a, rfl, h⟩

theorem ok_of_bind {x : Except ε α} {f : α → Except ε β} {b : β} (h : x >>= f = .ok b) :
    ∃ a, x = .ok a ∧ f a = .ok b := by
  cases x with
  | error fault => cases h
  | ok a => exact ⟨a, rfl, h⟩

theorem ok_of_mapError {ε' : Type} {f : ε → ε'} {x : Except ε α} {a : α} (h : x.mapError f = .ok a) : x = .ok a := by
  cases x with
  | error fault => cases h
  | ok b =>
    cases h
    rfl

theorem some_of_elim {o : Option α} {a : α} (h : o.elim (.error e) .ok = (.ok a : Except ε α)) : o = some a := by
  cases o with
  | none => cases h
  | some b =>
    cases h
    rfl

theorem error_of_forM {f : α → Except ε Unit} {l : List α} (h : l.forM f = .error e) : ∃ a ∈ l, f a = .error e := by
  induction l with
  | nil => cases h
  | cons a l ih =>
    obtain ha | ⟨_, _, hl⟩ := error_of_bind h
    · exact ⟨a, List.mem_cons_self, ha⟩
    · obtain ⟨b, hb, hfault⟩ := ih hl
      exact ⟨b, List.mem_cons_of_mem a hb, hfault⟩

theorem error_of_mapM {f : α → Except ε β} {l : List α} (h : l.mapM f = .error e) : ∃ a ∈ l, f a = .error e := by
  induction l with
  | nil => cases h
  | cons a l ih =>
    rw [List.mapM_cons] at h
    obtain ha | ⟨_, _, hl⟩ := error_of_bind h
    · exact ⟨a, List.mem_cons_self, ha⟩
    · obtain hl | ⟨_, _, hpure⟩ := error_of_bind hl
      · obtain ⟨b, hb, hfault⟩ := ih hl
        exact ⟨b, List.mem_cons_of_mem a hb, hfault⟩
      · cases hpure

theorem exists_of_mem_mapM {f : α → Except ε β} {l : List α} {bs : List β} (h : l.mapM f = .ok bs) {b : β}
    (hb : b ∈ bs) : ∃ a ∈ l, f a = .ok b := by
  induction l generalizing bs with
  | nil =>
    cases h
    cases hb
  | cons a l ih =>
    rw [List.mapM_cons] at h
    obtain ⟨b₀, ha, h⟩ := ok_of_bind h
    obtain ⟨rest, hl, h⟩ := ok_of_bind h
    cases h
    obtain rfl | hb := List.mem_cons.mp hb
    · exact ⟨a, List.mem_cons_self, ha⟩
    · obtain ⟨a', ha', hfa'⟩ := ih hl hb
      exact ⟨a', List.mem_cons_of_mem a ha', hfa'⟩

end ExportAudit
