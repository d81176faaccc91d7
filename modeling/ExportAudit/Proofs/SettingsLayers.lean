import Mathlib
import ExportAudit.Proofs.MappingKeys

/-!
# Layers of settings

The settings of a project field by field (`Settings.load_lays_out`): a field has the value of its variable if that is of
the field's kind, else the value of the settings file if that is, else its default, raised to its least value; a list on
liveness has the value of the file or is empty (`LaidOut`).

Each layer is a run over its entries. One entry gives a value to one field at most, and to none if its key is unknown or
its value of another kind (`Setting.get_applyEntry`, `LivenessList.get_applyLivenessEntry`), so a run leaves each field
with the last value given to it (`Setting.get_applyValues`), and as the keys of a mapping are distinct there is one at
most. Only what an entry gives counts, so neither the order of the entries matters nor those that give nothing
(`Immaterial`).
-/

namespace ExportAudit

open Setting (textOf? textsOf?)
open Value (textKeys textOf?_eq_some_iff)

/-! ## Kinds -/

/-- Whether a value is of a kind; a truth value is no integer, and a list is one of texts. -/
def SettingKind.admits : SettingKind → Value → Bool
  | .texts, .list items => items.all fun v => (textOf? v).isSome
  | .int, .int _ => true
  | .bool, .bool _ => true
  | .text, .text _ => true
  | _, _ => false

section Kinds

variable {v : Value} {ts : List String}

theorem mapM_textOf?_eq_some_iff {items : List Value} : items.mapM textOf? = some ts ↔ items = ts.map .text := by
  induction items generalizing ts with
  | nil => simp [eq_comm]
  | cons v items ih =>
    simp only [List.mapM_cons, bind, Option.bind_eq_some_iff, pure, Option.some.injEq, textOf?_eq_some_iff, ih]
    constructor
    · rintro ⟨t, rfl, rest, rfl, rfl⟩
      rfl
    · intro h
      obtain ⟨t, rest, rfl, ht, hrest⟩ := List.map_eq_cons_iff.mp h.symm
      exact ⟨t, ht.symm, rest, hrest.symm, rfl⟩

theorem textsOf?_eq_some_iff : textsOf? v = some ts ↔ v = .texts ts := by
  cases v <;> simp [textsOf?, Value.texts, mapM_textOf?_eq_some_iff]

theorem isSome_mapM_textOf? (items : List Value) :
    (items.mapM textOf?).isSome = items.all fun v => (textOf? v).isSome := by
  induction items with
  | nil => rfl
  | cons v items ih =>
    rw [List.all_cons, ← ih, List.mapM_cons]
    cases textOf? v with
    | none => rfl
    | some t => cases items.mapM textOf? <;> rfl

theorem isSome_textsOf? (v : Value) : (textsOf? v).isSome = SettingKind.texts.admits v := by
  cases v with
  | list items => exact isSome_mapM_textOf? items
  | _ => rfl

end Kinds

/-! ## Runs over entries -/

/-- If each entry sets what it gives a value, a run leaves the last value given. -/
theorem get_foldl_eq_getLast? {σ β : Type} (get : σ → β) {given? : Value × Value → Option β}
    {step : Settings.Layered σ → Value × Value → Settings.Layered σ}
    (hstep : ∀ x e, get (step x e).1 = (given? e).getD (get x.1)) (entries : List (Value × Value))
    (x : Settings.Layered σ) :
    get (entries.foldl step x).1 = (entries.filterMap given?).getLast?.getD (get x.1) := by
  induction entries generalizing x with
  | nil => rfl
  | cons e entries ih =>
    rw [List.foldl_cons, ih, hstep]
    cases hgiven : given? e with
    | none => rw [List.filterMap_cons_none hgiven, Option.getD_none]
    | some v => rw [List.filterMap_cons_some hgiven, List.getLast?_cons, Option.getD_some, Option.getD_some]

/-! ## Fields -/

namespace Setting

variable {f g : Setting} {v : Value} {s s' : Settings} {name : String}

theorem mem_all (f : Setting) : f ∈ all := by
  cases f <;> decide

theorem nodup_all : all.Nodup := by
  decide

theorem name_injective (h : f.name = g.name) : f = g := by
  revert h
  cases f <;> cases g <;> decide

theorem name_ne_liveness (f : Setting) : f.name ≠ "liveness" := by
  cases f <;> decide

theorem ofName?_eq_some_iff : ofName? name = some f ↔ name = f.name := by
  constructor
  · intro h
    have hname := List.find?_some h
    exact (beq_iff_eq.mp hname).symm
  · rintro rfl
    cases f <;> decide

/-- A value of another kind is not put. -/
theorem put?_eq_none (h : f.kind.admits v = false) : f.put? v s = none := by
  cases f with
  | excludedFolders =>
    rw [kind, ← isSome_textsOf?, Option.isSome_eq_false_iff, Option.isNone_iff_eq_none] at h
    simp [put?, h]
  | _ => cases v <;> simp_all [kind, SettingKind.admits, put?]

/-- Putting a value of its kind sets a field and nothing else. -/
theorem exists_put? (h : f.kind.admits v = true) (s : Settings) :
    ∃ s', f.put? v s = some s' ∧ f.get s' = v ∧ (∀ g, g ≠ f → g.get s' = g.get s) ∧ s'.liveness = s.liveness := by
  cases f with
  | excludedFolders =>
    rw [kind, ← isSome_textsOf?, Option.isSome_iff_exists] at h
    obtain ⟨ts, hts⟩ := h
    refine ⟨{ s with excludedFolders := ts }, by simp [put?, hts], (textsOf?_eq_some_iff.mp hts).symm, ?_, rfl⟩
    intro g hg
    cases g <;> simp_all [get]
  | _ =>
    cases v <;> simp [kind, SettingKind.admits] at h
    refine ⟨_, rfl, rfl, ?_, rfl⟩
    intro g hg
    cases g <;> simp_all [get]

/-- The value that an entry gives a field: its own, if the key is the field's name and the value of its kind. -/
def given? (f : Setting) (e : Value × Value) : Option Value :=
  if textOf? e.1 = some f.name then (if f.kind.admits e.2 then some e.2 else none) else none

/-- One entry of a layer sets the fields that it gives a value. -/
theorem get_applyEntry (f : Setting) (source : String) (x : Settings.Layered Settings) (e : Value × Value) :
    f.get (Settings.applyEntry source x e).1 = (f.given? e).getD (f.get x.1) := by
  obtain ⟨s, notes⟩ := x
  unfold Settings.applyEntry
  by_cases hsection : textOf? e.1 = some "liveness"
  · have hnone : f.given? e = none := by
      rw [given?, hsection, if_neg fun h => name_ne_liveness f (Option.some.inj h).symm]
    rw [hnone]
    simp only [hsection, beq_self_eq_true, ↓reduceIte, Option.getD_none]
    cases f <;> rfl
  · simp only [beq_iff_eq, hsection, ↓reduceIte]
    cases hfield : (textOf? e.1).bind ofName? with
    | none =>
      have hnone : f.given? e = none := by
        refine if_neg fun hname => ?_
        rw [hname, Option.bind_some, ofName?_eq_some_iff.mpr rfl] at hfield
        cases hfield
      rw [hnone]
      rfl
    | some g =>
      obtain ⟨name, hname, hg⟩ := Option.bind_eq_some_iff.mp hfield
      rw [ofName?_eq_some_iff.mp hg] at hname
      cases hadmits : g.kind.admits e.2 with
      | false =>
        have hnone : f.given? e = none := by
          rw [given?, hname]
          by_cases hfg : f = g
          · rw [if_pos (by rw [hfg]), hfg, hadmits]
            rfl
          · exact if_neg fun h => hfg (name_injective (Option.some.inj h)).symm
        simp [put?_eq_none hadmits, hnone]
      | true =>
        obtain ⟨s', hput, hget, hothers, -⟩ := exists_put? hadmits s
        simp only [hput]
        by_cases hfg : f = g
        · subst hfg
          simp [given?, hname, hadmits, hget]
        · have hnone : f.given? e = none := by
            rw [given?, hname]
            exact if_neg fun h => hfg (name_injective (Option.some.inj h)).symm
          rw [hothers f hfg, hnone]
          rfl

/-- A layer leaves a field with the last value that an entry gives it. -/
theorem get_applyValues (f : Setting) (source : String) (entries : List (Value × Value)) (s : Settings) :
    f.get (Settings.applyValues source entries s).1 = (entries.filterMap f.given?).getLast?.getD (f.get s) :=
  get_foldl_eq_getLast? f.get (f.get_applyEntry source) entries (s, [])

end Setting

/-! ## Lists on liveness -/

/-- A field of the settings on liveness; all of them are lists of texts. -/
inductive LivenessList where
  | disabledRules
  | pageFileStems
  | specialExportNames
  | actionsDirectories
  | routeRoots
  deriving DecidableEq, Repr

namespace LivenessList

def name : LivenessList → String
  | .disabledRules => "disabled_rules"
  | .pageFileStems => "page_file_stems"
  | .specialExportNames => "special_export_names"
  | .actionsDirectories => "actions_directories"
  | .routeRoots => "route_roots"

def get (l : LivenessList) (s : LivenessSettings) : List String :=
  match l with
  | .disabledRules => s.disabledRules
  | .pageFileStems => s.pageFileStems
  | .specialExportNames => s.specialExportNames
  | .actionsDirectories => s.actionsDirectories
  | .routeRoots => s.routeRoots

variable {l : LivenessList} {name : String} {ts : List String} {s s' : LivenessSettings}

theorem name_injective {l m : LivenessList} (h : l.name = m.name) : l = m := by
  revert h
  cases l <;> cases m <;> decide

/-- A name is that of a list, or nothing is put under it. -/
theorem put?_cases (name : String) (ts : List String) (s : LivenessSettings) :
    (∃ (l : LivenessList) (s' : LivenessSettings), name = l.name ∧ s.put? name ts = some s' ∧ l.get s' = ts ∧
      ∀ m : LivenessList, m ≠ l → m.get s' = m.get s) ∨
    ((∀ l : LivenessList, name ≠ l.name) ∧ s.put? name ts = none) := by
  unfold LivenessSettings.put?
  split
  · exact Or.inl ⟨.disabledRules, _, rfl, rfl, rfl, fun m hm => by cases m <;> simp_all [get]⟩
  · exact Or.inl ⟨.pageFileStems, _, rfl, rfl, rfl, fun m hm => by cases m <;> simp_all [get]⟩
  · exact Or.inl ⟨.specialExportNames, _, rfl, rfl, rfl, fun m hm => by cases m <;> simp_all [get]⟩
  · exact Or.inl ⟨.actionsDirectories, _, rfl, rfl, rfl, fun m hm => by cases m <;> simp_all [get]⟩
  · exact Or.inl ⟨.routeRoots, _, rfl, rfl, rfl, fun m hm => by cases m <;> simp_all [get]⟩
  · refine Or.inr ⟨fun l => ?_, rfl⟩
    cases l <;> assumption

/-- The texts that an entry gives a list: those of its value, if the key is the list's name and the value has texts. -/
def given? (l : LivenessList) (e : Value × Value) : Option (List String) :=
  if textOf? e.1 = some l.name then textsOf? e.2 else none

/-- One entry of the section sets the lists that it gives texts. -/
theorem get_applyLivenessEntry (l : LivenessList) (source : String) (x : Settings.Layered LivenessSettings)
    (e : Value × Value) : l.get (Settings.applyLivenessEntry source x e).1 = (l.given? e).getD (l.get x.1) := by
  obtain ⟨s, notes⟩ := x
  unfold Settings.applyLivenessEntry
  cases hkey : textOf? e.1 with
  | none => simp [given?, hkey]
  | some name =>
    have hshown : e.1.keyText = name := by rw [textOf?_eq_some_iff.mp hkey]; rfl
    simp only [Option.bind_some, hshown]
    obtain ⟨m, s₀, rfl, hput, -, -⟩ | ⟨hunknown, hput⟩ := put?_cases name [] s
    · simp only [hput]
      cases hts : textsOf? e.2 with
      | none => simp [given?, hts]
      | some ts =>
        obtain ⟨m', s', hname, hput', hget, hothers⟩ | ⟨hunknown, -⟩ := put?_cases m.name ts s
        · cases name_injective hname
          simp only [Option.bind_some, hput']
          by_cases hlm : l = m
          · subst hlm
            simp [given?, hkey, hts, hget]
          · have hnone : l.given? e = none := by
              rw [given?, hkey]
              exact if_neg fun h => hlm (name_injective (Option.some.inj h)).symm
            rw [hothers l hlm, hnone]
            rfl
        · exact absurd rfl (hunknown m)
    · have hnone : l.given? e = none := by
        rw [given?, hkey]
        exact if_neg fun h => hunknown l (Option.some.inj h)
      simp only [hput, hnone]
      rfl

/-- All that a section on liveness gives a list. -/
def offers (l : LivenessList) : Value → List (List String)
  | .map entries => entries.filterMap l.given?
  | _ => []

/-- The texts that a section on liveness gives a list. -/
def inSection? (l : LivenessList) (v : Value) : Option (List String) :=
  (l.offers v).getLast?

theorem get_applyLiveness (l : LivenessList) (source : String) (v : Value) (s : LivenessSettings) :
    l.get (Settings.applyLiveness source v s).1 = (l.inSection? v).getD (l.get s) := by
  cases v with
  | map entries => exact get_foldl_eq_getLast? l.get (l.get_applyLivenessEntry source) entries (s, [])
  | _ => rfl

/-- The texts that an entry of a layer gives a list. -/
def givenBelow? (l : LivenessList) (e : Value × Value) : Option (List String) :=
  if textOf? e.1 = some "liveness" then l.inSection? e.2 else none

theorem get_applyEntry (l : LivenessList) (source : String) (x : Settings.Layered Settings) (e : Value × Value) :
    l.get (Settings.applyEntry source x e).1.liveness = (l.givenBelow? e).getD (l.get x.1.liveness) := by
  obtain ⟨s, notes⟩ := x
  unfold Settings.applyEntry givenBelow?
  by_cases hsection : textOf? e.1 = some "liveness"
  · simp only [hsection, beq_self_eq_true, ↓reduceIte]
    exact l.get_applyLiveness source e.2 s.liveness
  · simp only [beq_iff_eq, hsection, ↓reduceIte, Option.getD_none]
    cases (textOf? e.1).bind Setting.ofName? with
    | none => rfl
    | some f =>
      cases hadmits : f.kind.admits e.2 with
      | false => simp [Setting.put?_eq_none hadmits]
      | true =>
        obtain ⟨s', hput, -, -, hliveness⟩ := Setting.exists_put? hadmits s
        simp only [hput, hliveness]

theorem get_applyValues (l : LivenessList) (source : String) (entries : List (Value × Value)) (s : Settings) :
    l.get (Settings.applyValues source entries s).1.liveness =
      (entries.filterMap l.givenBelow?).getLast?.getD (l.get s.liveness) :=
  get_foldl_eq_getLast? (fun s : Settings => l.get s.liveness) (l.get_applyEntry source) entries (s, [])

end LivenessList

/-! ## Each layer by field -/

section Layers

variable {f : Setting} {l : LivenessList} {entries : List (Value × Value)} {environment : List (String × String)}

/-- The value of a field in the settings file, if there is one of its kind. -/
def Setting.fromFile? (f : Setting) (entries : List (Value × Value)) : Option Value :=
  ((Value.map entries).field? f.name).filter f.kind.admits

/-- The value of a field in the environment, if its variable is set and what it stands for is of the field's kind. -/
def Setting.fromEnvironment? (f : Setting) (environment : List (String × String)) : Option Value :=
  ((environment.lookup f.variableName).map (Settings.variableValue f.kind)).filter f.kind.admits

/-- A list on liveness in the settings file, if there is one of texts. -/
def LivenessList.fromFile? (l : LivenessList) (entries : List (Value × Value)) : Option (List String) :=
  (((Value.map entries).field? "liveness").bind (·.field? l.name)).bind textsOf?

theorem Setting.filterMap_given? (h : (textKeys entries).Nodup) :
    entries.filterMap f.given? = (f.fromFile? entries).toList := by
  have hrun := Value.filterMap_of_textKeys h (Option.guard fun v => f.kind.admits v) f.name
  rwa [Option.bind_guard] at hrun

theorem LivenessList.offers_eq {v : Value} (h : v.DistinctKeys) :
    l.offers v = ((v.field? l.name).bind textsOf?).toList := by
  cases v with
  | map entries => exact Value.filterMap_of_textKeys (h entries rfl) textsOf? l.name
  | _ => rfl

theorem LivenessList.inSection?_eq {v : Value} (h : v.DistinctKeys) :
    l.inSection? v = (v.field? l.name).bind textsOf? := by
  rw [inSection?, offers_eq h]
  cases (v.field? l.name).bind textsOf? <;> rfl

theorem LivenessList.filterMap_givenBelow? (h : (textKeys entries).Nodup) (hvalues : ∀ e ∈ entries, e.2.DistinctKeys) :
    entries.filterMap l.givenBelow? = (l.fromFile? entries).toList := by
  have hrun : entries.filterMap l.givenBelow? = (((Value.map entries).field? "liveness").bind l.inSection?).toList :=
    Value.filterMap_of_textKeys h l.inSection? "liveness"
  rw [hrun, fromFile?, Option.bind_assoc]
  cases hsection : (Value.map entries).field? "liveness" with
  | none => rfl
  | some v =>
    obtain ⟨e, he, rfl⟩ := Option.map_eq_some_iff.mp hsection
    rw [Option.bind_some, Option.bind_some, inSection?_eq (hvalues e (List.mem_of_find?_eq_some he))]

theorem Setting.filterMap_all {β : Type} (f : Setting) (x : Option β) :
    all.filterMap (fun g => if g = f then x else none) = x.toList := by
  cases f <;> cases x <;> rfl

/-- The environment gives each field the value of its variable. -/
theorem Setting.filterMap_given?_environment :
    (Settings.environmentValues environment).filterMap f.given? = (f.fromEnvironment? environment).toList := by
  rw [Settings.environmentValues, List.filterMap_filterMap, ← f.filterMap_all]
  congr 1
  funext g
  by_cases hgf : g = f
  · subst hgf
    rw [if_pos rfl, fromEnvironment?]
    cases environment.lookup g.variableName with
    | none => rfl
    | some raw =>
      cases hadmits : g.kind.admits (Settings.variableValue g.kind raw) <;> simp [given?, textOf?, hadmits, Option.filter]
  · rw [if_neg hgf]
    cases environment.lookup g.variableName with
    | none => rfl
    | some raw => simpa [given?, textOf?] using fun h => absurd (name_injective h) hgf

theorem LivenessList.filterMap_givenBelow?_environment :
    (Settings.environmentValues environment).filterMap l.givenBelow? = [] := by
  rw [List.filterMap_eq_nil_iff]
  intro e he
  obtain ⟨f, -, hvalue⟩ := List.mem_filterMap.mp he
  obtain ⟨raw, -, rfl⟩ := Option.map_eq_some_iff.mp hvalue
  exact if_neg fun h => f.name_ne_liveness (Option.some.inj h)

end Layers

/-! ## Least values -/

namespace Setting

/-- A value raised to the least value of a field. -/
def raised (f : Setting) (v : Value) : Value :=
  match f.minimum?, v with
  | some least, .int n => .int (max least n)
  | _, v => v

/-- Only integers have a least value. -/
theorem exists_int_of_minimum? {f : Setting} {least : Int} (h : f.minimum? = some least) (s : Settings) :
    f.kind = .int ∧ ∃ n, f.get s = .int n := by
  cases f <;> simp_all [minimum?, kind, get]

/-- Raising a field changes no other. -/
theorem raiseField_spec (g : Setting) (x : Settings.Layered Settings) :
    g.get (Settings.raiseField x g).1 = g.raised (g.get x.1) ∧
      (∀ f, f ≠ g → f.get (Settings.raiseField x g).1 = f.get x.1) ∧
      (Settings.raiseField x g).1.liveness = x.1.liveness := by
  obtain ⟨s, notes⟩ := x
  unfold Settings.raiseField raised
  cases hleast : g.minimum? with
  | none => exact ⟨rfl, fun _ _ => rfl, rfl⟩
  | some least =>
    obtain ⟨hkind, n, hn⟩ := exists_int_of_minimum? hleast s
    simp only [hn]
    by_cases hlow : n < least
    · have hadmits : g.kind.admits (.int least) = true := by rw [hkind]; rfl
      obtain ⟨s', hput, hget, hothers, hliveness⟩ := exists_put? hadmits s
      simp only [hlow, ↓reduceIte, hput, Option.getD_some]
      exact ⟨by rw [hget, max_eq_left hlow.le], hothers, hliveness⟩
    · simp only [hlow, ↓reduceIte]
      exact ⟨by rw [hn, max_eq_right (not_lt.mp hlow)], fun _ _ => trivial, trivial⟩

theorem get_foldl_raiseField (f : Setting) {fields : List Setting} (h : fields.Nodup) (x : Settings.Layered Settings) :
    f.get (fields.foldl Settings.raiseField x).1 = if f ∈ fields then f.raised (f.get x.1) else f.get x.1 := by
  induction fields generalizing x with
  | nil => rfl
  | cons g fields ih =>
    obtain ⟨hnew, hfields⟩ := List.nodup_cons.mp h
    obtain ⟨hget, hothers, -⟩ := g.raiseField_spec x
    rw [List.foldl_cons, ih hfields]
    by_cases hfg : f = g
    · subst hfg
      rw [if_neg hnew, if_pos List.mem_cons_self, hget]
    · rw [hothers f hfg]
      simp only [List.mem_cons, hfg, false_or]

theorem liveness_foldl_raiseField (fields : List Setting) (x : Settings.Layered Settings) :
    (fields.foldl Settings.raiseField x).1.liveness = x.1.liveness := by
  induction fields generalizing x with
  | nil => rfl
  | cons g fields ih => rw [List.foldl_cons, ih, (g.raiseField_spec x).2.2]

end Setting

/-! ## All layers -/

namespace Settings

/-- The value that a field must have: that of its variable, else that of the file, else the default, and not below the
least value. A value of another kind is as good as none. -/
def fieldValue (environment : List (String × String)) (entries : List (Value × Value)) (f : Setting) : Value :=
  f.raised (((f.fromEnvironment? environment).or (f.fromFile? entries)).getD (f.get {}))

/-- Settings as the layers lay them out. -/
structure LaidOut (environment : List (String × String)) (entries : List (Value × Value)) (s : Settings) : Prop where
  field : ∀ f : Setting, f.get s = fieldValue environment entries f
  liveness : ∀ l : LivenessList, l.get s.liveness = (l.fromFile? entries).getD []

/-- The file that the settings of a project are read from: the given one, or the one in the project. -/
def sourcePath (root : String) (file? : Option String) : String :=
  (file?.filter fun path => !path.isEmpty).getD (Path.join root fileName)

/-- The entries that the settings file of a project supplies; none if no file is given and the project has none. -/
def Supplies (d : Disk) (root : String) (file? : Option String) (entries : List (Value × Value)) : Prop :=
  if d.isFile (sourcePath root file?) then entriesAt d (sourcePath root file?) = .ok entries
  else (file?.filter fun path => !path.isEmpty) = none ∧ entries = []

/-- An entry that gives nothing: its key is no field's name, or its value is not of the field's kind. -/
structure Idle (e : Value × Value) : Prop where
  field : ∀ f : Setting, textOf? e.1 = some f.name → f.kind.admits e.2 = false
  liveness : textOf? e.1 = some "liveness" → ∀ entries, e.2 ≠ .map entries

/-- An entry of the section on liveness that gives nothing. -/
def IdleBelow (e : Value × Value) : Prop :=
  ∀ l : LivenessList, textOf? e.1 = some l.name → ∀ ts, e.2 ≠ .texts ts

/-- Changes of a document that must not change the settings: another order of its keys or of those in a mapping that is
one of its values, and entries that give nothing. -/
inductive Immaterial : List (Value × Value) → List (Value × Value) → Prop
  | order {entries entries' : List (Value × Value)} (perm : entries.Perm entries') : Immaterial entries entries'
  | orderBelow {before after below below' : List (Value × Value)} {key : Value} (perm : below.Perm below') :
      Immaterial (before ++ (key, .map below) :: after) (before ++ (key, .map below') :: after)
  | add {before after : List (Value × Value)} {e : Value × Value} (idle : Idle e) :
      Immaterial (before ++ after) (before ++ e :: after)
  | addBelow {before after first last : List (Value × Value)} {key : Value} {e : Value × Value} (idle : IdleBelow e) :
      Immaterial (before ++ (key, .map (first ++ last)) :: after) (before ++ (key, .map (first ++ e :: last)) :: after)

section Load

variable {d d' : Disk} {root root' : String} {file? file?' : Option String} {s s' : Settings}
  {environment environment' : List (String × String)} {entries entries' : List (Value × Value)}

theorem texts_injective {ts ts' : List String} (h : Value.texts ts = Value.texts ts') : ts = ts' := by
  have hsome := textsOf?_eq_some_iff.mpr h
  rw [textsOf?_eq_some_iff.mpr rfl] at hsome
  exact Option.some.inj hsome

/-- Settings are the values of their fields. -/
theorem eq_of_get (hfield : ∀ f : Setting, f.get s = f.get s')
    (hlist : ∀ l : LivenessList, l.get s.liveness = l.get s'.liveness) : s = s' := by
  have hfolders : s.excludedFolders = s'.excludedFolders := texts_injective (hfield .excludedFolders)
  have hdebounce : s.debounceDelayMs = s'.debounceDelayMs := Value.int.inj (hfield .debounceDelayMs)
  have hinterval : s.pollingIntervalSeconds = s'.pollingIntervalSeconds :=
    Value.int.inj (hfield .pollingIntervalSeconds)
  have hpolling : s.enablePolling = s'.enablePolling := Value.bool.inj (hfield .enablePolling)
  have houtput : s.outputDir = s'.outputDir := Value.text.inj (hfield .outputDir)
  have hfiles : s.maxFiles = s'.maxFiles := Value.int.inj (hfield .maxFiles)
  have hsize : s.maxFileSizeBytes = s'.maxFileSizeBytes := Value.int.inj (hfield .maxFileSizeBytes)
  have hliveness : s.liveness = s'.liveness := by
    have hrules := hlist .disabledRules
    have hstems := hlist .pageFileStems
    have hnames := hlist .specialExportNames
    have hdirectories := hlist .actionsDirectories
    have hroots := hlist .routeRoots
    cases hs : s.liveness
    cases hs' : s'.liveness
    simp_all [LivenessList.get]
  cases s
  cases s'
  simp_all

theorem LaidOut.unique (h : LaidOut environment entries s) (h' : LaidOut environment entries s') : s = s' :=
  eq_of_get (fun f => (h.field f).trans (h'.field f).symm) fun l => (h.liveness l).trans (h'.liveness l).symm

theorem entriesOf_eq_ok {path : String} {text : Yaml.Source} (h : entriesOf path text = .ok entries) :
    entries = [] ∨ Yaml.read text = .ok (.map entries) := by
  unfold entriesOf at h
  cases hread : Yaml.read text with
  | error fault =>
    rw [hread] at h
    cases fault <;> cases h
  | ok v =>
    rw [hread] at h
    cases v with
    | null =>
      cases h
      exact Or.inl rfl
    | map found =>
      cases h
      exact Or.inr rfl
    | _ => cases h

theorem distinctKeys_of_entriesAt {path : String} (h : entriesAt d path = .ok entries) :
    (textKeys entries).Nodup ∧ ∀ e ∈ entries, e.2.DistinctKeys := by
  unfold entriesAt at h
  cases hread : d.read path with
  | error fault => simp [hread] at h
  | ok bytes =>
    rw [hread] at h
    rcases entriesOf_eq_ok h with rfl | hmap
    · exact ⟨List.nodup_nil, fun e he => absurd he List.not_mem_nil⟩
    · exact Yaml.read_map hmap

theorem Supplies.distinctKeys (h : Supplies d root file? entries) :
    (textKeys entries).Nodup ∧ ∀ e ∈ entries, e.2.DistinctKeys := by
  unfold Supplies at h
  split at h
  · exact distinctKeys_of_entriesAt h
  · rw [h.2]
    exact ⟨List.nodup_nil, fun e he => absurd he List.not_mem_nil⟩

theorem Supplies.applyFile (h : Supplies d root file? entries) (s : Settings) :
    ∃ source, applyFile d root (file?.filter fun path => !path.isEmpty) s = .ok (applyValues source entries s) := by
  unfold Supplies at h
  unfold Settings.applyFile
  split at h
  · rename_i hfile
    refine ⟨sourcePath root file?, ?_⟩
    rw [sourcePath] at h hfile
    dsimp only
    rw [if_pos hfile, h]
    rfl
  · rename_i hfile
    obtain ⟨hgiven, rfl⟩ := h
    refine ⟨"", ?_⟩
    rw [sourcePath, hgiven] at hfile
    dsimp only
    rw [hgiven, if_neg hfile]
    rfl

/-- The layers in their order, when the file can be read. -/
theorem Supplies.load_eq (h : Supplies d root file? entries) (environment : List (String × String)) :
    ∃ source notes, load d root file? environment = .ok ((raise (applyValues "environment"
      (environmentValues environment) (applyValues source entries {}).1).1).1, notes) := by
  obtain ⟨source, hfile⟩ := h.applyFile {}
  unfold Settings.load
  simp only [hfile, bind, Except.bind, pure, Except.pure]
  exact ⟨source, _, rfl⟩

/-- **Loading lays out the layers.** -/
theorem Supplies.laidOut (h : Supplies d root file? entries) (environment : List (String × String)) :
    ∃ s notes, load d root file? environment = .ok (s, notes) ∧ LaidOut environment entries s := by
  obtain ⟨source, notes, hload⟩ := h.load_eq environment
  obtain ⟨hkeys, hvalues⟩ := h.distinctKeys
  refine ⟨_, notes, hload, fun f => ?_, fun l => ?_⟩
  · rw [raise, f.get_foldl_raiseField Setting.nodup_all, if_pos f.mem_all, f.get_applyValues, f.get_applyValues,
      Setting.filterMap_given?_environment, Setting.filterMap_given? hkeys, fieldValue]
    cases f.fromEnvironment? environment <;> cases f.fromFile? entries <;> rfl
  · rw [raise, Setting.liveness_foldl_raiseField, l.get_applyValues, l.get_applyValues,
      LivenessList.filterMap_givenBelow?_environment, LivenessList.filterMap_givenBelow? hkeys hvalues]
    cases l.fromFile? entries with
    | none => cases l <;> rfl
    | some ts => rfl

/-! ## Immaterial changes -/

/-- All that an entry of a layer gives a list. -/
def offersBelow (l : LivenessList) (e : Value × Value) : List (List String) :=
  if textOf? e.1 = some "liveness" then l.offers e.2 else []

theorem flatMap_offersBelow (hkeys : (textKeys entries).Nodup) (hvalues : ∀ e ∈ entries, e.2.DistinctKeys)
    (l : LivenessList) : entries.flatMap (offersBelow l) = (l.fromFile? entries).toList := by
  rw [← LivenessList.filterMap_givenBelow? hkeys hvalues, List.filterMap_eq_flatMap_toList]
  refine List.flatMap_congr fun e he => ?_
  unfold offersBelow LivenessList.givenBelow?
  split
  · rw [LivenessList.offers_eq (hvalues e he), LivenessList.inSection?_eq (hvalues e he)]
  · rfl

theorem given?_map (f : Setting) (key : Value) (below : List (Value × Value)) : f.given? (key, .map below) = none := by
  cases f <;> simp [Setting.given?, Setting.kind, SettingKind.admits]

theorem Idle.given? {e : Value × Value} (h : Idle e) (f : Setting) : f.given? e = none := by
  rw [Setting.given?, ite_eq_right_iff]
  intro hname
  simp [h.field f hname]

theorem Idle.offersBelow {e : Value × Value} (h : Idle e) (l : LivenessList) : offersBelow l e = [] := by
  rw [Settings.offersBelow, ite_eq_right_iff]
  intro hname
  cases hvalue : e.2 with
  | map below => exact absurd hvalue (h.liveness hname below)
  | _ => rfl

theorem IdleBelow.given? {e : Value × Value} (h : IdleBelow e) (l : LivenessList) : l.given? e = none := by
  rw [LivenessList.given?, ite_eq_right_iff]
  intro hname
  rw [Option.eq_none_iff_forall_ne_some]
  exact fun ts hts => h l hname ts (textsOf?_eq_some_iff.mp hts)

theorem Immaterial.given_perm (h : Immaterial entries entries') (f : Setting) :
    (entries.filterMap f.given?).Perm (entries'.filterMap f.given?) := by
  cases h with
  | order perm => exact perm.filterMap f.given?
  | orderBelow perm => simp [List.filterMap_append, given?_map]
  | add idle => simp [List.filterMap_append, idle.given?]
  | addBelow idle => simp [List.filterMap_append, given?_map]

/-- A mapping in the place of another that offers the same lists. -/
theorem flatMap_offersBelow_replace {l : LivenessList} {below below' : List (Value × Value)}
    (h : (l.offers (.map below)).Perm (l.offers (.map below'))) (before after : List (Value × Value)) (key : Value) :
    ((before ++ (key, .map below) :: after).flatMap (offersBelow l)).Perm
      ((before ++ (key, .map below') :: after).flatMap (offersBelow l)) := by
  have hentry : (offersBelow l (key, .map below)).Perm (offersBelow l (key, .map below')) := by
    unfold offersBelow
    split
    · exact h
    · exact .refl _
  simp only [List.flatMap_append, List.flatMap_cons]
  exact (hentry.append_right _).append_left _

theorem Immaterial.offersBelow_perm (h : Immaterial entries entries') (l : LivenessList) :
    (entries.flatMap (offersBelow l)).Perm (entries'.flatMap (offersBelow l)) := by
  cases h with
  | order perm => exact perm.flatMap_right _
  | orderBelow perm => exact flatMap_offersBelow_replace (perm.filterMap l.given?) _ _ _
  | add idle => simp [List.flatMap_append, idle.offersBelow]
  | addBelow idle =>
    apply flatMap_offersBelow_replace
    simp [LivenessList.offers, List.filterMap_append, idle.given?]

theorem eq_of_toList_perm {β : Type} {x y : Option β} (h : x.toList.Perm y.toList) : x = y := by
  cases x <;> cases y <;> simp_all

/-- What one change keeps up to order, any number of them keeps. -/
theorem perm_of_changes {β : Type} {run : List (Value × Value) → List β}
    (hstep : ∀ {entries entries'}, Immaterial entries entries' → (run entries).Perm (run entries'))
    (h : Relation.EqvGen Immaterial entries entries') : (run entries).Perm (run entries') := by
  induction h with
  | rel _ _ h => exact hstep h
  | refl _ => exact .refl _
  | symm _ _ _ ih => exact ih.symm
  | trans _ _ _ _ _ ih ih' => exact ih.trans ih'

/-- Immaterial changes keep what the file has for each field. -/
theorem fromFile?_eq_of_changes (h : Relation.EqvGen Immaterial entries entries')
    (hsupplied : Supplies d root file? entries) (hsupplied' : Supplies d' root' file?' entries') :
    (∀ f : Setting, f.fromFile? entries = f.fromFile? entries') ∧
      ∀ l : LivenessList, l.fromFile? entries = l.fromFile? entries' := by
  obtain ⟨hkeys, hvalues⟩ := hsupplied.distinctKeys
  obtain ⟨hkeys', hvalues'⟩ := hsupplied'.distinctKeys
  constructor
  · intro f
    have hperm := perm_of_changes (fun hchange => hchange.given_perm f) h
    rw [Setting.filterMap_given? hkeys, Setting.filterMap_given? hkeys'] at hperm
    exact eq_of_toList_perm hperm
  · intro l
    have hperm := perm_of_changes (fun hchange => hchange.offersBelow_perm l) h
    rw [flatMap_offersBelow hkeys hvalues, flatMap_offersBelow hkeys' hvalues'] at hperm
    exact eq_of_toList_perm hperm

end Load

/-- A file with a field of another kind, a field below its least value, an unknown one, and a list on liveness. -/
def layeredText : String :=
  "max_files: yes\ncolour: 1\ndebounce_delay_ms: 9\nliveness:\n  route_roots: [app]\n"

def layeredDisk : Disk :=
  ⟨.directory [("proj", .directory [(fileName, .file layeredText.toUTF8 0)])], "/proj"⟩

/-- A variable of the right kind, one of another kind, and one that names no field. -/
def layeredEnvironment : List (String × String) :=
  [("DEPENDENCY_TRACKER_ENABLE_POLLING", " On "), ("DEPENDENCY_TRACKER_DEBOUNCE_DELAY_MS", "soon"),
    ("DEPENDENCY_TRACKER_LIVENESS", "x")]

end Settings

end ExportAudit
