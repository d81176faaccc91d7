import Mathlib
import ExportAudit.Command
import ExportAudit.Proofs.DocumentFaults
import ExportAudit.Proofs.FileBlocks
import ExportAudit.Proofs.SettingsLayers

/-!
# Settings files that cannot be used

A settings file that cannot be used is refused with a message, unless it is not text or a scalar in it has no value:
then there is no message, and the fault goes from the file to the settings and on to the command
(`answered_unless_illegible`).

Each layer keeps what the one below says (`answered_entriesAt_iff`, `answered_load_iff`, `start_eq_ok_iff`), so what
counts is the content of the file. That content whose scalars all have values is fit comes from the sources of faults in
`read_fault`. Content that is not text is never fit, and it is refused with a message only if a fault of form is met
before the block that is not text (`malformed_of_not_text`).
-/

namespace ExportAudit.Settings

/-! ## Answers -/

/-- The settings or a text for the user. -/
def Answered {α : Type} (x : Except SettingsError α) : Prop :=
  (∃ a, x = .ok a) ∨ ∃ e message, x = .error e ∧ e.message? = some message

/-- Content whose reading has no fault but one of form. -/
def Legible (content : ByteArray) : Prop :=
  ∀ e, Yaml.read (.ofBytes content) = .error e → e.isMalformed = true

/-- Content that is text, without a number of an escape or of a version that is too large and without a scalar that has no
value. -/
def Sound (content : ByteArray) : Prop :=
  ∃ text, Text.decode? content = some text ∧
    (∀ fault, (Yaml.Tokens.scan (.ofBytes content)).ends ≠ some (.scalar fault)) ∧
    ∀ root n scalar e, Yaml.Node.ofTokens (Yaml.Tokens.scan (.ofBytes content)) = .ok (some root) →
      root.flatten.Holds n → n.scalarText = .ok scalar → Yaml.scalarValue n.tag scalar = .error e → e.isMalformed = true

section Answers

variable {α β : Type} {x : Except SettingsError α} {d : Disk} {path root : String} {file? : Option String}

theorem answered_ok (a : α) : Answered (.ok a : Except SettingsError α) :=
  .inl ⟨a, rfl⟩

theorem answered_error_iff {e : SettingsError} :
    Answered (.error e : Except SettingsError α) ↔ ∃ message, e.message? = some message := by
  constructor
  · rintro (⟨a, h⟩ | ⟨e', message, h, hmessage⟩)
    · cases h
    · cases h
      exact ⟨message, hmessage⟩
  · rintro ⟨message, h⟩
    exact .inr ⟨e, message, rfl, h⟩

/-- What is done with an answer does not change whether there is one. -/
theorem answered_bind_iff {f : α → Except SettingsError β} (h : ∀ a, ∃ b, f a = .ok b) :
    Answered (x >>= f) ↔ Answered x := by
  cases x with
  | error e => exact (answered_error_iff (α := β)).trans answered_error_iff.symm
  | ok a => exact iff_of_true (.inl (h a)) (answered_ok a)

theorem answered_map_iff {f : α → β} : Answered (x.map f) ↔ Answered x := by
  cases x with
  | error e => exact (answered_error_iff (α := β)).trans answered_error_iff.symm
  | ok a => exact iff_of_true (answered_ok (f a)) (answered_ok a)

theorem answered_entriesOf_iff {text : Yaml.Source} :
    Answered (entriesOf path text) ↔ ∀ e, Yaml.read text = .error e → e.isMalformed = true := by
  unfold entriesOf
  cases hread : Yaml.read text with
  | error fault =>
    cases fault <;> simp [answered_error_iff, SettingsError.message?, Yaml.Fault.isMalformed]
  | ok v =>
    cases v <;> simp [answered_ok, answered_error_iff, SettingsError.message?]

theorem answered_entriesAt_iff :
    Answered (entriesAt d path) ↔ ∀ content, d.read path = .ok content → Legible content := by
  unfold entriesAt
  cases hread : d.read path with
  | error fault => simp [answered_error_iff, SettingsError.message?]
  | ok content =>
    simp only [Except.ok.injEq, forall_eq', Legible]
    exact answered_entriesOf_iff

theorem isFile_iff : d.isFile path = true ↔ ∃ content, d.read path = .ok content := by
  unfold Disk.isFile Disk.read
  cases h : d.resolve true path with
  | «at» place node => cases node <;> simp
  | fault f => simp

theorem answered_applyFile_iff {given : Option String} {settings : Settings} :
    Answered (applyFile d root given settings) ↔
      ∀ content, d.read (given.getD (Path.join root fileName)) = .ok content → Legible content := by
  unfold applyFile
  dsimp only
  by_cases hfile : d.isFile (given.getD (Path.join root fileName)) = true
  · rw [if_pos hfile, answered_map_iff]
    exact answered_entriesAt_iff
  · rw [if_neg hfile]
    refine iff_of_true ?_ fun content hcontent => absurd (isFile_iff.mpr ⟨content, hcontent⟩) hfile
    cases given with
    | none => exact answered_ok _
    | some path => exact answered_error_iff.mpr ⟨_, rfl⟩

theorem answered_load_iff {environment : List (String × String)} :
    Answered (load d root file? environment) ↔
      ∀ content, d.read (sourcePath root file?) = .ok content → Legible content :=
  (answered_bind_iff fun _ => ⟨_, rfl⟩).trans answered_applyFile_iff

end Answers

/-! ## The command -/

section Start

variable {w : World} {o : Command.Options}

/-- The first run ends with an exit code, unless the command goes on to watch. -/
theorem watch_of_exit_analyzeOnce {root : String} {settings : Settings}
    (h : (Command.analyzeOnce w o root settings).exit = none) : o.watch = true := by
  unfold Command.analyzeOnce at h
  dsimp only at h
  split at h
  · split at h
    · assumption
    · cases h
  · cases h

theorem withOptions_eq_ok_iff :
    (∃ started, Command.withOptions w o = .ok started ∧ (started.exit = none → o.watch = true)) ↔
      (w.disk.isDirectory (w.disk.absolute o.path) = true →
        Answered (load w.disk (w.disk.absolute o.path) o.config w.environment)) := by
  unfold Command.withOptions
  dsimp only
  by_cases hdirectory : w.disk.isDirectory (w.disk.absolute o.path) = true
  · simp only [hdirectory, Bool.not_true, Bool.false_eq_true, ↓reduceIte, forall_const]
    cases hload : load w.disk (w.disk.absolute o.path) o.config w.environment with
    | error e =>
      rw [answered_error_iff]
      cases hmessage : e.message? with
      | none => simp [hmessage]
      | some message => simp [hmessage]
    | ok layered =>
      refine iff_of_true ⟨_, rfl, watch_of_exit_analyzeOnce⟩ (answered_ok layered)
  · simp [hdirectory]

theorem start_eq_ok_iff {arguments : List String} :
    (∃ started, Command.start w arguments = .ok started ∧
      (started.exit = none → ∃ o, Command.Options.read arguments = .options o ∧ o.watch = true)) ↔
    ∀ o, Command.Options.read arguments = .options o → w.disk.isDirectory (w.disk.absolute o.path) = true →
      ∀ content, w.disk.read (sourcePath (w.disk.absolute o.path) o.config) = .ok content → Legible content := by
  unfold Command.start
  cases hoptions : Command.Options.read arguments with
  | help => simp
  | misuse => simp
  | options o =>
    simp only [Command.Reading.options.injEq, exists_eq_left', forall_eq']
    rw [withOptions_eq_ok_iff, answered_load_iff]

end Start

/-! ## Content -/

section Content

variable {content : ByteArray}

theorem legible_of_sound (h : Sound content) : Legible content := by
  obtain ⟨text, hdecode, htokens, hscalars⟩ := h
  intro e he
  obtain hform | hends | ⟨root, n, scalar, hroot, hn, hscalar, hvalue⟩ := Yaml.read_fault he
  · exact hform
  · obtain hform | hbehind | rfl | ⟨count, rfl⟩ := Yaml.Tokens.scan_fault hends
    · exact hform
    · obtain ⟨problem, rfl⟩ := Yaml.Source.ends_of_decode? hdecode hbehind
      rfl
    · exact absurd hends (htokens _)
    · exact absurd hends (htokens _)
  · exact hscalars root n scalar e hroot hn hscalar hvalue

/-- Content that is not text has no value, so a fault of form is all that it can be legible by. -/
theorem malformed_of_not_text (h : Text.decode? content = none) (hlegible : Legible content) :
    ∃ problem, Yaml.read (.ofBytes content) = .error (.malformed problem) := by
  cases hread : Yaml.read (.ofBytes content) with
  | ok v => exact absurd (Yaml.ends_of_read hread) (Yaml.Source.ends_ne_none h)
  | error e =>
    cases e with
    | malformed problem => exact ⟨problem, rfl⟩
    | _ => cases hlegible _ hread

theorem not_legible_of_small (h : Text.decode? content = none) (hsize : content.size ≤ 8192) : ¬ Legible content := by
  have hread : Yaml.read (.ofBytes content) = .error .notText := by
    rw [Yaml.Source.ofBytes_of_small h hsize]
    rfl
  exact fun hlegible => nomatch hlegible _ hread

end Content

/-- **Which settings files fail without a message.** Reading the file, loading the settings and starting the command
give a result or a message whatever the disk holds, unless there is a file that is not legible. A file is legible if it
is text and all its scalars have values. A file that is not text is never accepted; it is legible only by a fault of form
in what is read before, and not at all if it is short. -/
theorem answered_unless_illegible (d : Disk) (path root : String) (file? : Option String)
    (environment : List (String × String)) (w : World) (arguments : List String) :
    (Answered (entriesAt d path) ↔ ∀ content, d.read path = .ok content → Legible content) ∧
    (Answered (load d root file? environment) ↔
      ∀ content, d.read (sourcePath root file?) = .ok content → Legible content) ∧
    ((∃ started, Command.start w arguments = .ok started ∧
        (started.exit = none → ∃ o, Command.Options.read arguments = .options o ∧ o.watch = true)) ↔
      ∀ o, Command.Options.read arguments = .options o → w.disk.isDirectory (w.disk.absolute o.path) = true →
        ∀ content, w.disk.read (sourcePath (w.disk.absolute o.path) o.config) = .ok content → Legible content) ∧
    (∀ content, Sound content → Legible content) ∧
    (∀ content text, Text.decode? content = some text → (∀ c ∈ Text.unixLines text, Yaml.isAllowed c = true) →
      (Yaml.Source.ofBytes content).text.toList = Text.unixLines text ∧ (Yaml.Source.ofBytes content).ends = none) ∧
    ∀ content, Text.decode? content = none →
      (content.size ≤ 8192 → ¬ Legible content) ∧
      (Legible content → ∃ problem, Yaml.read (.ofBytes content) = .error (.malformed problem)) :=
  ⟨answered_entriesAt_iff, answered_load_iff, start_eq_ok_iff, fun _ => legible_of_sound,
    fun _ _ => Yaml.Source.ofBytes_of_allowed,
    fun _ h => ⟨not_legible_of_small h, malformed_of_not_text h⟩⟩

/-- A project whose settings file holds a date in the thirteenth month. -/
def datedDisk : Disk :=
  ⟨.directory [("proj", .directory [(fileName, .file "output_dir: 2024-13-45\n".toUTF8 0)])], "/proj"⟩

/-- The date has no value, and the fault goes through all layers without a message. -/
theorem impossible_date_has_no_message :
    entriesAt datedDisk (Path.join "/proj" fileName) = .error (.noValue (.scalar .month)) ∧
    load datedDisk "/proj" none [] = .error (.noValue (.scalar .month)) ∧
    Command.start { disk := datedDisk } [] = .error (.noValue (.scalar .month)) ∧
    (SettingsError.noValue (.scalar .month)).message? = none := by
  refine ⟨error_of_map (f := fun _ => ()) ?_, error_of_map (f := fun _ => ()) ?_,
    error_of_map (f := fun _ => ()) ?_, rfl⟩
  · decide +kernel
  · decide +kernel
  · decide +kernel

end ExportAudit.Settings
