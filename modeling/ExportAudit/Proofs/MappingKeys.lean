import Mathlib
import ExportAudit.Proofs.Failures
import ExportAudit.Settings.Layers

/-!
# Keys of mappings

A mapping that was read from a document has no text key twice (`Yaml.read_map`): an entry is put in the place of the one
with its key (`nodup_textKeys_putEntry`), and whatever stands in a mapping is itself the value of a node, so the same
holds of the mappings inside.
-/

namespace ExportAudit

open Setting (textOf?)

namespace Value

/-! ## Text keys -/

/-- The keys of entries that are texts. -/
def textKeys (entries : List (Value × Value)) : List String :=
  entries.filterMap fun e => textOf? e.1

/-- A value that, if it is a mapping, has no text key twice. -/
def DistinctKeys (v : Value) : Prop :=
  ∀ entries, v = .map entries → (textKeys entries).Nodup

section Entries

variable {key value v : Value} {name : String} {entries : List (Value × Value)}

theorem textOf?_eq_some_iff : textOf? v = some name ↔ v = .text name := by
  cases v <;> simp [textOf?]

theorem sameKey_text_iff : sameKey v (.text name) = true ↔ textOf? v = some name := by
  cases v <;> simp [sameKey, number?, textOf?]

theorem mem_textKeys : name ∈ textKeys entries ↔ ∃ e ∈ entries, textOf? e.1 = some name :=
  List.mem_filterMap

/-- Putting an entry keeps the keys, and adds its own behind them if it is new. -/
theorem map_fst_putEntry : (putEntry key value entries).map (·.1) =
    if entries.any (fun e => sameKey e.1 key) then entries.map (·.1) else entries.map (·.1) ++ [key] := by
  induction entries with
  | nil => rfl
  | cons e rest ih =>
    rw [putEntry]
    by_cases hkey : sameKey e.1 key = true
    · simp [hkey]
    · rw [if_neg hkey, List.map_cons, ih, List.any_cons]
      by_cases hrest : (rest.any fun e => sameKey e.1 key) = true
      · simp [hrest]
      · simp [hkey, hrest]

theorem textKeys_eq : textKeys entries = (entries.map (·.1)).filterMap textOf? := by
  rw [List.filterMap_map]
  rfl

theorem nodup_textKeys_putEntry (h : (textKeys entries).Nodup) : (textKeys (putEntry key value entries)).Nodup := by
  rw [textKeys_eq, map_fst_putEntry]
  split
  · rwa [← textKeys_eq]
  · rename_i hnew
    rw [List.filterMap_append, ← textKeys_eq]
    cases htext : textOf? key with
    | none => simpa [htext] using h
    | some name =>
      have habsent : name ∉ textKeys entries := by
        intro hmem
        obtain ⟨e, he, hname⟩ := mem_textKeys.mp hmem
        rw [textOf?_eq_some_iff.mp htext, List.any_eq_true] at hnew
        exact hnew ⟨e, he, sameKey_text_iff.mpr hname⟩
      simpa [htext, List.nodup_append] using ⟨h, fun a ha hname => habsent (hname ▸ ha)⟩

theorem exists_of_mem_putEntry {e : Value × Value} (h : e ∈ putEntry key value entries) :
    e.2 = value ∨ ∃ e' ∈ entries, e.2 = e'.2 := by
  induction entries with
  | nil => exact Or.inl (by rw [List.mem_singleton.mp h])
  | cons a rest ih =>
    rw [putEntry] at h
    split at h
    · rcases List.mem_cons.mp h with rfl | h
      · exact Or.inl rfl
      · exact Or.inr ⟨e, List.mem_cons_of_mem a h, rfl⟩
    · rcases List.mem_cons.mp h with rfl | h
      · exact Or.inr ⟨a, List.mem_cons_self, rfl⟩
      · exact (ih h).imp_right fun ⟨e', he', hvalue⟩ => ⟨e', List.mem_cons_of_mem a he', hvalue⟩

/-- Entries put in turn: no text key comes twice, and every value is one that was put. -/
theorem putEntries_spec (es : List (Value × Value)) {put : List (Value × Value) → Value × Value → List (Value × Value)}
    (hput : ∀ acc e, put acc e = putEntry e.1 e.2 acc) :
    (textKeys (es.foldl put [])).Nodup ∧ ∀ e ∈ es.foldl put [], ∃ e' ∈ es, e.2 = e'.2 := by
  induction es using List.reverseRecOn with
  | nil => exact ⟨List.nodup_nil, fun e he => absurd he List.not_mem_nil⟩
  | append_singleton es a ih =>
    rw [List.foldl_append, List.foldl_cons, List.foldl_nil, hput]
    refine ⟨nodup_textKeys_putEntry ih.1, fun e he => ?_⟩
    rcases exists_of_mem_putEntry he with hvalue | ⟨e', he', hvalue⟩
    · exact ⟨a, by simp, hvalue⟩
    · obtain ⟨e'', hmem, hvalue'⟩ := ih.2 e' he'
      exact ⟨e'', List.mem_append_left _ hmem, hvalue.trans hvalue'⟩

/-- Among entries with distinct text keys, what concerns one key is what the entry of that key gives. -/
theorem filterMap_of_textKeys {β : Type} (h : (textKeys entries).Nodup) (g : Value → Option β) (name : String) :
    (entries.filterMap fun e => if textOf? e.1 = some name then g e.2 else none) =
      (((Value.map entries).field? name).bind g).toList := by
  induction entries with
  | nil => rfl
  | cons e rest ih =>
    by_cases hkey : textOf? e.1 = some name
    · have hrest : (rest.filterMap fun e => if textOf? e.1 = some name then g e.2 else none) = [] := by
        refine List.filterMap_eq_nil_iff.mpr fun e' he' => if_neg fun hkey' => ?_
        simp only [textKeys, List.filterMap_cons, hkey, List.nodup_cons] at h
        exact h.1 (mem_textKeys.mpr ⟨e', he', hkey'⟩)
      have hfield : (Value.map (e :: rest)).field? name = some e.2 := by
        simp [field?, sameKey_text_iff.mpr hkey]
      rw [List.filterMap_cons, hrest, if_pos hkey, hfield, Option.bind_some]
      cases g e.2 <;> rfl
    · have hrest : (textKeys rest).Nodup := by
        rw [textKeys, List.filterMap_cons] at h
        split at h
        · exact h
        · exact (List.nodup_cons.mp h).2
      have hskip : sameKey e.1 (.text name) = false := by
        rw [← Bool.not_eq_true, sameKey_text_iff]
        exact hkey
      have hfield : (Value.map (e :: rest)).field? name = (Value.map rest).field? name := by
        simp [field?, hskip]
      rw [List.filterMap_cons, if_neg hkey, ih hrest, hfield]

end Entries

end Value

namespace Yaml

open Value (textKeys)

variable {t : Tag} {text : String} {n : Node} {entries : List (Value × Value)}

/-! ## Values of nodes -/

/-- A scalar is no mapping. -/
theorem scalarValue_ne_map : scalarValue t text ≠ .ok (.map entries) := by
  unfold scalarValue
  cases t with
  | bool => cases truthValue? text <;> simp
  | int => cases integerValue text <;> simp [Except.map]
  | float => cases floatValue text <;> simp [Except.map]
  | timestamp =>
    cases timestamp? text.toList with
    | none => simp
    | some stamp =>
      have hvalue : stamp.value ≠ .ok (.map entries) := by
        unfold Timestamp.value
        cases stamp.clock with
        | none => cases calendarDay stamp.year stamp.month stamp.day <;> simp [Except.map]
        | some c =>
          simp only [bind, Except.bind, pure, Except.pure, throw, throwThe, MonadExceptOf.throw]
          cases zoneOf c.zone with
          | error fault => simp
          | ok zone =>
            cases calendarDay stamp.year stamp.month stamp.day with
            | error fault => simp
            | ok day => dsimp only; split_ifs <;> simp
      cases hstamp : stamp.value with
      | error fault => simp [Except.mapError, hstamp]
      | ok v => simpa [Except.mapError, hstamp] using hvalue
  | binary =>
    dsimp only
    split <;> simp
  | _ => simp

theorem simpleValue_ne_map : n.simpleValue ≠ .ok (.map entries) := by
  unfold Node.simpleValue
  cases n with
  | cycle => simp [pure, Except.pure]
  | _ =>
    simp only [bind, Except.bind, throw, throwThe, MonadExceptOf.throw]
    split_ifs
    · simp
    · split
      · simp
      · exact scalarValue_ne_map

theorem value_of_entryValue {e : Node × Node} {v : Value × Value} (h : Node.entryValue e = .ok v) :
    e.2.value = .ok v.2 := by
  obtain ⟨k, n⟩ := e
  rw [Node.entryValue] at h
  obtain ⟨key, -, h⟩ := ok_of_bind h
  dsimp only at h
  split at h
  · cases h
  · obtain ⟨value, hvalue, h⟩ := ok_of_bind h
    cases h
    exact hvalue

/-- The entries of a mapping are values of nodes. -/
theorem exists_of_mem_entryValues {es : List (Node × Node)} {vs : List (Value × Value)}
    (h : Node.entryValues es = .ok vs) : ∀ e ∈ vs, ∃ m : Node, m.value = .ok e.2 := by
  induction es generalizing vs with
  | nil =>
    rw [Node.entryValues] at h
    cases h
    exact fun e he => absurd he List.not_mem_nil
  | cons e es ih =>
    rw [Node.entryValues] at h
    obtain ⟨v, hone, h⟩ := ok_of_bind h
    obtain ⟨rest, hrest, h⟩ := ok_of_bind h
    cases h
    intro a ha
    rcases List.mem_cons.mp ha with rfl | ha
    · exact ⟨e.2, value_of_entryValue hone⟩
    · exact ih hrest a ha

theorem ofPairs_ne_map {items : List (Value × Value)} : Value.ofPairs items ≠ .map entries := by
  cases items <;> simp [Value.ofPairs]

/-- A mapping that is the value of a node has distinct text keys, and its values are values of nodes. -/
theorem value_eq_map (h : n.value = .ok (.map entries)) :
    (textKeys entries).Nodup ∧ ∀ e ∈ entries, ∃ m : Node, m.value = .ok e.2 := by
  cases n with
  | scalar t text =>
    rw [Node.value] at h
    exact absurd h simpleValue_ne_map
  | cycle =>
    rw [Node.value] at h
    cases h
  | sequence t items =>
    cases t with
    | sequence => cases hitems : Node.values items <;> simp [Node.value, hitems, Except.map] at h
    | orderedMapping | pairs =>
      cases hitems : Node.pairValues items with
      | error fault => simp [Node.value, hitems, Except.map] at h
      | ok pairs => simp [Node.value, hitems, Except.map, ofPairs_ne_map] at h
    | mapping | set => simp [Node.value] at h
    | _ =>
      simp only [Node.value] at h
      exact absurd h simpleValue_ne_map
  | mapping t es =>
    cases t with
    | mapping =>
      cases hes : Node.entryValues es with
      | error fault => simp [Node.value, hes, Except.map] at h
      | ok vs =>
        simp only [Node.value, hes, Except.map, Except.ok.injEq, Value.map.injEq] at h
        subst h
        obtain ⟨hkeys, hvalues⟩ := Value.putEntries_spec vs fun acc e => rfl
        refine ⟨hkeys, fun e he => ?_⟩
        obtain ⟨e', he', hvalue⟩ := hvalues e he
        rw [hvalue]
        exact exists_of_mem_entryValues hes e' he'
    | set => cases hes : Node.entryValues es <;> simp [Node.value, hes, Except.map] at h
    | sequence | orderedMapping | pairs => simp [Node.value] at h
    | _ =>
      simp only [Node.value] at h
      exact absurd h simpleValue_ne_map

theorem distinctKeys_value {v : Value} (h : n.value = .ok v) : v.DistinctKeys := by
  rintro entries rfl
  exact (value_eq_map h).1

/-- **A mapping that was read has no text key twice, and neither have the mappings that are its values.** -/
theorem read_map {s : Source} (h : read s = .ok (.map entries)) :
    (textKeys entries).Nodup ∧ ∀ e ∈ entries, e.2.DistinctKeys := by
  have hvalue : ∃ m : Node, m.value = .ok (.map entries) := by
    obtain ⟨root?, -, h⟩ := ok_of_bind h
    cases root? with
    | none => cases h
    | some root =>
      obtain ⟨_, _, h⟩ := ok_of_bind h
      exact ⟨root.flatten, h⟩
  obtain ⟨m, hm⟩ := hvalue
  obtain ⟨hkeys, hvalues⟩ := value_eq_map hm
  refine ⟨hkeys, fun e he => ?_⟩
  obtain ⟨m', hm'⟩ := hvalues e he
  exact distinctKeys_value hm'

end Yaml

end ExportAudit
