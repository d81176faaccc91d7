import Mathlib
import ExportAudit.Yaml.Source

/-!
# The blocks of a text file

Whether a file is text can be told at once (`Text.decode?`) or while it is read block by block. What is left of an open
file (`OpenFile.rest`) is not changed by decoding a chunk (`OpenFile.rest_of_chunk`), and reading takes a block from it
(`OpenFile.read_spec`). So the blocks of a file that is text are the text (`blocks_of_decode?`), and those of one that is
not end with a block that cannot be had (`blocks_of_decode?_eq_none`).

For a YAML file this says what is read of it: a text of allowed characters to its end (`Source.ofBytes_of_allowed`), any
text up to a fault of form at most (`Source.ends_of_decode?`), and what is not text up to a fault (`Source.ends_ne_none`),
with nothing in front of it where the file is short (`Source.ofBytes_of_small`).
-/

namespace ExportAudit

namespace Text

/-! ## Decoding in parts -/

/-- The characters of some bytes behind a sequence that may have begun. -/
def decodeFrom? (begun : Option OpenSequence) (bytes : List UInt8) : Option (List Char) :=
  (pieces begun bytes).mapM id

theorem decodeFrom?_nil (begun : Option OpenSequence) :
    decodeFrom? begun [] = if begun.isSome then none else some [] := by
  cases begun <;> rfl

theorem decodeFrom?_cons (begun : Option OpenSequence) (b : UInt8) (rest : List UInt8) :
    decodeFrom? begun (b :: rest) =
      (feedByte begun b).bind fun fed => (decodeFrom? fed.2 rest).map (fed.1.toList ++ ·) := by
  cases begun with
  | none =>
    unfold decodeFrom? feedByte
    rw [pieces]
    cases firstByte b.toNat with
    | whole c => simp [List.mapM_cons, Option.map_eq_bind]
    | begun p => simp
    | stray => simp [List.mapM_cons]
  | some p =>
    unfold decodeFrom? feedByte
    rw [pieces]
    dsimp only
    by_cases hbyte : (decide (p.least ≤ b.toNat) && decide (b.toNat ≤ p.greatest)) = true
    · rw [if_pos hbyte, if_pos hbyte]
      by_cases howed : p.owed ≤ 1
      · rw [if_pos howed, if_pos howed]
        simp [List.mapM_cons, Option.map_eq_bind]
      · rw [if_neg howed, if_neg howed]
        simp
    · rw [if_neg hbyte, if_neg hbyte]
      cases firstByte b.toNat <;> simp [List.mapM_cons]

theorem decodeFrom?_append (begun : Option OpenSequence) (now later : List UInt8) :
    decodeFrom? begun (now ++ later) =
      (feed begun now).bind fun fed => (decodeFrom? fed.2 later).map (fed.1 ++ ·) := by
  induction now generalizing begun with
  | nil => simp [feed]
  | cons b now ih =>
    rw [List.cons_append, decodeFrom?_cons, feed]
    cases hbyte : feedByte begun b with
    | none => rfl
    | some fed =>
      simp only [Option.bind_some, Option.bind_eq_bind, ih]
      cases hfeed : feed fed.2 now with
      | none => rfl
      | some rest => simp [Function.comp_def]

/-- A byte completes a character or leaves a sequence open, and not both. -/
theorem length_feedByte {begun begun' : Option OpenSequence} {b : UInt8} {c? : Option Char}
    (h : feedByte begun b = some (c?, begun')) :
    c?.toList.length + begun'.toList.length ≤ 1 + begun.toList.length := by
  unfold feedByte at h
  cases begun with
  | none =>
    dsimp only at h
    cases hfirst : firstByte b.toNat with
    | whole c =>
      rw [hfirst] at h
      cases h
      simp
    | begun p =>
      rw [hfirst] at h
      cases h
      simp
    | stray =>
      rw [hfirst] at h
      cases h
  | some p =>
    dsimp only at h
    split at h
    · split at h
      · cases h
        simp
      · cases h
        simp
    · cases h

/-- Each character takes a byte, and so does a sequence that is open. -/
theorem length_feed {begun begun' : Option OpenSequence} {bytes : List UInt8} {cs : List Char}
    (h : feed begun bytes = some (cs, begun')) :
    cs.length + begun'.toList.length ≤ bytes.length + begun.toList.length := by
  induction bytes generalizing begun cs with
  | nil =>
    rw [feed, Option.some.injEq, Prod.mk.injEq] at h
    obtain ⟨rfl, rfl⟩ := h
    simp
  | cons b bytes ih =>
    rw [feed, Option.bind_eq_bind, Option.bind_eq_some_iff] at h
    obtain ⟨⟨c?, mid⟩, hbyte, h⟩ := h
    rw [Option.bind_eq_bind, Option.bind_eq_some_iff] at h
    obtain ⟨⟨rest, last⟩, hrest, h⟩ := h
    obtain ⟨rfl, rfl⟩ := Prod.mk.injEq .. ▸ Option.some.inj h
    have hfirst := length_feedByte hbyte
    have hlast := ih hrest
    rw [List.length_append, List.length_cons]
    omega

/-! ## Line ends -/

theorem getLast?_cons_of_some {c d : Char} {cs : List Char} (h : cs.getLast? = some d) :
    (c :: cs).getLast? = some d := by
  simp [List.getLast?_cons, h]

/-- Line ends can be unified in parts, unless a line feed is cut off from its carriage return. -/
theorem unixLines_append_of_cut {a b : List Char} (h : a.getLast? = some '\r' → b.head? ≠ some '\n') :
    unixLines (a ++ b) = unixLines a ++ unixLines b := by
  fun_induction unixLines a with
  | case1 => rfl
  | case2 rest ih =>
    have hrest := ih fun hlast => h (getLast?_cons_of_some (getLast?_cons_of_some hlast))
    simp only [List.cons_append, unixLines, hrest]
  | case3 rest hfeed ih =>
    have hreturn : unixLines ('\r' :: (rest ++ b)) = '\n' :: unixLines (rest ++ b) := by
      rw [unixLines]
      intro more hmore
      cases rest with
      | nil => exact h rfl (by rw [← List.nil_append b, hmore]; rfl)
      | cons c rest =>
        obtain ⟨rfl, -⟩ := List.cons.inj hmore
        exact hfeed rest rfl
    rw [List.cons_append, hreturn, ih fun hlast => h (getLast?_cons_of_some hlast), List.cons_append]
  | case4 c rest hline hreturn ih =>
    rw [List.cons_append, unixLines_cons hreturn, ih fun hlast => h (getLast?_cons_of_some hlast), List.cons_append]

theorem length_unixLines (cs : List Char) : (unixLines cs).length ≤ cs.length := by
  fun_induction unixLines cs <;> simp <;> omega

/-! ## Chunks -/

namespace OpenFile

variable {f g : OpenFile} {missing size n : Nat} {cs : List Char}

/-- What is still to be handed out of a file, if the file is text. -/
def rest (f : OpenFile) : Option (List Char) :=
  (decodeFrom? f.begun f.bytes).map fun cs => f.ready ++ unixLines (if f.held then '\r' :: cs else cs)

/-- A bound on the number of characters that are still to be handed out. -/
def left (f : OpenFile) : Nat :=
  f.ready.length + f.held.toNat + f.begun.toList.length + f.bytes.length

/-- A file of which there is nothing left has ended as a text. -/
theorem left_pos (h : f.rest = none) : 0 < f.left := by
  by_contra hleft
  have hbytes : f.bytes = [] := by
    rw [← List.length_eq_zero_iff]
    unfold left at hleft
    omega
  have hbegun : f.begun = none := by
    cases hbegun : f.begun with
    | none => rfl
    | some p =>
      unfold left at hleft
      rw [hbegun, Option.toList_some, List.length_singleton] at hleft
      omega
  rw [rest, hbytes, hbegun] at h
  cases h

/-- How a file goes on with a chunk: some bytes are decoded, the end of what they give is held back or not, and the rest of
it is ready. If there are no bytes the file has ended, and nothing is held back. -/
structure Decodes (f g : OpenFile) (now : List UInt8) (cs out : List Char) : Prop where
  bytes : f.bytes = now ++ g.bytes
  feed : Text.feed f.begun now = some (cs, g.begun)
  text : (if f.held then '\r' :: cs else cs) = out ++ (if g.held then ['\r'] else [])
  ready : g.ready = f.ready ++ unixLines out
  cut : now ≠ [] → out.getLast? = some '\r' → g.held = true
  ended : now = [] → f.bytes = [] ∧ g.begun = none ∧ g.held = false

theorem take_chunkSize_eq_nil (f : OpenFile) (missing : Nat) (h : f.bytes.take (f.chunkSize missing) = []) :
    f.bytes = [] := by
  have hsize : leastChunk ≤ f.chunkSize missing := by
    unfold chunkSize
    split
    · exact le_refl _
    · exact le_max_left _ _
  rcases List.take_eq_nil_iff.mp h with hzero | hnil
  · rw [hzero] at hsize
    exact absurd hsize (by decide)
  · exact hnil

theorem take_append_drop_length (bytes : List UInt8) (size : Nat) :
    bytes.take size ++ bytes.drop (bytes.take size).length = bytes := by
  rcases Nat.le_total size bytes.length with hle | hle
  · rw [List.length_take, min_eq_left hle, List.take_append_drop]
  · rw [List.take_of_length_le hle, List.drop_length, List.append_nil]

theorem exists_decodes (h : f.chunk missing = some g) : ∃ now cs out, Decodes f g now cs out := by
  have hbytes := take_append_drop_length f.bytes (f.chunkSize missing)
  have hnil := take_chunkSize_eq_nil f missing
  unfold chunk at h
  generalize f.bytes.take (f.chunkSize missing) = now at h hbytes hnil
  rw [Option.bind_eq_bind, Option.bind_eq_some_iff] at h
  obtain ⟨⟨cs, begun⟩, hfeed, h⟩ := h
  dsimp only at h
  generalize htext : (if f.held then '\r' :: cs else cs) = text at h
  by_cases hended : (now.isEmpty && begun.isSome) = true
  · rw [if_pos hended] at h
    cases h
  · rw [if_neg hended] at h
    cases h
    by_cases hheld : (!now.isEmpty && text.getLast? == some '\r') = true
    · rw [hheld, if_pos rfl]
      rw [Bool.and_eq_true, beq_iff_eq] at hheld
      have hne : now ≠ [] := by simpa using hheld.1
      refine ⟨now, cs, text.dropLast, hbytes.symm, hfeed, ?_, rfl, fun _ _ => rfl, fun hnow => absurd hnow hne⟩
      rw [htext, if_pos rfl, List.dropLast_append_getLast? _ hheld.2]
    · rw [Bool.not_eq_true] at hheld
      rw [hheld]
      refine ⟨now, cs, text, hbytes.symm, hfeed, ?_, rfl, fun hne hlast => ?_, fun hnow => ⟨hnil hnow, ?_, rfl⟩⟩
      · rw [htext]
        simp
      · simp [hne, hlast] at hheld
      · simpa [hnow] using hended

/-- What is left of a file is the same behind a chunk. -/
theorem rest_of_chunk (h : f.chunk missing = some g) : g.rest = f.rest := by
  obtain ⟨now, cs, out, hbytes, hfeed, htext, hready, hcut, hended⟩ := exists_decodes h
  rw [rest, rest, hbytes, decodeFrom?_append, hfeed, Option.bind_some, Option.map_map]
  cases hlater : decodeFrom? g.begun g.bytes with
  | none => rfl
  | some later =>
    have hjoin : (if f.held then '\r' :: (cs ++ later) else cs ++ later) =
        out ++ (if g.held then '\r' :: later else later) := by
      calc (if f.held then '\r' :: (cs ++ later) else cs ++ later)
          = (if f.held then '\r' :: cs else cs) ++ later := by split <;> rfl
        _ = out ++ (if g.held then ['\r'] else []) ++ later := by rw [htext]
        _ = out ++ (if g.held then '\r' :: later else later) := by split <;> simp
    have hlines : out.getLast? = some '\r' → (if g.held then '\r' :: later else later).head? ≠ some '\n' := by
      intro hlast
      by_cases hnow : now = []
      · obtain ⟨hnil, hbegun, hheld⟩ := hended hnow
        have hnone : g.bytes = [] := (List.append_eq_nil_iff.mp (hbytes.symm.trans hnil)).2
        rw [hbegun, hnone] at hlater
        cases hlater
        simp [hheld]
      · simp [hcut hnow hlast]
    simp only [Option.map_some, Function.comp_apply, hjoin, unixLines_append_of_cut hlines, hready, List.append_assoc]

/-- A chunk that is not text is in a file that is not. -/
theorem rest_eq_none_of_chunk (h : f.chunk missing = none) : f.rest = none := by
  unfold chunk at h
  rw [Option.bind_eq_bind, Option.bind_eq_none_iff] at h
  rw [rest, ← List.take_append_drop (f.chunkSize missing) f.bytes, decodeFrom?_append]
  cases hfeed : feed f.begun (f.bytes.take (f.chunkSize missing)) with
  | none => rfl
  | some fed =>
    have hended := h fed hfeed
    dsimp only at hended
    split at hended
    · rename_i hopen
      rw [Bool.and_eq_true, List.isEmpty_iff] at hopen
      rw [take_chunkSize_eq_nil f missing hopen.1, List.drop_nil, Option.bind_some, decodeFrom?_nil, if_pos hopen.2]
      rfl
    · cases hended

theorem left_of_chunk (h : f.chunk missing = some g) :
    g.left ≤ f.left ∧ (f.bytes ≠ [] → g.bytes.length < f.bytes.length) := by
  obtain ⟨now, cs, out, hbytes, hfeed, htext, hready, -, hended⟩ := exists_decodes h
  have hfed := length_feed hfeed
  have hlines := length_unixLines out
  have hout : out.length + g.held.toNat = cs.length + f.held.toNat := by
    have hlength := congrArg List.length htext
    cases hf : f.held <;> cases hg : g.held <;> simp [hf, hg] at hlength ⊢ <;> omega
  constructor
  · unfold left
    rw [hready, hbytes, List.length_append, List.length_append]
    omega
  · intro hne
    have hnow : now ≠ [] := fun hnow => hne (hended hnow).1
    have hpos := List.length_pos_of_ne_nil hnow
    rw [hbytes, List.length_append]
    omega

/-! ## Blocks -/

/-- Filling decodes until enough is ready or the file has ended. -/
theorem fill_spec (f : OpenFile) (size : Nat) (hn : f.bytes.length < n) :
    (f.fill size n = none ∧ f.rest = none) ∨
      ∃ g, f.fill size n = some g ∧ g.rest = f.rest ∧ g.left ≤ f.left ∧
        (size ≤ g.ready.length ∨ g.rest = some g.ready) := by
  induction n generalizing f with
  | zero => omega
  | succ n ih =>
    rw [fill]
    by_cases hready : size ≤ f.ready.length
    · exact Or.inr ⟨f, if_pos hready, rfl, le_refl _, Or.inl hready⟩
    · rw [if_neg hready]
      cases hchunk : f.chunk (size - f.ready.length) with
      | none => exact Or.inl ⟨rfl, rest_eq_none_of_chunk hchunk⟩
      | some g =>
        obtain ⟨hleft, hshorter⟩ := left_of_chunk hchunk
        have hrest := rest_of_chunk hchunk
        by_cases hbytes : f.bytes = []
        · have hlast : g.rest = some g.ready := by
            obtain ⟨now, cs, out, hnow, -, -, -, -, hended⟩ := exists_decodes hchunk
            rw [hbytes, List.nil_eq_append_iff] at hnow
            obtain ⟨-, hbegun, hheld⟩ := hended hnow.1
            rw [rest, hnow.2, hbegun, decodeFrom?_nil, hheld]
            simp [unixLines]
          exact Or.inr ⟨g, by simp [hbytes], hrest, hleft, Or.inr hlast⟩
        · have hshort : g.bytes.length < n := by
            have := hshorter hbytes
            omega
          have hgoes : (if f.bytes.isEmpty then some g else g.fill size n) = g.fill size n := by simp [hbytes]
          rcases ih g hshort with ⟨hfill, hnone⟩ | ⟨g', hfill, hrest', hleft', hends⟩
          · exact Or.inl ⟨hgoes.trans hfill, hrest ▸ hnone⟩
          · exact Or.inr ⟨g', hgoes.trans hfill, hrest'.trans hrest, hleft'.trans hleft, hends⟩

/-- **Reading takes a block from what is left**, and where it cannot the file is not text. A block that is too short is the
last one. -/
theorem read_spec (f : OpenFile) (size : Nat) :
    (f.read size = none ∧ f.rest = none) ∨
      ∃ block g, f.read size = some (block, g) ∧ f.rest = g.rest.map (block ++ ·) ∧ block.length + g.left ≤ f.left ∧
        (block.length = size ∨ g.rest = some []) := by
  rw [read]
  rcases fill_spec f size (Nat.lt_succ_self f.bytes.length) with
    ⟨hfill, hnone⟩ | ⟨g, hfill, hrest, hleft, hends⟩
  · exact Or.inl ⟨by rw [hfill]; rfl, hnone⟩
  · refine Or.inr ⟨g.ready.take size, { g with ready := g.ready.drop size }, by rw [hfill]; rfl, ?_, ?_, ?_⟩
    · rw [← hrest, rest, rest, Option.map_map]
      refine Option.map_congr fun cs _ => ?_
      simp only [Function.comp_apply, ← List.append_assoc, List.take_append_drop]
    · unfold left at hleft ⊢
      simp only [List.length_take, List.length_drop]
      omega
    · by_cases hready : size ≤ g.ready.length
      · exact Or.inl (by rw [List.length_take, min_eq_left hready])
      · obtain ⟨cs, hcs, hlast⟩ := Option.map_eq_some_iff.mp (hends.resolve_left hready)
        refine Or.inr ?_
        rw [rest, hcs, Option.map_some, List.append_right_eq_self.mp hlast, List.drop_eq_nil_of_le (by omega)]
        rfl

/-- **The blocks of a file that is text are the text.** -/
theorem blocks_of_rest (hsize : 0 < size) (hn : f.left < n) (h : f.rest = some cs) :
    ∃ bs : List (List Char), f.blocks size n = bs.map some ∧ bs.flatten = cs := by
  induction n generalizing f cs with
  | zero => omega
  | succ n ih =>
    rw [blocks]
    rcases read_spec f size with ⟨-, hnone⟩ | ⟨block, g, hread, hrest, hleft, hends⟩
    · rw [h] at hnone
      cases hnone
    · rw [hrest] at h
      obtain ⟨later, hlater, rfl⟩ := Option.map_eq_some_iff.mp h
      rw [hread]
      cases block with
      | nil =>
        have hlast : g.rest = some [] := hends.resolve_left (by simp [hsize.ne])
        rw [hlast, Option.some.injEq] at hlater
        exact ⟨[], rfl, by simp [← hlater]⟩
      | cons c block =>
        rw [List.length_cons] at hleft
        obtain ⟨bs, hblocks, hflatten⟩ := ih (by omega) hlater
        exact ⟨(c :: block) :: bs, by simp [hblocks], by simp [hflatten]⟩

/-- **The blocks of a file that is not text end with one that cannot be had**, and those before it are full. -/
theorem blocks_of_rest_eq_none (hsize : 0 < size) (hn : f.left < n) (h : f.rest = none) :
    ∃ bs : List (List Char), f.blocks size n = bs.map some ++ [none] ∧ bs.length * size < f.left := by
  induction n generalizing f with
  | zero => omega
  | succ n ih =>
    rw [blocks]
    rcases read_spec f size with ⟨hread, -⟩ | ⟨block, g, hread, hrest, hleft, hends⟩
    · rw [hread]
      exact ⟨[], rfl, by simpa using left_pos h⟩
    · have hnone : g.rest = none := Option.map_eq_none_iff.mp (hrest.symm.trans h)
      have hlength : block.length = size := hends.resolve_right (by simp [hnone])
      rw [hread]
      cases block with
      | nil => exact absurd hlength hsize.ne
      | cons c block =>
        obtain ⟨bs, hblocks, hcount⟩ := ih (by omega) hnone
        refine ⟨(c :: block) :: bs, by simp [hblocks], ?_⟩
        rw [List.length_cons, Nat.succ_mul]
        omega

end OpenFile

/-! ## Files -/

section Files

variable {bytes : ByteArray} {size : Nat} {cs : List Char}

theorem length_loop_toList (bytes : ByteArray) (i : Nat) (r : List UInt8) :
    (ByteArray.toList.loop bytes i r).length = r.length + (bytes.size - i) := by
  fun_induction ByteArray.toList.loop bytes i r with
  | case1 i r h ih =>
    rw [ih, List.length_cons]
    omega
  | case2 i r h =>
    rw [List.length_reverse]
    omega

theorem length_toList (bytes : ByteArray) : bytes.toList.length = bytes.size := by
  rw [ByteArray.toList, length_loop_toList, List.length_nil]
  omega

theorem blocks_of_decode? (hsize : 0 < size) (h : decode? bytes = some cs) :
    ∃ bs : List (List Char), blocks bytes size = bs.map some ∧ bs.flatten = unixLines cs := by
  refine OpenFile.blocks_of_rest hsize ?_ ?_
  · simp [OpenFile.left, length_toList]
  · change (decode? bytes).map _ = _
    rw [h]
    simp

theorem blocks_of_decode?_eq_none (hsize : 0 < size) (h : decode? bytes = none) :
    ∃ bs : List (List Char), blocks bytes size = bs.map some ++ [none] ∧ bs.length * size < bytes.size := by
  have hleft : (OpenFile.mk bytes.toList none false [] (0, 0)).left = bytes.size := by
    simp [OpenFile.left, length_toList]
  rw [← hleft]
  refine OpenFile.blocks_of_rest_eq_none hsize (by omega) ?_
  change (decode? bytes).map _ = _
  rw [h]
  rfl

end Files

end Text

namespace Yaml.Source

/-! ## YAML files -/

section Blocks

variable {bs : List (List Char)}

theorem joinFirst_map_some (bs : List (List Char)) :
    ∃ joined : List (List Char), joinFirst (bs.map some) = joined.map some ∧ joined.flatten = bs.flatten := by
  match bs with
  | [] => exact ⟨[], rfl, rfl⟩
  | [b] => exact ⟨[b], rfl, rfl⟩
  | a :: b :: rest => exact ⟨(a ++ b) :: rest, rfl, by simp⟩

/-- A block that cannot be had is met behind the first two, or at once. -/
theorem joinFirst_append_none (bs : List (List Char)) :
    ∃ joined : List (List Char), joinFirst (bs.map some ++ [none]) = joined.map some ++ [none] ∧
      (bs.length < 2 → joined = []) := by
  match bs with
  | [] => exact ⟨[], rfl, fun _ => rfl⟩
  | [b] => exact ⟨[], rfl, fun _ => rfl⟩
  | a :: b :: rest => exact ⟨(a ++ b) :: rest, rfl, by simp⟩

theorem ofBlocks_of_allowed (h : ∀ c ∈ bs.flatten, isAllowed c = true) :
    (ofBlocks (bs.map some)).text.toList = bs.flatten ∧ (ofBlocks (bs.map some)).ends = none := by
  induction bs with
  | nil => exact ⟨rfl, rfl⟩
  | cons b bs ih =>
    rw [List.flatten_cons, List.forall_mem_append] at h
    obtain ⟨htext, hends⟩ := ih h.2
    rw [List.map_cons, ofBlocks, dif_pos (List.all_eq_true.mpr h.1)]
    exact ⟨by simp [push, htext], hends⟩

theorem ends_ofBlocks_map_some {e : Fault} (h : (ofBlocks (bs.map some)).ends = some e) :
    ∃ problem, e = .malformed problem := by
  induction bs with
  | nil => cases h
  | cons b bs ih =>
    rw [List.map_cons, ofBlocks] at h
    split at h
    · exact ih h
    · cases h
      exact ⟨_, rfl⟩

theorem ends_ofBlocks_append_none (bs : List (List Char)) : (ofBlocks (bs.map some ++ [none])).ends ≠ none := by
  induction bs with
  | nil => simp [ofBlocks, blank]
  | cons b bs ih =>
    rw [List.map_cons, List.cons_append, ofBlocks]
    split
    · exact ih
    · simp [blank]

end Blocks

section Files

variable {bytes : ByteArray} {cs : List Char}

theorem blockSize_pos : 0 < blockSize := by decide

/-- **A file that is text of allowed characters is read to its end.** -/
theorem ofBytes_of_allowed (h : Text.decode? bytes = some cs) (hcs : ∀ c ∈ Text.unixLines cs, isAllowed c = true) :
    (ofBytes bytes).text.toList = Text.unixLines cs ∧ (ofBytes bytes).ends = none := by
  obtain ⟨bs, hblocks, hflatten⟩ := Text.blocks_of_decode? blockSize_pos h
  obtain ⟨joined, hjoined, hjoin⟩ := joinFirst_map_some bs
  rw [ofBytes, hblocks, hjoined, ← hflatten, ← hjoin]
  exact ofBlocks_of_allowed (by rwa [hjoin, hflatten])

/-- Behind what is read of a file that is text there is a fault of form at most. -/
theorem ends_of_decode? {e : Fault} (h : Text.decode? bytes = some cs) (he : (ofBytes bytes).ends = some e) :
    ∃ problem, e = .malformed problem := by
  obtain ⟨bs, hblocks, -⟩ := Text.blocks_of_decode? blockSize_pos h
  obtain ⟨joined, hjoined, -⟩ := joinFirst_map_some bs
  rw [ofBytes, hblocks, hjoined] at he
  exact ends_ofBlocks_map_some he

/-- **A file that is not text is read up to a fault.** -/
theorem ends_ne_none (h : Text.decode? bytes = none) : (ofBytes bytes).ends ≠ none := by
  obtain ⟨bs, hblocks, -⟩ := Text.blocks_of_decode?_eq_none blockSize_pos h
  obtain ⟨joined, hjoined, -⟩ := joinFirst_append_none bs
  rw [ofBytes, hblocks, hjoined]
  exact ends_ofBlocks_append_none joined

/-- If it is no longer than two blocks nothing of it is read. -/
theorem ofBytes_of_small (h : Text.decode? bytes = none) (hsize : bytes.size ≤ 2 * blockSize) :
    ofBytes bytes = blank (some .notText) := by
  obtain ⟨bs, hblocks, hcount⟩ := Text.blocks_of_decode?_eq_none blockSize_pos h
  obtain ⟨joined, hjoined, hshort⟩ := joinFirst_append_none bs
  have hfew : bs.length < 2 := lt_of_mul_lt_mul_right (hcount.trans_le hsize) (Nat.zero_le _)
  rw [ofBytes, hblocks, hjoined, hshort hfew]
  rfl

end Files

end Yaml.Source

end ExportAudit
