import Mathlib
import ExportAudit.Proofs.TargetHost

/-!
# The path of a target

- `Origin`, `Resource`: a target as it is written, with a scheme and a host before its path, with a host alone or with
  neither, and with a query and a fragment behind the path or without them;
- each step of reading a target passes one part of it: `clean_written`, `dropScheme_scheme`, `splitHost_host`,
  `dropQuery_append`; so the path is what is left, whatever stands around it (`targetPath_written`);
- `Trims`: a path without the slashes behind it (`trims_normalizePath`);
- `Plain`: the paths that routes are compared with; every path of a target is one (`plain_of_targetPath`).
-/

namespace ExportAudit.Url

/-! ## Targets as they are written -/

/-- A scheme: a letter, then letters, digits and some signs. -/
structure Scheme where
  first : Char
  others : List Char
  isAlpha_first : first.isAlpha = true
  isSchemeChar_others : ∀ c ∈ others, isSchemeChar c = true

def Scheme.text (s : Scheme) : List Char :=
  s.first :: s.others

/-- A host that is not in brackets. -/
structure Host where
  text : List Char
  ascii : ∀ c ∈ text, c.toNat < 0x80
  free : ∀ c ∈ text, c ∉ ['/', '?', '#', '[', ']', '\t', '\r', '\n']

/-- What stands before the path of a target. -/
inductive Origin where
  | none
  | host (h : Host)
  | full (s : Scheme) (h : Host)

def Origin.text : Origin → List Char
  | none => []
  | host h => '/' :: '/' :: h.text
  | full s h => s.text ++ ':' :: '/' :: '/' :: h.text

/-- A path with one slash in front, and the query and the fragment behind it, if there are any. -/
structure Resource where
  /-- What follows the slash. -/
  below : List Char
  query : Option (List Char) := none
  fragment : Option (List Char) := none
  single : below.head? ≠ some '/'
  free : ∀ c ∈ below, c ∉ ['?', '#', '\t', '\r', '\n']
  query_free : ∀ q ∈ query, '#' ∉ q

namespace Resource

def path (r : Resource) : List Char :=
  '/' :: r.below

/-- What stands behind the path. -/
def behind (r : Resource) : List Char :=
  r.query.elim [] ('?' :: ·) ++ r.fragment.elim [] ('#' :: ·)

def text (r : Resource) : List Char :=
  r.path ++ r.behind

end Resource

/-- A path without the slashes behind it; one that is nothing but slashes leaves a slash. -/
inductive Trims : List Char → List Char → Prop
  | slashes (n : Nat) : Trims (List.replicate n '/') ['/']
  | kept {path : List Char} (n : Nat) (hne : path ≠ []) (hlast : path.getLast? ≠ some '/') :
      Trims (path ++ List.replicate n '/') path

/-- A path that begins with a slash, ends with none unless it is the slash, and holds neither a query nor a fragment
nor line breaks and tabs. -/
structure Plain (path : List Char) : Prop where
  rooted : path.head? = some '/'
  free : ∀ c ∈ path, c ∉ ['?', '#', '\t', '\r', '\n']
  trimmed : path.getLast? = some '/' → path = ['/']

/-! ## Cleaning -/

/-- The characters that cleaning leaves wherever they stand. -/
def isKept (c : Char) : Bool :=
  c != '\t' && c != '\r' && c != '\n'

theorem isKept_iff {c : Char} : isKept c = true ↔ c ≠ '\t' ∧ c ≠ '\r' ∧ c ≠ '\n' := by
  simp [isKept, and_assoc]

theorem clean_eq (cs : List Char) : clean cs = (cs.dropWhile (·.toNat ≤ 0x20)).filter isKept :=
  rfl

theorem isKept_of_isSchemeChar {c : Char} (h : isSchemeChar c = true) : isKept c = true :=
  isKept_iff.mpr ⟨ne_of_test h rfl, ne_of_test h rfl, ne_of_test h rfl⟩

theorem isSchemeChar_of_isAlpha {c : Char} (h : c.isAlpha = true) : isSchemeChar c = true := by
  simp [isSchemeChar, Char.isAlphanum, h]

theorem Scheme.isSchemeChar_of_mem (s : Scheme) : ∀ c ∈ s.text, isSchemeChar c = true :=
  List.forall_mem_cons.mpr ⟨isSchemeChar_of_isAlpha s.isAlpha_first, s.isSchemeChar_others⟩

theorem Host.isKept_of_mem (h : Host) : ∀ c ∈ h.text, isKept c = true := by
  intro c hc
  have := h.free c hc
  simp only [List.mem_cons, not_or] at this
  exact isKept_iff.mpr ⟨this.2.2.2.2.2.1, this.2.2.2.2.2.2.1, this.2.2.2.2.2.2.2.1⟩

theorem Origin.isKept_of_mem (o : Origin) : ∀ c ∈ o.text, isKept c = true := by
  have hhost : ∀ h : Host, ∀ c ∈ '/' :: '/' :: h.text, isKept c = true := fun h =>
    List.forall_mem_cons.mpr ⟨rfl, List.forall_mem_cons.mpr ⟨rfl, h.isKept_of_mem⟩⟩
  cases o with
  | none => exact List.forall_mem_nil _
  | host h => exact hhost h
  | full s h =>
    refine List.forall_mem_append.mpr ⟨fun c hc => ?_, List.forall_mem_cons.mpr ⟨rfl, hhost h⟩⟩
    exact isKept_of_isSchemeChar (s.isSchemeChar_of_mem c hc)

theorem Resource.isKept_of_mem (r : Resource) : ∀ c ∈ r.path, isKept c = true := by
  refine List.forall_mem_cons.mpr ⟨rfl, fun c hc => ?_⟩
  have := r.free c hc
  simp only [List.mem_cons, not_or] at this
  exact isKept_iff.mpr ⟨this.2.2.1, this.2.2.2.1, this.2.2.2.2.1⟩

/-- No blank stands in front of a target as it is written. -/
theorem exists_cons_written (o : Origin) (r : Resource) :
    ∃ c cs, o.text ++ r.text = c :: cs ∧ 0x20 < c.toNat := by
  cases o with
  | none => exact ⟨'/', _, rfl, by decide⟩
  | host h => exact ⟨'/', _, rfl, by decide⟩
  | full s h =>
    refine ⟨s.first, _, rfl, ?_⟩
    have := s.isAlpha_first
    simp [Char.isAlpha, Char.isUpper, Char.isLower, UInt32.le_iff_toNat_le] at this
    omega

/-- Cleaning a target as it is written changes at most its query and its fragment. -/
theorem clean_written (o : Origin) (r : Resource) :
    clean (o.text ++ r.text) = o.text ++ (r.path ++ r.behind.filter isKept) := by
  obtain ⟨c, cs, htext, hc⟩ := exists_cons_written o r
  have hfront : (o.text ++ r.text).dropWhile (·.toNat ≤ 0x20) = o.text ++ r.text := by
    rw [htext, List.dropWhile_cons_of_neg]
    simpa using hc
  rw [clean_eq, hfront, Resource.text, List.filter_append, List.filter_append,
    List.filter_eq_self.mpr o.isKept_of_mem, List.filter_eq_self.mpr r.isKept_of_mem]

/-! ## Schemes, hosts and queries -/

theorem dropScheme_slash (cs : List Char) : dropScheme ('/' :: cs) = '/' :: cs := by
  unfold dropScheme
  rcases hspan : ('/' :: cs).span (· != ':') with ⟨front, _ | ⟨c, rest⟩⟩
  · rfl
  · -- what stands before the colon begins with the slash, which is no letter
    rw [List.span_eq_takeWhile_dropWhile] at hspan
    obtain ⟨rfl, -⟩ := Prod.mk.inj hspan
    rfl

theorem dropScheme_scheme (s : Scheme) (rest : List Char) : dropScheme (s.text ++ ':' :: rest) = rest := by
  have hcolon : ∀ c ∈ s.text, (c != ':') = true := fun c hc =>
    bne_iff_ne.mpr (ne_of_test (s.isSchemeChar_of_mem c hc) rfl)
  have hall : s.text.all isSchemeChar = true := List.all_eq_true.mpr s.isSchemeChar_of_mem
  unfold dropScheme
  rw [span_append_cons hcolon (by decide)]
  have hfirst : (s.text.head?.map Char.isAlpha).getD false = true := s.isAlpha_first
  simp only [hfirst, hall, Bool.and_self, if_true]

theorem splitHost_host (h : Host) (rest : List Char) :
    splitHost ('/' :: '/' :: (h.text ++ '/' :: rest)) = (h.text, '/' :: rest) := by
  have hgoes : ∀ c ∈ h.text, (!endsHost c) = true := by
    intro c hc
    have := h.free c hc
    simp only [List.mem_cons, not_or] at this
    simp [endsHost, this.1, this.2.1, this.2.2.1]
  unfold splitHost
  exact span_append_cons hgoes rfl

theorem splitHost_slash {cs : List Char} (h : cs.head? ≠ some '/') : splitHost ('/' :: cs) = ([], '/' :: cs) := by
  rw [splitHost]
  rintro rest heq
  rw [(List.cons.inj heq).2] at h
  exact h rfl

theorem Host.wellFormed (h : Host) : WellFormed h.text := by
  have hbrackets : '[' ∉ h.text ∧ ']' ∉ h.text :=
    ⟨fun hc => h.free _ hc (by decide), fun hc => h.free _ hc (by decide)⟩
  refine ⟨iff_of_false hbrackets.1 hbrackets.2, fun hc => absurd hc hbrackets.1, fun c hc => ?_⟩
  have := h.ascii c hc
  simp only [isAmbiguous, List.contains_eq_mem, List.mem_cons, List.not_mem_nil, or_false, decide_eq_false_iff_not]
  omega

theorem wellFormed_nil : WellFormed [] :=
  ⟨by simp, fun h => absurd h List.not_mem_nil, fun c h => absurd h List.not_mem_nil⟩

/-- A query or a fragment comes next behind a path. -/
theorem Resource.head_behind (r : Resource) {c : Char} (h : (r.behind.filter isKept).head? = some c) :
    c = '?' ∨ c = '#' := by
  unfold Resource.behind at h
  cases hquery : r.query with
  | some q =>
    rw [hquery] at h
    exact Or.inl (Option.some.inj h).symm
  | none =>
    cases hfragment : r.fragment with
    | some f =>
      rw [hquery, hfragment] at h
      exact Or.inr (Option.some.inj h).symm
    | none =>
      rw [hquery, hfragment] at h
      cases h

theorem dropQuery_append {path rest : List Char} (hpath : ∀ c ∈ path, c ∉ ['?', '#', '\t', '\r', '\n'])
    (hrest : ∀ c, rest.head? = some c → c = '?' ∨ c = '#') : dropQuery (path ++ rest) = path := by
  have hgoes : ∀ c ∈ path, (c != '?' && c != '#') = true := by
    intro c hc
    have := hpath c hc
    simp only [List.mem_cons, not_or] at this
    simp [this.1, this.2.1]
  unfold dropQuery
  rw [List.takeWhile_append_of_pos hgoes]
  cases rest with
  | nil => simp
  | cons c rest => rcases hrest c rfl with rfl | rfl <;> simp

/-! ## Trailing slashes -/

theorem getLast?_trim (cs : List Char) : (cs.reverse.dropWhile (· == '/')).reverse.getLast? ≠ some '/' := by
  intro h
  rw [List.getLast?_reverse] at h
  have := List.head?_dropWhile_not (· == '/') cs.reverse
  rw [h] at this
  simp at this

theorem exists_trim_append (cs : List Char) :
    ∃ n, cs = (cs.reverse.dropWhile (· == '/')).reverse ++ List.replicate n '/' := by
  refine ⟨(cs.reverse.takeWhile (· == '/')).length, ?_⟩
  have hslashes : cs.reverse.takeWhile (· == '/') = List.replicate (cs.reverse.takeWhile (· == '/')).length '/' := by
    refine List.eq_replicate_iff.mpr ⟨rfl, fun c hc => ?_⟩
    simpa using List.mem_takeWhile_imp hc
  rw [← List.reverse_replicate, ← hslashes, ← List.reverse_append, List.takeWhile_append_dropWhile,
    List.reverse_reverse]

/-- A path with a slash in front loses the slashes behind it. -/
theorem trims_normalizePath (cs : List Char) : Trims ('/' :: cs) (normalizePath ('/' :: cs)) := by
  obtain ⟨n, hn⟩ := exists_trim_append ('/' :: cs)
  have hlast := getLast?_trim ('/' :: cs)
  unfold normalizePath
  simp only
  generalize (('/' :: cs).reverse.dropWhile (· == '/')).reverse = trimmed at hn hlast ⊢
  cases trimmed with
  | nil =>
    rw [hn]
    exact Trims.slashes n
  | cons c rest =>
    rw [hn]
    exact Trims.kept n (List.cons_ne_nil c rest) hlast

theorem Trims.plain {path trimmed : List Char} (h : Trims path trimmed) (hrooted : path.head? = some '/')
    (hfree : ∀ c ∈ path, c ∉ ['?', '#', '\t', '\r', '\n']) : Plain trimmed := by
  cases h with
  | slashes n => exact ⟨rfl, List.forall_mem_singleton.mpr (by decide), fun _ => rfl⟩
  | kept n hne hlast =>
    rw [List.head?_append_of_ne_nil _ hne] at hrooted
    exact ⟨hrooted, fun c hc => hfree c (List.mem_append_left _ hc), fun h => absurd h hlast⟩

/-- A path without a slash in front is read as if it had one. -/
theorem exists_normalizePath_eq (cs : List Char) :
    ∃ below, normalizePath cs = normalizePath ('/' :: below) ∧ ∀ c ∈ below, c ∈ cs := by
  by_cases h : cs.head? = some '/'
  · obtain ⟨below, rfl⟩ := List.head?_eq_some_iff.mp h
    exact ⟨below, rfl, fun c hc => List.mem_cons_of_mem _ hc⟩
  · refine ⟨cs, ?_, fun c hc => hc⟩
    unfold normalizePath
    split
    · exact absurd rfl h
    · rfl

/-! ## The path of a target -/

theorem targetPath_eq {target : String} {host rest : List Char}
    (hsplit : splitHost (dropScheme (clean target.toList)) = (host, rest)) (hhost : WellFormed host) :
    targetPath target = .ok (String.ofList (normalizePath (dropQuery rest))) := by
  unfold targetPath
  rw [hsplit]
  simp [checkHost_eq_ok_iff.mpr hhost, bind, Except.bind, pure, Except.pure]

/-- Whatever stands around a path, reading the target finds a host that can be named and the path behind it. -/
theorem exists_splitHost_written (o : Origin) (r : Resource) : ∃ host, WellFormed host ∧
    splitHost (dropScheme (clean (o.text ++ r.text))) = (host, r.path ++ r.behind.filter isKept) := by
  rw [clean_written]
  generalize hbehind : r.behind.filter isKept = behind
  cases o with
  | none =>
    refine ⟨[], wellFormed_nil, ?_⟩
    have hnext : (r.below ++ behind).head? ≠ some '/' := by
      intro h
      cases hbelow : r.below with
      | nil =>
        rw [hbelow, List.nil_append, ← hbehind] at h
        rcases r.head_behind h with h | h <;> cases h
      | cons c cs =>
        rw [hbelow] at h
        exact r.single (by rw [hbelow]; exact h)
    rw [Origin.text, List.nil_append, Resource.path, List.cons_append, dropScheme_slash, splitHost_slash hnext]
  | host h =>
    refine ⟨h.text, h.wellFormed, ?_⟩
    rw [Origin.text, List.cons_append, List.cons_append, dropScheme_slash]
    exact splitHost_host h _
  | full s h =>
    refine ⟨h.text, h.wellFormed, ?_⟩
    rw [Origin.text, List.append_assoc, List.cons_append, dropScheme_scheme]
    exact splitHost_host h _

theorem targetPath_written (o : Origin) (r : Resource) :
    targetPath (String.ofList (o.text ++ r.text)) = .ok (String.ofList (normalizePath r.path)) := by
  obtain ⟨host, hhost, hsplit⟩ := exists_splitHost_written o r
  have hfree : ∀ c ∈ r.path, c ∉ ['?', '#', '\t', '\r', '\n'] :=
    List.forall_mem_cons.mpr ⟨by decide, r.free⟩
  rw [← String.toList_ofList (l := o.text ++ r.text)] at hsplit
  rw [targetPath_eq hsplit hhost, dropQuery_append hfree fun c hc => r.head_behind hc]

theorem splitHost_suffix (cs : List Char) : (splitHost cs).2 <:+ cs := by
  unfold splitHost
  split
  · rename_i rest
    rw [List.span_eq_takeWhile_dropWhile]
    exact (List.dropWhile_suffix _).trans ((List.suffix_cons '/' rest).trans (List.suffix_cons '/' _))
  · exact List.suffix_refl _

theorem dropScheme_suffix (cs : List Char) : dropScheme cs <:+ cs := by
  unfold dropScheme
  rcases hspan : cs.span (· != ':') with ⟨front, _ | ⟨c, rest⟩⟩
  · exact List.suffix_refl _
  · simp only
    split
    · exact ⟨front ++ [c], by rw [(of_span_eq hspan).1, List.append_assoc, List.singleton_append]⟩
    · exact List.suffix_refl _

/-- What stands before the query and the fragment of a cleaned target has no mark of either, no line break and no tab. -/
theorem free_dropQuery {target rest : List Char} (h : rest <:+ clean target) :
    ∀ c ∈ dropQuery rest, c ∉ ['?', '#', '\t', '\r', '\n'] := by
  intro c hc
  have hgoes : (c != '?' && c != '#') = true := List.mem_takeWhile_imp (p := fun c => c != '?' && c != '#') hc
  have hkept : isKept c = true := by
    have hmem : c ∈ clean target := h.subset ((List.takeWhile_sublist _).subset hc)
    rw [clean_eq] at hmem
    exact (List.mem_filter.mp hmem).2
  obtain ⟨htab, hreturn, hbreak⟩ := isKept_iff.mp hkept
  simp only [Bool.and_eq_true, bne_iff_ne] at hgoes
  simp [hgoes, htab, hreturn, hbreak]

theorem plain_of_targetPath {target path : String} (h : targetPath target = .ok path) : Plain path.toList := by
  have hhost := exists_targetPath_eq_ok_iff.mp ⟨path, h⟩
  have hsuffix := (splitHost_suffix _).trans (dropScheme_suffix (clean target.toList))
  unfold hostOf at hhost
  rcases hsplit : splitHost (dropScheme (clean target.toList)) with ⟨host, rest⟩
  rw [hsplit] at hhost hsuffix
  obtain rfl : String.ofList (normalizePath (dropQuery rest)) = path :=
    Except.ok.inj ((targetPath_eq hsplit hhost).symm.trans h)
  obtain ⟨below, heq, hmem⟩ := exists_normalizePath_eq (dropQuery rest)
  rw [String.toList_ofList, heq]
  refine (trims_normalizePath below).plain rfl (List.forall_mem_cons.mpr ⟨by decide, fun c hc => ?_⟩)
  exact free_dropQuery hsuffix c (hmem c hc)

/-- Reading a target keeps its path, without the slashes behind it, and nothing else: the same path is read whatever
scheme, host, query and fragment stand around it. And whatever a target is, a path that is read from it begins with a
slash, ends with none unless it is the slash, and has neither query nor fragment nor line breaks and tabs in it. -/
theorem targetPath_keeps_path :
    (∀ r : Resource, ∃ path, Trims r.path path ∧
      ∀ o : Origin, targetPath (String.ofList (o.text ++ r.text)) = .ok (String.ofList path)) ∧
    ∀ target path, targetPath target = .ok path → Plain path.toList :=
  ⟨fun r => ⟨normalizePath r.path, trims_normalizePath r.below, fun o => targetPath_written o r⟩,
    fun _ _ => plain_of_targetPath⟩

/-- A path with a colon and slashes behind it, before a query and a fragment that look like URLs. -/
def crowded : Resource where
  below := ['a', ':', 'b', '/', '/']
  query := some "u=http://x/?y".toList
  fragment := some "f?//z#".toList
  single := by decide
  free := by simp
  query_free := by decide +kernel

theorem targetPath_keeps_path_crowded :
    "https://me@h:80/a:b//?u=http://x/?y#f?//z#".toList =
        (Origin.full ⟨'h', ['t', 't', 'p', 's'], rfl, List.all_eq_true.mp rfl⟩
          ⟨['m', 'e', '@', 'h', ':', '8', '0'], by simp, by simp⟩).text ++ crowded.text ∧
      targetPath "https://me@h:80/a:b//?u=http://x/?y#f?//z#" = .ok "/a:b" ∧ Plain "/a:b".toList :=
  ⟨by decide +kernel, by rfl, targetPath_keeps_path.2 "https://me@h:80/a:b//?u=http://x/?y#f?//z#" "/a:b" (by rfl)⟩

end ExportAudit.Url
