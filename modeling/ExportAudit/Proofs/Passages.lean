import Mathlib
import ExportAudit.Proofs.SearchOrder

/-!
# Where a path leads

There are two ways to follow a path with links in it. A walk follows a limited number of links and fails where nothing
stands; the canonical path never fails, and tells links that are being followed already. `Passage` is what both do where
nothing goes wrong, with the number of links that are passed.

- A walk that arrives is a passage (`exists_passage_of_walkLinks`), and what it goes through on the way is what a walk of a
  part of its path finds (`walkLinks_of_passage`);
- a passage through the target of a link passes fewer links than one through the link, so no link is met again while it is
  followed, and the canonical path of a path that leads somewhere is the place where it leads (`realPlace_of_passage`);
- behind the last link, a path leads on as it is written (`Passage.zero_or_behindLink`, `Passage.eq_append_solid`).
-/

namespace ExportAudit.FileTree

open ExportAudit.Path (Plain Slashless)

/-! ## Passages -/

/-- Where the target of a link is seen from. -/
def linkStart (here : List String) (target : String) : List String :=
  if Path.isAbsolute target then [] else here

/-- A segment that names an entry of a directory. -/
structure Naming (segment : String) : Prop where
  ne_empty : segment ≠ ""
  ne_dot : segment ≠ "."
  ne_dots : segment ≠ ".."

/-- A way from a place along the segments of a path that passes a number of links and comes to a place. -/
inductive Passage (root : FileTree) : List String → List String → Nat → List String → Prop
  | stay (here : List String) : Passage root here [] 0 here
  | blank {here rest place : List String} {segment : String} {n : Nat} {es : List (String × FileTree)}
      (hhere : root.get? here = some (.directory es)) (hsegment : segment = "" ∨ segment = ".")
      (hrest : Passage root here rest n place) : Passage root here (segment :: rest) n place
  | up {here rest place : List String} {n : Nat} {es : List (String × FileTree)}
      (hhere : root.get? here = some (.directory es)) (hrest : Passage root here.dropLast rest n place) :
      Passage root here (".." :: rest) n place
  | enter {here rest place : List String} {segment : String} {n : Nat} {es : List (String × FileTree)} {node : FileTree}
      (hhere : root.get? here = some (.directory es)) (hsegment : Naming segment)
      (hentry : es.lookup segment = some node) (hnode : ∀ target, node ≠ .link target)
      (hrest : Passage root (here ++ [segment]) rest n place) : Passage root here (segment :: rest) n place
  | follow {here rest mid place : List String} {segment target : String} {k n : Nat} {es : List (String × FileTree)}
      (hhere : root.get? here = some (.directory es)) (hsegment : Naming segment)
      (hentry : es.lookup segment = some (.link target))
      (htarget : Passage root (linkStart here target) (Path.segments target) k mid)
      (hrest : Passage root mid rest n place) : Passage root here (segment :: rest) (k + n + 1) place

variable {root : FileTree} {here todo rest place mid : List String} {segment target : String} {k n : Nat}
  {es : List (String × FileTree)} {node : FileTree}

theorem get?_concat (hhere : root.get? here = some (.directory es)) :
    root.get? (here ++ [segment]) = es.lookup segment := by
  induction here generalizing root with
  | nil =>
    obtain rfl : root = .directory es := by simpa [get?] using hhere
    cases hentry : es.lookup segment with
    | none => simp [get?, hentry]
    | some entry => simp [get?, hentry]
  | cons name here ih =>
    cases root with
    | directory entries =>
      rw [get?, Option.bind_eq_some_iff] at hhere
      obtain ⟨entry, hentry, hhere⟩ := hhere
      rw [List.cons_append, get?, hentry, Option.bind_some, ih hhere]
    | file content time => simp [get?] at hhere
    | link target => simp [get?] at hhere

theorem Passage.directory (h : Passage root here (segment :: rest) n place) :
    ∃ es, root.get? here = some (.directory es) := by
  cases h with
  | blank hhere => exact ⟨_, hhere⟩
  | up hhere => exact ⟨_, hhere⟩
  | enter hhere => exact ⟨_, hhere⟩
  | follow hhere => exact ⟨_, hhere⟩

/-- A passage is cut where its path is. -/
theorem Passage.split {front back : List String} (h : Passage root here (front ++ back) n place) :
    ∃ mid k m, n = k + m ∧ Passage root here front k mid ∧ Passage root mid back m place := by
  induction front generalizing here n with
  | nil => exact ⟨here, 0, n, by omega, .stay here, h⟩
  | cons segment front ih =>
    cases h with
    | blank hhere hsegment hrest =>
      obtain ⟨mid, k, m, hn, hfront, hback⟩ := ih hrest
      exact ⟨mid, k, m, hn, .blank hhere hsegment hfront, hback⟩
    | up hhere hrest =>
      obtain ⟨mid, k, m, hn, hfront, hback⟩ := ih hrest
      exact ⟨mid, k, m, hn, .up hhere hfront, hback⟩
    | enter hhere hsegment hentry hnode hrest =>
      obtain ⟨mid, k, m, hn, hfront, hback⟩ := ih hrest
      exact ⟨mid, k, m, hn, .enter hhere hsegment hentry hnode hfront, hback⟩
    | follow hhere hsegment hentry htarget hrest =>
      obtain ⟨mid, k, m, hn, hfront, hback⟩ := ih hrest
      exact ⟨mid, _, m, by omega, .follow hhere hsegment hentry htarget hfront, hback⟩

theorem Passage.append {front back : List String} {m : Nat} (hfront : Passage root here front k mid)
    (hback : Passage root mid back m place) : Passage root here (front ++ back) (k + m) place := by
  induction hfront with
  | stay here => simpa using hback
  | blank hhere hsegment _ ih => exact .blank hhere hsegment (ih hback)
  | up hhere _ ih => exact .up hhere (ih hback)
  | enter hhere hsegment hentry hnode _ ih => exact .enter hhere hsegment hentry hnode (ih hback)
  | @follow _ _ _ _ _ _ k n _ hhere hsegment hentry htarget _ _ ih =>
    have hsum : k + n + 1 + m = k + (n + m) + 1 := by omega
    rw [List.cons_append, hsum]
    exact .follow hhere hsegment hentry htarget (ih hback)

/-- A link on the way is passed. -/
theorem Passage.pos_of_link (h : Passage root here (segment :: rest) n place)
    (hhere : root.get? here = some (.directory es)) (hsegment : Naming segment)
    (hentry : es.lookup segment = some (.link target)) : 0 < n := by
  cases h with
  | blank _ hblank _ => exact absurd hblank (not_or.mpr ⟨hsegment.ne_empty, hsegment.ne_dot⟩)
  | up _ _ => exact absurd rfl hsegment.ne_dots
  | enter hhere' _ hentry' hnode =>
    rw [hhere, Option.some.injEq, directory.injEq] at hhere'
    rw [← hhere', hentry, Option.some.injEq] at hentry'
    exact absurd hentry'.symm (hnode target)
  | follow => omega

/-- From one place along one path there is one passage. -/
theorem Passage.unique {place' : List String} {n' : Nat} (h : Passage root here todo n place)
    (h' : Passage root here todo n' place') : n = n' ∧ place = place' := by
  induction h generalizing n' place' with
  | stay here =>
    cases h'
    exact ⟨rfl, rfl⟩
  | blank hhere hsegment hrest ih =>
    cases h' with
    | blank _ _ hrest' => exact ih hrest'
    | up _ _ => simp at hsegment
    | enter _ hnaming => exact absurd hsegment (not_or.mpr ⟨hnaming.ne_empty, hnaming.ne_dot⟩)
    | follow _ hnaming => exact absurd hsegment (not_or.mpr ⟨hnaming.ne_empty, hnaming.ne_dot⟩)
  | up hhere hrest ih =>
    cases h' with
    | blank _ hsegment _ => simp at hsegment
    | up _ hrest' => exact ih hrest'
    | enter _ hnaming => exact absurd rfl hnaming.ne_dots
    | follow _ hnaming => exact absurd rfl hnaming.ne_dots
  | enter hhere hnaming hentry hnode hrest ih =>
    cases h' with
    | blank _ hsegment _ => exact absurd hsegment (not_or.mpr ⟨hnaming.ne_empty, hnaming.ne_dot⟩)
    | up _ _ => exact absurd rfl hnaming.ne_dots
    | enter _ _ _ _ hrest' => exact ih hrest'
    | follow hhere' _ hentry' =>
      rw [hhere, Option.some.injEq, directory.injEq] at hhere'
      rw [← hhere', hentry, Option.some.injEq] at hentry'
      exact absurd hentry' (hnode _)
  | follow hhere hnaming hentry htarget hrest ihtarget ihrest =>
    cases h' with
    | blank _ hsegment _ => exact absurd hsegment (not_or.mpr ⟨hnaming.ne_empty, hnaming.ne_dot⟩)
    | up _ _ => exact absurd rfl hnaming.ne_dots
    | enter hhere' _ hentry' hnode' =>
      rw [hhere, Option.some.injEq, directory.injEq] at hhere'
      rw [← hhere', hentry, Option.some.injEq] at hentry'
      exact absurd hentry'.symm (hnode' _)
    | follow hhere' _ hentry' htarget' hrest' =>
      rw [hhere, Option.some.injEq, directory.injEq] at hhere'
      rw [← hhere', hentry, Option.some.injEq, link.injEq] at hentry'
      subst hentry'
      obtain ⟨rfl, rfl⟩ := ihtarget htarget'
      obtain ⟨rfl, rfl⟩ := ihrest hrest'
      exact ⟨rfl, rfl⟩

/-- A passage from the root comes to a place that is written as it is. -/
theorem Passage.plain (h : Passage root here todo n place) (hhere : ∀ s ∈ here, Plain s)
    (htodo : ∀ s ∈ todo, Slashless s) : ∀ s ∈ place, Plain s := by
  induction h with
  | stay here => exact hhere
  | blank _ _ _ ih =>
    rw [List.forall_mem_cons] at htodo
    exact ih hhere htodo.2
  | up _ _ ih =>
    rw [List.forall_mem_cons] at htodo
    exact ih (fun s hs => hhere s (List.mem_of_mem_dropLast hs)) htodo.2
  | enter _ hnaming _ _ _ ih =>
    rw [List.forall_mem_cons] at htodo
    refine ih (fun s hs => ?_) htodo.2
    rcases List.mem_append.mp hs with hs | hs
    · exact hhere s hs
    · rw [List.mem_singleton.mp hs]
      exact ⟨htodo.1, hnaming.ne_empty, hnaming.ne_dot, hnaming.ne_dots⟩
  | @follow here _ _ _ _ target _ _ _ _ _ _ _ _ ihtarget ihrest =>
    rw [List.forall_mem_cons] at htodo
    refine ihrest (ihtarget ?_ fun s => Path.slashless_of_mem_segments) htodo.2
    unfold linkStart
    split
    · simp
    · exact hhere

/-! ## Walks -/

section Walks

variable {follow : Bool} {expand : List String → List String → Arrival}

theorem walk_blank (hhere : root.get? here = some (.directory es)) (hsegment : segment = "" ∨ segment = ".") :
    walk root follow expand here (segment :: rest) = walk root follow expand here rest := by
  rw [walk, hhere]
  simp [hsegment]

theorem walk_up (hhere : root.get? here = some (.directory es)) :
    walk root follow expand here (".." :: rest) = walk root follow expand here.dropLast rest := by
  rw [walk, hhere]
  simp

theorem walk_naming (hhere : root.get? here = some (.directory es)) (hsegment : Naming segment) :
    walk root follow expand here (segment :: rest) =
      match es.lookup segment with
      | none => .fault .missing
      | some (.link target) =>
        if rest.isEmpty && !follow then .at (here ++ [segment]) (.link target)
        else expand (linkStart here target) (Path.segments target ++ rest)
      | some _ => walk root follow expand (here ++ [segment]) rest := by
  rw [walk, hhere]
  simp only [beq_iff_eq, Bool.or_eq_true, hsegment.ne_empty, hsegment.ne_dot, hsegment.ne_dots, or_self, if_false]
  rfl

theorem walk_enter (hhere : root.get? here = some (.directory es)) (hsegment : Naming segment)
    (hentry : es.lookup segment = some node) (hnode : ∀ target, node ≠ .link target) :
    walk root follow expand here (segment :: rest) = walk root follow expand (here ++ [segment]) rest := by
  rw [walk_naming hhere hsegment, hentry]
  cases node with
  | link target => exact absurd rfl (hnode target)
  | file content time => rfl
  | directory entries => rfl

theorem walk_follow (hhere : root.get? here = some (.directory es)) (hsegment : Naming segment)
    (hentry : es.lookup segment = some (.link target)) (hgoes : follow = true ∨ rest ≠ []) :
    walk root follow expand here (segment :: rest) = expand (linkStart here target) (Path.segments target ++ rest) := by
  have hgoes' : (rest.isEmpty && !follow) = false := by
    rcases hgoes with rfl | hne
    · simp
    · simp [hne]
  rw [walk_naming hhere hsegment, hentry]
  simp [hgoes']

/-- A walk that arrives is a passage, if the walks behind links are. -/
theorem exists_passage_of_walk {limit : Nat}
    (hexpand : ∀ here todo place node, expand here todo = .at place node →
      ∃ k, k < limit ∧ Passage root here todo k place ∧ root.get? place = some node)
    (h : walk root true expand here todo = .at place node) :
    ∃ k, k ≤ limit ∧ Passage root here todo k place ∧ root.get? place = some node := by
  induction todo generalizing here with
  | nil =>
    rw [walk] at h
    cases hnode : root.get? here with
    | none => simp [hnode] at h
    | some node' =>
      obtain ⟨rfl, rfl⟩ : here = place ∧ node' = node := by simpa [hnode] using h
      exact ⟨0, by omega, .stay here, hnode⟩
  | cons segment rest ih =>
    obtain ⟨es, hhere⟩ := exists_directory_of_walk h
    by_cases hblank : segment = "" ∨ segment = "."
    · rw [walk_blank hhere hblank] at h
      obtain ⟨k, hk, hpassage, hnode⟩ := ih h
      exact ⟨k, hk, .blank hhere hblank hpassage, hnode⟩
    · by_cases hup : segment = ".."
      · subst hup
        rw [walk_up hhere] at h
        obtain ⟨k, hk, hpassage, hnode⟩ := ih h
        exact ⟨k, hk, .up hhere hpassage, hnode⟩
      · rw [not_or] at hblank
        have hsegment : Naming segment := ⟨hblank.1, hblank.2, hup⟩
        cases hentry : es.lookup segment with
        | none => simp [walk_naming hhere hsegment, hentry] at h
        | some entry =>
          by_cases hlink : ∃ target, entry = .link target
          · obtain ⟨target, rfl⟩ := hlink
            rw [walk_follow hhere hsegment hentry (Or.inl rfl)] at h
            obtain ⟨n, hn, hpassage, hnode⟩ := hexpand _ _ _ _ h
            obtain ⟨mid, k, m, rfl, htarget, hrest⟩ := hpassage.split
            exact ⟨k + m + 1, by omega, .follow hhere hsegment hentry htarget hrest, hnode⟩
          · have hentry' : ∀ target, entry ≠ .link target := fun target heq => hlink ⟨target, heq⟩
            rw [walk_enter hhere hsegment hentry hentry'] at h
            obtain ⟨k, hk, hpassage, hnode⟩ := ih h
            exact ⟨k, hk, .enter hhere hsegment hentry hentry' hpassage, hnode⟩

theorem exists_passage_of_walkLinks (limit : Nat) (h : walkLinks root true limit here todo = .at place node) :
    ∃ k, k ≤ limit ∧ Passage root here todo k place ∧ root.get? place = some node := by
  induction limit generalizing here todo place node with
  | zero =>
    refine exists_passage_of_walk (fun here todo place node harrives => ?_) h
    cases harrives
  | succ limit ih =>
    refine exists_passage_of_walk (fun here todo place node harrives => ?_) h
    obtain ⟨k, hk, hpassage⟩ := ih harrives
    exact ⟨k, by omega, hpassage⟩

theorem walkLinks_eq_walk (root : FileTree) (follow : Bool) (limit : Nat) :
    ∃ expand, walkLinks root follow limit = walk root follow expand := by
  cases limit with
  | zero => exact ⟨_, rfl⟩
  | succ limit => exact ⟨_, rfl⟩

/-- A walk goes along a passage, and on from where it comes to. Whether the last link of a walk is followed plays no role
while something is left. -/
theorem walkLinks_of_passage {limit : Nat} (h : Passage root here todo k mid) (hk : k ≤ limit) (hrest : rest ≠ []) :
    walkLinks root follow limit here (todo ++ rest) = walkLinks root follow (limit - k) mid rest := by
  induction h generalizing limit rest with
  | stay here => rfl
  | blank hhere hsegment _ ih =>
    rw [← ih hk hrest]
    obtain ⟨expand, hwalk⟩ := walkLinks_eq_walk root follow limit
    rw [hwalk, List.cons_append, walk_blank hhere hsegment]
  | up hhere _ ih =>
    rw [← ih hk hrest]
    obtain ⟨expand, hwalk⟩ := walkLinks_eq_walk root follow limit
    rw [hwalk, List.cons_append, walk_up hhere]
  | enter hhere hsegment hentry hnode _ ih =>
    rw [← ih hk hrest]
    obtain ⟨expand, hwalk⟩ := walkLinks_eq_walk root follow limit
    rw [hwalk, List.cons_append, walk_enter hhere hsegment hentry hnode]
  | @follow here todo mid place segment target k n es hhere hsegment hentry _ _ ihtarget ihrest =>
    obtain ⟨limit, rfl⟩ : ∃ m, limit = m + 1 := ⟨limit - 1, by omega⟩
    have hleft : todo ++ rest ≠ [] := List.append_ne_nil_of_right_ne_nil _ hrest
    rw [walkLinks, List.cons_append, walk_follow hhere hsegment hentry (Or.inr hleft), ihtarget (by omega) hleft,
      ihrest (by omega) hrest]
    congr 1
    omega

/-- A walk that does not follow its last link ends at a link if there is one. -/
theorem walkLinks_link_iff {limit : Nat} (hhere : root.get? here = some (.directory es)) (hsegment : Naming segment) :
    (∃ place target, walkLinks root false limit here [segment] = .at place (.link target)) ↔
      ∃ target, es.lookup segment = some (.link target) := by
  obtain ⟨expand, hwalk⟩ := walkLinks_eq_walk root false limit
  have hnode : root.get? (here ++ [segment]) = es.lookup segment := get?_concat hhere
  rw [hwalk, walk_naming hhere hsegment]
  cases hentry : es.lookup segment with
  | none => simp
  | some entry =>
    rw [hentry] at hnode
    cases entry with
    | link target => simp
    | file content time => simp [walk, hnode]
    | directory entries => simp [walk, hnode]

end Walks

/-! ## Counting links -/

mutual

/-- The places of the links of a tree. -/
def linkPlaces : FileTree → List (List String)
  | .file _ _ => []
  | .link _ => [[]]
  | .directory es => linkPlacesList es

/-- The places of the links of the entries of a directory. -/
def linkPlacesList : List (String × FileTree) → List (List String)
  | [] => []
  | e :: es => linkPlacesEntry e ++ linkPlacesList es

/-- The places of the links of an entry. -/
def linkPlacesEntry : String × FileTree → List (List String)
  | (name, t) => (linkPlaces t).map (name :: ·)

end

mutual

theorem length_linkPlaces : (t : FileTree) → t.linkPlaces.length = t.linkCount
  | .file _ _ => rfl
  | .link _ => rfl
  | .directory es => by
    rw [linkPlaces, linkCount]
    exact length_linkPlacesList es

theorem length_linkPlacesList : (es : List (String × FileTree)) → (linkPlacesList es).length = linkCountList es
  | [] => rfl
  | e :: es => by
    rw [linkPlacesList, linkCountList, List.length_append, length_linkPlacesEntry e, length_linkPlacesList es]

theorem length_linkPlacesEntry : (e : String × FileTree) → (linkPlacesEntry e).length = linkCountEntry e
  | (name, t) => by
    rw [linkPlacesEntry, linkCountEntry, List.length_map]
    exact length_linkPlaces t

end

theorem mem_linkPlacesList {name : String} {t : FileTree} (hentry : (name, t) ∈ es) (hplace : place ∈ t.linkPlaces) :
    name :: place ∈ linkPlacesList es := by
  induction es with
  | nil => cases hentry
  | cons e es ih =>
    rw [linkPlacesList, List.mem_append]
    rcases List.mem_cons.mp hentry with rfl | hentry
    · exact Or.inl (List.mem_map_of_mem hplace)
    · exact Or.inr (ih hentry)

theorem mem_linkPlaces (h : root.get? place = some (.link target)) : place ∈ root.linkPlaces := by
  induction place generalizing root with
  | nil =>
    obtain rfl : root = .link target := by simpa [get?] using h
    exact List.mem_singleton_self _
  | cons name place ih =>
    cases root with
    | directory es =>
      rw [get?, Option.bind_eq_some_iff] at h
      obtain ⟨t, hlookup, ht⟩ := h
      obtain ⟨before, after, rfl, -⟩ := List.lookup_eq_some_iff.mp hlookup
      exact mem_linkPlacesList (List.mem_append_right before List.mem_cons_self) (ih ht)
    | file content time => simp [get?] at h
    | link other => simp [get?] at h

/-- A tree holds as many links as it counts. -/
theorem length_le_linkCount {links : List (List String)} (hnodup : links.Nodup)
    (hlinks : ∀ link ∈ links, ∃ target, root.get? link = some (.link target)) : links.length ≤ root.linkCount := by
  rw [← length_linkPlaces]
  refine (hnodup.subperm fun link hlink => ?_).length_le
  obtain ⟨target, htarget⟩ := hlinks link hlink
  exact mem_linkPlaces htarget

/-! ## Canonical places -/

section Canonical

variable {expand : List String → List String → List String → Except String (List String)}

theorem realWalk_blank (hsegment : segment = "" ∨ segment = ".") :
    realWalk root expand here (segment :: rest) = realWalk root expand here rest := by
  rw [realWalk]
  simp [hsegment]

theorem realWalk_up : realWalk root expand here (".." :: rest) = realWalk root expand here.dropLast rest := by
  rw [realWalk]
  rfl

theorem realWalk_enter (hsegment : Naming segment)
    (hnode : ∀ target, root.get? (here ++ [segment]) ≠ some (.link target)) :
    realWalk root expand here (segment :: rest) = realWalk root expand (here ++ [segment]) rest := by
  rw [realWalk]
  simp [hsegment.ne_empty, hsegment.ne_dot, hsegment.ne_dots]

theorem realWalk_follow (hsegment : Naming segment) (hnode : root.get? (here ++ [segment]) = some (.link target))
    (hexpand : expand (here ++ [segment]) (linkStart here target) (Path.segments target) = .ok mid) :
    realWalk root expand here (segment :: rest) = realWalk root expand mid rest := by
  unfold linkStart at hexpand
  rw [realWalk]
  simp only [beq_iff_eq, Bool.or_eq_true, hsegment.ne_empty, hsegment.ne_dot, hsegment.ne_dots, or_self, if_false, hnode,
    hexpand]

/-- How many links are passed through the target of a link. -/
def LinkCost (root : FileTree) (link : List String) (k : Nat) : Prop :=
  ∃ here segment target place, link = here ++ [segment] ∧ root.get? link = some (.link target) ∧
    Passage root (linkStart here target) (Path.segments target) k place

theorem LinkCost.unique {link : List String} {k' : Nat} (h : LinkCost root link k) (h' : LinkCost root link k') :
    k = k' := by
  obtain ⟨here, segment, target, place, rfl, hnode, hpassage⟩ := h
  obtain ⟨here', segment', target', place', hlink, hnode', hpassage'⟩ := h'
  obtain ⟨rfl, -⟩ := List.append_inj' hlink rfl
  rw [hnode, Option.some.injEq, link.injEq] at hnode'
  subst hnode'
  exact (hpassage.unique hpassage').1

/-- The canonical place at the end of a passage is where it comes to. No link is met that is being followed, since more
links are passed through the target of each of those than are left to pass. -/
theorem realLinks_of_passage {m : Nat} {following : List (List String)} (h : Passage root here todo k place)
    (hnodup : following.Nodup) (hcost : ∀ link ∈ following, ∃ c, k ≤ c ∧ LinkCost root link c)
    (hfuel : root.linkCount < following.length + m) : realLinks root m following here todo = .ok place := by
  induction h generalizing m following with
  | stay here => cases m <;> rfl
  | blank hhere hsegment _ ih =>
    rw [← ih hnodup hcost hfuel]
    cases m <;> exact realWalk_blank hsegment
  | up hhere _ ih =>
    rw [← ih hnodup hcost hfuel]
    cases m <;> exact realWalk_up
  | @enter here todo place segment n es node hhere hsegment hentry hnode _ ih =>
    have hnode' : ∀ target, root.get? (here ++ [segment]) ≠ some (.link target) := by
      intro target heq
      rw [get?_concat hhere, hentry, Option.some.injEq] at heq
      exact hnode target heq
    rw [← ih hnodup hcost hfuel]
    cases m <;> exact realWalk_enter hsegment hnode'
  | @follow here todo mid place segment target k n es hhere hsegment hentry htarget _ ihtarget ihrest =>
    have hlink : root.get? (here ++ [segment]) = some (.link target) := by rw [get?_concat hhere, hentry]
    have hown : LinkCost root (here ++ [segment]) k := ⟨here, segment, target, mid, rfl, hlink, htarget⟩
    have hnew : here ++ [segment] ∉ following := by
      intro hmem
      obtain ⟨c, hc, hcost⟩ := hcost _ hmem
      have := hcost.unique hown
      omega
    have hcount : following.length ≤ root.linkCount := by
      refine length_le_linkCount hnodup fun link hmem => ?_
      obtain ⟨c, -, _, _, target, _, _, hnode, _⟩ := hcost link hmem
      exact ⟨target, hnode⟩
    obtain ⟨m, rfl⟩ : ∃ m', m = m' + 1 := ⟨m - 1, by omega⟩
    have hmid : realLinks root m ((here ++ [segment]) :: following) (linkStart here target) (Path.segments target) =
        .ok mid := by
      refine ihtarget (List.nodup_cons.mpr ⟨hnew, hnodup⟩) (List.forall_mem_cons.mpr ⟨⟨k, le_refl k, hown⟩, ?_⟩) ?_
      · intro link hmem
        obtain ⟨c, hc, hcost⟩ := hcost link hmem
        exact ⟨c, by omega, hcost⟩
      · rw [List.length_cons]
        omega
    have hlater : ∀ link ∈ following, ∃ c, n ≤ c ∧ LinkCost root link c := by
      intro link hmem
      obtain ⟨c, hc, hcost⟩ := hcost link hmem
      exact ⟨c, by omega, hcost⟩
    rw [← ihrest hnodup hlater hfuel]
    refine realWalk_follow hsegment hlink ?_
    simp [hnew, hmid]

/-- **The canonical path of a path that leads somewhere is the place where it leads.** -/
theorem realPlace_of_passage {path : String} (h : Passage root [] (Path.segments path) k place) :
    root.realPlace path = .ok place :=
  realLinks_of_passage h List.nodup_nil (by simp) (by simp)

end Canonical

/-! ## The last link -/

/-- Segments that are written as a normal form keeps them, or are empty. -/
def Tidy (todo : List String) : Prop :=
  ∀ s ∈ todo, s = "" ∨ Plain s

/-- The segments that are not empty. -/
def solid (todo : List String) : List String :=
  todo.filter (· != "")

theorem naming_of_plain (h : Plain segment) : Naming segment :=
  ⟨h.ne_empty, h.ne_dot, h.ne_dots⟩

/-- Where no link is passed, a tidy path leads where it says. -/
theorem Passage.eq_append_solid (h : Passage root here todo 0 place) (htidy : Tidy todo) : place = here ++ solid todo := by
  generalize hn : 0 = n at h
  induction h with
  | stay here => simp [solid]
  | @blank _ _ _ s _ _ _ hsegment _ ih =>
    rw [Tidy, List.forall_mem_cons] at htidy
    have hempty : s = "" := by
      rcases hsegment with hempty | hdot
      · exact hempty
      · exact htidy.1.resolve_right fun hplain => hplain.ne_dot hdot
    rw [ih htidy.2 hn]
    simp [solid, hempty]
  | up _ _ ih =>
    rw [Tidy, List.forall_mem_cons] at htidy
    rcases htidy.1 with hempty | hplain
    · exact absurd hempty (by decide)
    · exact absurd rfl hplain.ne_dots
  | enter _ hnaming _ _ _ ih =>
    rw [Tidy, List.forall_mem_cons] at htidy
    rw [ih htidy.2 hn]
    simp [solid, hnaming.ne_empty]
  | follow => omega

/-- A way that passes a link, and behind it no other. -/
inductive BehindLink (root : FileTree) (here todo place : List String) : Prop
  | intro {front back mid past : List String} {segment target : String} {k m : Nat} {es : List (String × FileTree)}
      (hcut : todo = front ++ segment :: back) (hfront : Passage root here front k mid)
      (hmid : root.get? mid = some (.directory es)) (hsegment : Naming segment)
      (hentry : es.lookup segment = some (.link target)) (hpast : Passage root here (front ++ [segment]) m past)
      (hback : Passage root past back 0 place)

/-- The last link of a way is also that of a longer way. -/
theorem BehindLink.cons (hstep : Passage root here [segment] k mid) (h : BehindLink root mid rest place) :
    BehindLink root here (segment :: rest) place := by
  obtain ⟨rfl, hfront, hmid, hsegment, hentry, hpast, hback⟩ := h
  exact ⟨rfl, hstep.append hfront, hmid, hsegment, hentry, hstep.append hpast, hback⟩

/-- A passage passes no link, or there is a last one. -/
theorem Passage.zero_or_behindLink (h : Passage root here todo n place) : n = 0 ∨ BehindLink root here todo place := by
  induction h with
  | stay here => exact Or.inl rfl
  | blank hhere hsegment _ ih => exact ih.imp id (.cons (.blank hhere hsegment (.stay _)))
  | up hhere _ ih => exact ih.imp id (.cons (.up hhere (.stay _)))
  | enter hhere hsegment hentry hnode _ ih => exact ih.imp id (.cons (.enter hhere hsegment hentry hnode (.stay _)))
  | @follow here _ mid _ _ _ _ _ _ hhere hsegment hentry htarget hrest _ ih =>
    have hstep := Passage.follow hhere hsegment hentry htarget (.stay mid)
    rcases ih with rfl | hlast
    · exact Or.inr ⟨rfl, .stay here, hhere, hsegment, hentry, hstep, hrest⟩
    · exact Or.inr (hlast.cons hstep)

end ExportAudit.FileTree
