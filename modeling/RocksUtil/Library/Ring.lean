import Mathlib.Data.List.Nodup
import Mathlib.Logic.Function.Basic

/-!
# Circular doubly linked lists

Two pointers per node, and a dummy node that the list starts and ends at.  A
`Segment` is what lies between two nodes; a ring is a segment from the dummy
node to itself, with every pointer outside of it null.  Taking a node out and
putting one in are pointer assignments, and their lemmas say which list the
pointers spell afterwards.
-/

namespace Ring

variable {α : Type*}

/-- The two pointers of every node. -/
structure Links (α : Type*) where
  /-- The node after a node. -/
  next : α → Option α
  /-- The node before a node. -/
  prev : α → Option α

/-- The nodes `nodes` lie between `first` and `last`. -/
def Segment (links : Links α) (first : α) : List α → α → Prop
  | [], last => links.next first = some last ∧ links.prev last = some first
  | node :: nodes, last =>
      links.next first = some node ∧ links.prev node = some first ∧
        Segment links node nodes last

namespace Segment

variable {links links' : Links α} {first last node : α} {before after : List α}

theorem append_cons :
    Segment links first (before ++ node :: after) last ↔
      Segment links first before node ∧ Segment links node after last := by
  induction before generalizing first with
  | nil => simp [Segment, and_assoc]
  | cons head before inductionHypothesis =>
      simp [Segment, inductionHypothesis, and_assoc]

/-- The first step of a segment leads to its first node. -/
theorem next_first
    (segment : Segment links first after last) :
    links.next first = some (after.headD last) := by
  cases after with
  | nil => exact segment.1
  | cons head after => exact segment.1

/-- The last step of a segment leads back to its last node. -/
theorem prev_last
    (segment : Segment links first before last) :
    links.prev last = some (before.getLastD first) := by
  induction before generalizing first with
  | nil => exact segment.2
  | cons head before inductionHypothesis =>
      simpa only [List.getLastD_cons] using inductionHypothesis segment.2.2

/-- A segment is two segments that share their middle step. -/
theorem append :
    Segment links first (before ++ after) last ↔
      Segment links first before (after.headD last) ∧
        Segment links (before.getLastD first) after last := by
  induction before generalizing first with
  | nil =>
      refine ⟨fun segment => ⟨?_, segment⟩, And.right⟩
      cases after with
      | nil => exact segment
      | cons head after => exact ⟨segment.1, segment.2.1⟩
  | cons head before inductionHypothesis =>
      simp only [List.cons_append, Segment, List.getLastD_cons, inductionHypothesis,
        and_assoc]

/-- A segment only depends on the pointers along it. -/
theorem congr
    (segment : Segment links first before last)
    (sameNext : ∀ other ∈ first :: before, links'.next other = links.next other)
    (samePrev : ∀ other ∈ before ++ [last], links'.prev other = links.prev other) :
    Segment links' first before last := by
  induction before generalizing first with
  | nil =>
      exact ⟨(sameNext first (by simp)).trans segment.1,
        (samePrev last (by simp)).trans segment.2⟩
  | cons head before inductionHypothesis =>
      refine ⟨(sameNext first (by simp)).trans segment.1,
        (samePrev head (by simp)).trans segment.2.1, ?_⟩
      exact inductionHypothesis segment.2.2
        (fun other within => sameNext other (List.mem_cons_of_mem _ within))
        (fun other within => samePrev other (List.mem_cons_of_mem _ within))

/-- A segment is led to another end by redirecting its last step. -/
theorem redirect_last
    {last' : α}
    (segment : Segment links first before last)
    (distinct : (first :: before).Nodup)
    (sameNext : ∀ other ∈ first :: before, other ≠ before.getLastD first →
      links'.next other = links.next other)
    (samePrev : ∀ other ∈ before, links'.prev other = links.prev other)
    (next : links'.next (before.getLastD first) = some last')
    (prev : links'.prev last' = some (before.getLastD first)) :
    Segment links' first before last' := by
  induction before generalizing first with
  | nil => exact ⟨next, prev⟩
  | cons head before inductionHypothesis =>
      rw [List.getLastD_cons] at sameNext next prev
      have notLast : first ≠ before.getLastD head := by
        intro equal
        apply (List.nodup_cons.mp distinct).1
        rw [equal]
        exact List.getLastD_mem_cons ..
      refine ⟨(sameNext first (by simp) notLast).trans segment.1,
        (samePrev head (by simp)).trans segment.2.1, ?_⟩
      exact inductionHypothesis segment.2.2 (List.nodup_cons.mp distinct).2
        (fun other within => sameNext other (List.mem_cons_of_mem _ within))
        (fun other within => samePrev other (List.mem_cons_of_mem _ within))
        next prev

/-- A segment is led from another start by redirecting its first step. -/
theorem redirect_first
    {first' : α}
    (segment : Segment links first after last)
    (distinct : (after ++ [last]).Nodup)
    (sameNext : ∀ other ∈ after, links'.next other = links.next other)
    (samePrev : ∀ other ∈ after ++ [last], other ≠ after.headD last →
      links'.prev other = links.prev other)
    (next : links'.next first' = some (after.headD last))
    (prev : links'.prev (after.headD last) = some first') :
    Segment links' first' after last := by
  cases after with
  | nil => exact ⟨next, prev⟩
  | cons head after =>
      refine ⟨next, prev, segment.2.2.congr sameNext ?_⟩
      intro other within
      refine samePrev other (List.mem_cons_of_mem _ within) ?_
      rintro rfl
      exact (List.nodup_cons.mp distinct).1 within

end Segment

/-- The ring of `nodes` after the dummy node `dummy`. -/
structure IsRing (links : Links α) (dummy : α) (nodes : List α) : Prop where
  segment : Segment links dummy nodes dummy
  distinct : (dummy :: nodes).Nodup
  null : ∀ node, node ∉ dummy :: nodes →
    links.next node = none ∧ links.prev node = none

namespace IsRing

variable {links : Links α} {dummy node : α} {nodes before after : List α}

theorem next_dummy (ring : IsRing links dummy nodes) :
    links.next dummy = some (nodes.headD dummy) :=
  ring.segment.next_first

theorem prev_dummy (ring : IsRing links dummy nodes) :
    links.prev dummy = some (nodes.getLastD dummy) :=
  ring.segment.prev_last

theorem next_node (ring : IsRing links dummy (before ++ node :: after)) :
    links.next node = some (after.headD dummy) :=
  (Segment.append_cons.mp ring.segment).2.next_first

theorem prev_node (ring : IsRing links dummy (before ++ node :: after)) :
    links.prev node = some (before.getLastD dummy) :=
  (Segment.append_cons.mp ring.segment).1.prev_last

/-- The successor of the last node of a part of the ring. -/
theorem next_last (ring : IsRing links dummy (before ++ after)) :
    links.next (before.getLastD dummy) = some (after.headD dummy) := by
  rcases List.eq_nil_or_concat before with rfl | ⟨init, last, rfl⟩
  · exact ring.next_dummy
  · rw [List.concat_eq_append, List.append_assoc] at ring
    simpa using ring.next_node

end IsRing

section Edit

variable [DecidableEq α]

/-- Take a node with these neighbours out of a list. -/
def Links.unlink (links : Links α) (before node after : α) : Links α where
  next := Function.update (Function.update links.next before (some after)) node none
  prev := Function.update (Function.update links.prev after (some before)) node none

/-- Put a node between two neighbours. -/
def Links.link (links : Links α) (before node after : α) : Links α where
  next := Function.update (Function.update links.next node (some after)) before
    (some node)
  prev := Function.update (Function.update links.prev node (some before)) after
    (some node)

variable {links : Links α} {dummy node : α} {before after : List α}

theorem Links.next_unlink_previous
    {previous following : α}
    (notNode : previous ≠ node) :
    (links.unlink previous node following).next previous = some following := by
  simp [unlink, notNode]

theorem Links.prev_unlink_following
    {previous following : α}
    (notNode : following ≠ node) :
    (links.unlink previous node following).prev following = some previous := by
  simp [unlink, notNode]

theorem Links.next_link_node
    {previous following : α}
    (notPrevious : node ≠ previous) :
    (links.link previous node following).next node = some following := by
  simp [link, notPrevious]

theorem Links.prev_link_node
    {previous following : α}
    (notFollowing : node ≠ following) :
    (links.link previous node following).prev node = some previous := by
  simp [link, notFollowing]

theorem Links.next_unlink_of_ne
    {previous following other : α}
    (notPrevious : other ≠ previous)
    (notNode : other ≠ node) :
    (links.unlink previous node following).next other = links.next other := by
  simp [unlink, notPrevious, notNode]

theorem Links.prev_unlink_of_ne
    {previous following other : α}
    (notFollowing : other ≠ following)
    (notNode : other ≠ node) :
    (links.unlink previous node following).prev other = links.prev other := by
  simp [unlink, notFollowing, notNode]

theorem Links.next_link_of_ne
    {previous following other : α}
    (notPrevious : other ≠ previous)
    (notNode : other ≠ node) :
    (links.link previous node following).next other = links.next other := by
  simp [link, notPrevious, notNode]

theorem Links.prev_link_of_ne
    {previous following other : α}
    (notFollowing : other ≠ following)
    (notNode : other ≠ node) :
    (links.link previous node following).prev other = links.prev other := by
  simp [link, notFollowing, notNode]

/-- Taking a node out of a ring leaves the ring of the others. -/
theorem IsRing.unlink
    (ring : IsRing links dummy (before ++ node :: after)) :
    IsRing (links.unlink (before.getLastD dummy) node (after.headD dummy)) dummy
      (before ++ after) := by
  have distinct := ring.distinct
  obtain ⟨left, right⟩ := Segment.append_cons.mp ring.segment
  have last : before.getLastD dummy ∈ dummy :: before := List.getLastD_mem_cons ..
  have first : after.headD dummy ∈ after ++ [dummy] := by
    cases after <;> simp
  have next : (links.unlink (before.getLastD dummy) node (after.headD dummy)).next
      (before.getLastD dummy) = some (after.headD dummy) :=
    Links.next_unlink_previous (by grind)
  have prev : (links.unlink (before.getLastD dummy) node (after.headD dummy)).prev
      (after.headD dummy) = some (before.getLastD dummy) :=
    Links.prev_unlink_following (by grind)
  refine ⟨Segment.append.mpr ⟨?_, ?_⟩, by grind, ?_⟩
  · refine left.redirect_last (by grind) ?_ ?_ next prev
    · intro other within notLast
      exact Links.next_unlink_of_ne notLast (by grind)
    · intro other within
      exact Links.prev_unlink_of_ne (by grind) (by grind)
  · refine right.redirect_first (by grind) ?_ ?_ next prev
    · intro other within
      exact Links.next_unlink_of_ne (by grind) (by grind)
    · intro other within notFirst
      exact Links.prev_unlink_of_ne notFirst (by grind)
  · intro other outside
    by_cases removed : other = node
    · simp [Links.unlink, removed]
    · rw [Links.next_unlink_of_ne (by grind) removed,
        Links.prev_unlink_of_ne (by grind) removed]
      exact ring.null other (by grind)

/-- Putting a node into a ring makes the ring with it. -/
theorem IsRing.link
    (ring : IsRing links dummy (before ++ after))
    (isNew : node ∉ dummy :: (before ++ after)) :
    IsRing (links.link (before.getLastD dummy) node (after.headD dummy)) dummy
      (before ++ node :: after) := by
  have distinct := ring.distinct
  obtain ⟨left, right⟩ := Segment.append.mp ring.segment
  have last : before.getLastD dummy ∈ dummy :: before := List.getLastD_mem_cons ..
  have first : after.headD dummy ∈ after ++ [dummy] := by
    cases after <;> simp
  have notLast : node ≠ before.getLastD dummy := by grind
  have notFirst : node ≠ after.headD dummy := by grind
  refine ⟨Segment.append_cons.mpr ⟨?_, ?_⟩, by grind, ?_⟩
  · refine left.redirect_last (by grind) ?_ ?_ (Function.update_self ..)
      (Links.prev_link_node notFirst)
    · intro other within notLast
      exact Links.next_link_of_ne notLast (by grind)
    · intro other within
      exact Links.prev_link_of_ne (by grind) (by grind)
  · refine right.redirect_first (by grind) ?_ ?_ (Links.next_link_node notLast)
      (Function.update_self ..)
    · intro other within
      exact Links.next_link_of_ne (by grind) (by grind)
    · intro other within notFirst
      exact Links.prev_link_of_ne notFirst (by grind)
  · intro other outside
    rw [Links.next_link_of_ne (by grind) (by grind),
      Links.prev_link_of_ne (by grind) (by grind)]
    exact ring.null other (by grind)

/-! ## Walking around -/

/-- The nodes from a pointer on, up to the dummy node: what a loop over the list
visits, if it is over in that many turns. -/
def Links.walk (links : Links α) (dummy : α) : Nat → Option α → List α
  | 0, _ => []
  | _ + 1, none => []
  | turns + 1, some node =>
      if node = dummy then [] else node :: walk links dummy turns (links.next node)

theorem Segment.walk
    {nodes : List α}
    {first : α}
    (segment : Segment links first nodes dummy)
    (isDummy : dummy ∉ nodes)
    {turns : Nat}
    (enough : nodes.length < turns) :
    links.walk dummy turns (links.next first) = nodes := by
  induction nodes generalizing first turns with
  | nil =>
      obtain ⟨turns, rfl⟩ : ∃ fewer, turns = fewer + 1 := ⟨turns - 1, by grind⟩
      rw [segment.1, Links.walk, if_pos rfl]
  | cons node nodes inductionHypothesis =>
      obtain ⟨turns, rfl⟩ : ∃ fewer, turns = fewer + 1 := ⟨turns - 1, by grind⟩
      obtain ⟨next, -, rest⟩ := segment
      have notDummy : node ≠ dummy := fun same =>
        isDummy (same ▸ List.mem_cons_self)
      rw [next, Links.walk, if_neg notDummy]
      congr 1
      refine inductionHypothesis rest (fun within => isDummy ?_) (by grind)
      exact List.mem_cons_of_mem _ within

/-- A loop over a ring visits its nodes. -/
theorem IsRing.walk
    {nodes : List α}
    (ring : IsRing links dummy nodes)
    {turns : Nat}
    (enough : nodes.length < turns) :
    links.walk dummy turns (links.next dummy) = nodes :=
  ring.segment.walk (List.nodup_cons.mp ring.distinct).1 enough

end Edit
end Ring
