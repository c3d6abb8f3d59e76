import Mathlib.Data.List.Nodup
import Mathlib.Logic.Function.Basic

/-!
# Chained buckets

An array of buckets, each the head of a null-terminated singly linked chain
through one `next` pointer per node.  A chain is edited through its slots: the
head of a bucket, or the pointer of a node on it.
-/

namespace Chain

variable {α : Type*}

/-- Following `next` from `start` visits `nodes` and then ends. -/
def Linked (next : α → Option α) : Option α → List α → Prop
  | start, [] => start = none
  | start, node :: nodes => start = some node ∧ Linked next (next node) nodes

namespace Linked

variable {next next' : α → Option α} {start : Option α} {nodes : List α}

theorem head?_eq (linked : Linked next start nodes) : start = nodes.head? := by
  cases nodes with
  | nil => exact linked
  | cons node nodes => exact linked.1

/-- A chain only depends on the pointers of its nodes. -/
theorem congr
    (linked : Linked next start nodes)
    (same : ∀ node ∈ nodes, next' node = next node) :
    Linked next' start nodes := by
  induction nodes generalizing start with
  | nil => exact linked
  | cons node nodes inductionHypothesis =>
      refine ⟨linked.1, ?_⟩
      rw [same node (by simp)]
      exact inductionHypothesis linked.2
        (fun other within => same other (List.mem_cons_of_mem _ within))

end Linked

/-- The heads of the buckets and the pointers of the nodes. -/
structure Buckets (α : Type*) where
  /-- The first node of a bucket. -/
  head : Nat → Option α
  /-- The node after a node. -/
  next : α → Option α

/-- A place that holds a pointer of a chain. -/
inductive Slot (α : Type*)
  | head (bucket : Nat)
  | next (node : α)

namespace Buckets

/-- The pointer a slot holds. -/
def read (buckets : Buckets α) : Slot α → Option α
  | .head bucket => buckets.head bucket
  | .next node => buckets.next node

variable [DecidableEq α]

/-- Assign to a slot. -/
def write (buckets : Buckets α) (slot : Slot α) (pointer : Option α) : Buckets α :=
  match slot with
  | .head bucket =>
      { buckets with head := Function.update buckets.head bucket pointer }
  | .next node =>
      { buckets with next := Function.update buckets.next node pointer }

/-- Put a node in front of a bucket. -/
def push (buckets : Buckets α) (bucket : Nat) (node : α) : Buckets α :=
  (buckets.write (.next node) (buckets.head bucket)).write (.head bucket) (some node)

end Buckets

/-- Every bucket is the chain `chains` has for it, and no node is on two. -/
structure Holds (buckets : Buckets α) (chains : Nat → List α) : Prop where
  linked : ∀ bucket, Linked buckets.next (buckets.head bucket) (chains bucket)
  distinct : ∀ bucket, (chains bucket).Nodup
  disjoint : ∀ bucket bucket' node, node ∈ chains bucket → node ∈ chains bucket' →
    bucket = bucket'

/-- The slot that follows `before` in a bucket. -/
def slotAfter (bucket : Nat) (before : List α) : Slot α :=
  match before.getLast? with
  | none => .head bucket
  | some node => .next node

@[simp] theorem slotAfter_nil (bucket : Nat) :
    slotAfter (α := α) bucket [] = .head bucket := rfl

@[simp] theorem slotAfter_concat (bucket : Nat) (before : List α) (node : α) :
    slotAfter bucket (before ++ [node]) = .next node := by
  simp [slotAfter]

/-- The pointers from one node of a chain on spell the rest of the chain. -/
theorem Linked.suffix
    {next : α → Option α}
    {start : Option α}
    {before after : List α}
    {node : α}
    (linked : Linked next start (before ++ node :: after)) :
    Linked next (next node) after := by
  induction before generalizing start with
  | nil => exact linked.2
  | cons head before inductionHypothesis => exact inductionHypothesis linked.2

/-- Redirecting the pointer of a node replaces what follows it. -/
theorem Linked.redirect
    [DecidableEq α]
    {next : α → Option α}
    {start pointer : Option α}
    {before after rest : List α}
    {node : α}
    (linked : Linked next start (before ++ node :: after))
    (distinct : (before ++ node :: rest).Nodup)
    (tail : Linked next pointer rest) :
    Linked (Function.update next node pointer) start (before ++ node :: rest) := by
  induction before generalizing start with
  | nil =>
      refine ⟨linked.1, ?_⟩
      rw [Function.update_self]
      refine tail.congr (fun other within => Function.update_of_ne ?_ _ _)
      rintro rfl
      exact (List.nodup_cons.mp distinct).1 within
  | cons head before inductionHypothesis =>
      refine ⟨linked.1, ?_⟩
      have other : head ≠ node := by
        rintro rfl
        exact (List.nodup_cons.mp distinct).1 (by simp)
      rw [Function.update_of_ne other]
      exact inductionHypothesis linked.2 (List.nodup_cons.mp distinct).2

namespace Holds

variable {buckets : Buckets α} {chains : Nat → List α} {bucket : Nat}
  {before after rest : List α}

/-- What the slot after a part of a chain points to. -/
theorem linked_slotAfter
    (holds : Holds buckets chains)
    (chain : chains bucket = before ++ after) :
    Linked buckets.next (buckets.read (slotAfter bucket before)) after := by
  have linked := holds.linked bucket
  rw [chain] at linked
  rcases List.eq_nil_or_concat before with rfl | ⟨init, last, rfl⟩
  · exact linked
  · rw [List.concat_eq_append, List.append_assoc] at linked
    rw [List.concat_eq_append, slotAfter_concat]
    exact linked.suffix

/-- The chains after one of them is replaced are still apart. -/
theorem disjoint_update
    {chain : List α}
    (holds : Holds buckets chains)
    (elsewhere : ∀ node ∈ chain, ∀ other, node ∈ chains other → other = bucket) :
    ∀ left right node, node ∈ Function.update chains bucket chain left →
      node ∈ Function.update chains bucket chain right → left = right := by
  intro left right node inLeft inRight
  by_cases leftHere : left = bucket <;> by_cases rightHere : right = bucket
  · rw [leftHere, rightHere]
  · subst leftHere
    rw [Function.update_self] at inLeft
    rw [Function.update_of_ne rightHere] at inRight
    exact (elsewhere node inLeft right inRight).symm
  · subst rightHere
    rw [Function.update_self] at inRight
    rw [Function.update_of_ne leftHere] at inLeft
    exact elsewhere node inRight left inLeft
  · rw [Function.update_of_ne leftHere] at inLeft
    rw [Function.update_of_ne rightHere] at inRight
    exact holds.disjoint left right node inLeft inRight

variable [DecidableEq α]

/-- Assigning to the slot after a part of a chain replaces the rest of it. -/
theorem write
    {pointer : Option α}
    (holds : Holds buckets chains)
    (chain : chains bucket = before ++ after)
    (tail : Linked buckets.next pointer rest)
    (distinct : (before ++ rest).Nodup)
    (elsewhere : ∀ node ∈ rest, ∀ other, node ∈ chains other → other = bucket) :
    Holds (buckets.write (slotAfter bucket before) pointer)
      (Function.update chains bucket (before ++ rest)) := by
  refine ⟨?_, ?_, holds.disjoint_update ?_⟩
  · intro other
    have linked := holds.linked other
    by_cases here : other = bucket
    · subst here
      rw [Function.update_self]
      rw [chain] at linked
      rcases List.eq_nil_or_concat before with rfl | ⟨init, last, rfl⟩
      · simpa [Buckets.write] using tail
      · rw [List.concat_eq_append, List.append_assoc] at linked distinct ⊢
        rw [slotAfter_concat]
        exact linked.redirect distinct tail
    · rw [Function.update_of_ne here]
      rcases List.eq_nil_or_concat before with rfl | ⟨init, last, rfl⟩
      · simpa [Buckets.write, here] using linked
      · rw [List.concat_eq_append, slotAfter_concat]
        refine linked.congr (fun node within => Function.update_of_ne ?_ _ _)
        rintro rfl
        exact here (holds.disjoint other bucket node within (by simp [chain]))
  · intro other
    by_cases here : other = bucket
    · subst here
      rw [Function.update_self]
      exact distinct
    · rw [Function.update_of_ne here]
      exact holds.distinct other
  · intro node within other inOther
    rcases List.mem_append.mp within with inBefore | inRest
    · exact holds.disjoint other bucket node inOther (by simp [chain, inBefore])
    · exact elsewhere node inRest other inOther

/-- A pointer of a node on no chain is of no account. -/
theorem write_outside
    {node : α}
    {pointer : Option α}
    (holds : Holds buckets chains)
    (outside : ∀ bucket, node ∉ chains bucket) :
    Holds (buckets.write (.next node) pointer) chains := by
  refine ⟨fun bucket => (holds.linked bucket).congr ?_, holds.distinct, holds.disjoint⟩
  intro other within
  refine Function.update_of_ne ?_ _ _
  rintro rfl
  exact outside bucket within

/-- A node on no chain takes its place after a part of one. -/
theorem splice
    {node : α}
    {pointer : Option α}
    (holds : Holds buckets chains)
    (outside : ∀ bucket, node ∉ chains bucket)
    (chain : chains bucket = before ++ after)
    (suffix : rest <:+ after)
    (tail : Linked buckets.next pointer rest) :
    Holds ((buckets.write (.next node) pointer).write (slotAfter bucket before)
      (some node)) (Function.update chains bucket (before ++ node :: rest)) := by
  obtain ⟨dropped, rfl⟩ := suffix
  have inChain : ∀ other ∈ before ++ rest, other ∈ chains bucket := by
    intro other within
    rw [chain]
    grind
  have distinct : (before ++ (dropped ++ rest)).Nodup := chain ▸ holds.distinct bucket
  have notNode : ∀ other ∈ before ++ rest, other ≠ node := by
    rintro other within rfl
    exact outside bucket (inChain other within)
  refine (holds.write_outside outside).write chain ⟨rfl, ?_⟩ ?_ ?_
  · have pointsTo : (buckets.write (.next node) pointer).next node = pointer :=
      Function.update_self ..
    rw [pointsTo]
    refine tail.congr ?_
    intro other within
    exact Function.update_of_ne (notNode other (by simp [within])) _ _
  · grind
  · intro other within place inPlace
    rcases List.mem_cons.mp within with rfl | inRest
    · exact absurd inPlace (outside place)
    · exact holds.disjoint place bucket other inPlace (inChain other (by simp [inRest]))

/-- A node pushed in front of a bucket. -/
theorem push
    {node : α}
    (holds : Holds buckets chains)
    (outside : ∀ bucket, node ∉ chains bucket) :
    Holds (buckets.push bucket node)
      (Function.update chains bucket (node :: chains bucket)) :=
  holds.splice outside (List.nil_append _).symm (List.suffix_refl _)
    (holds.linked bucket)

end Holds
end Chain
