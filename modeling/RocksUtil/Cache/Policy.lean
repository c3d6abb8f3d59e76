import RocksUtil.Cache.Runs

/-!
# The policy of the cache

A cache without pointers, flags and running sums: a map from keys to entries, how
often each entry is pinned, and the entries in use by nobody in the order in which
they came to be so.  This is what a shard without a high-pri pool is meant to be.
-/

namespace RocksUtil
namespace Cache

open LRUCacheShard (Op Answer Insertion evictable)

/-- What an entry is inserted with. -/
structure Entry where
  key : Bytes
  value : Pointer
  charge : Nat
  deleter : Option Pointer
  deriving DecidableEq, Repr

/-- What a handle was inserted with. -/
def LRUHandle.toEntry (handle : LRUHandle) : Entry :=
  ⟨handle.key, handle.value, handle.charge.toNat, handle.deleter⟩

/-- What the policy sees of a handle. -/
def LRUHandle.view (handle : LRUHandle) : Entry × Bool := (handle.toEntry, handle.inCache)

/-- The state of the policy. -/
structure Policy where
  capacity : Nat
  strictCapacityLimit : Bool
  /-- The entry for each key. -/
  map : Bytes → Option Address
  /-- The entries that are alive: in the map, or pinned. -/
  entries : Address → Option Entry
  /-- How many handles to an entry are given out. -/
  pins : Address → Nat
  /-- The entries in the map that are not pinned, the oldest first. -/
  recency : List Address
  /-- The name of the next entry. -/
  next : Address
  /-- The deleter calls made so far, in order. -/
  deletions : List Deletion

namespace Policy

/-- A cache without entries. -/
def new (capacity : Nat) (strictCapacityLimit : Bool) : Policy where
  capacity := capacity
  strictCapacityLimit := strictCapacityLimit
  map := fun _ => none
  entries := fun _ => none
  pins := fun _ => 0
  recency := []
  next := 1
  deletions := []

/-- The charge of an entry that is alive. -/
def chargeOf (policy : Policy) (e : Address) : Nat :=
  (policy.entries e).elim 0 Entry.charge

/-- The charges of all entries. -/
def usage (policy : Policy) : Nat :=
  ∑ e ∈ Finset.range policy.next, policy.chargeOf e

/-- The charges of the pinned entries. -/
def pinnedUsage (policy : Policy) : Nat :=
  ∑ e ∈ Finset.range policy.next, if 0 < policy.pins e then policy.chargeOf e else 0

/-- The call of its deleter that ends the life of an entry. -/
def deletion (e : Address) (entry : Entry) : List Deletion :=
  (entry.deleter.map (⟨e, ·, entry.key, entry.value⟩)).toList

/-- End the lives of entries, one after another. -/
def drop (policy : Policy) (gone : List Address) : Policy :=
  { policy with
    map := fun key => (policy.map key).filter (· ∉ gone)
    entries := fun e => if e ∈ gone then none else policy.entries e
    recency := policy.recency.filter (· ∉ gone)
    deletions := policy.deletions ++
      gone.flatMap (fun e => (policy.entries e).elim [] (deletion e)) }

/-- The shortest part of the recency list, the oldest first, without which `charge`
fits, or all of it. -/
def victims (policy : Policy) (charge : Nat) : List Address :=
  evictable policy.capacity charge policy.chargeOf policy.usage policy.recency

/-- Erase the entry for a key.  It lives on while it is pinned. -/
def erase (policy : Policy) (key : Bytes) : Policy :=
  match policy.map key with
  | none => policy
  | some e =>
      if policy.pins e = 0 then policy.drop [e]
      else { policy with map := Function.update policy.map key none }

/-- The victims are the oldest entries; without them the charge fits, or none are left;
and without fewer of them it does not fit. -/
theorem victims_shortest (policy : Policy) (charge : Nat) :
    policy.victims charge <+: policy.recency ∧
      (policy.usage - ((policy.victims charge).map policy.chargeOf).sum + charge ≤
        policy.capacity ∨ policy.victims charge = policy.recency) ∧
      ∀ fewer, fewer <+: policy.victims charge → fewer ≠ policy.victims charge →
        policy.capacity < policy.usage - (fewer.map policy.chargeOf).sum + charge := by
  rw [victims]
  generalize policy.usage = usage
  induction policy.recency generalizing usage with
  | nil => simp [evictable]
  | cons e nodes inductionHypothesis =>
      by_cases exceeds : usage + charge > policy.capacity
      · obtain ⟨isPrefix, fits, shortest⟩ := inductionHypothesis (usage - policy.chargeOf e)
        rw [evictable, if_pos exceeds]
        refine ⟨(List.prefix_cons_inj e).mpr isPrefix, ?_, ?_⟩
        · simpa [Nat.sub_sub] using fits
        · intro fewer isFewer differs
          cases fewer with
          | nil => simpa using exceeds
          | cons e' fewer =>
              obtain ⟨rfl, isFewer⟩ := List.cons_prefix_cons.mp isFewer
              have later := shortest fewer isFewer (fun same => differs (by rw [same]))
              simpa [Nat.sub_sub] using later
      · rw [evictable, if_neg exceeds]
        refine ⟨List.nil_prefix, Or.inl (by simpa using exceeds), ?_⟩
        intro fewer isFewer differs
        exact absurd (List.prefix_nil.mp isFewer) differs

/-- Enter a new entry in place of the one for its key. -/
def enter (policy : Policy) (entry : Entry) (pinned : Bool) : Policy :=
  let policy := policy.erase entry.key
  { policy with
    map := Function.update policy.map entry.key (some policy.next)
    entries := Function.update policy.entries policy.next (some entry)
    pins := Function.update policy.pins policy.next (if pinned then 1 else 0)
    recency := policy.recency ++ (if pinned then [] else [policy.next])
    next := policy.next + 1 }

/-- Insert an entry, after making room for it.  If what is pinned leaves no room, an
insertion that asks for a handle is rejected under a strict limit, and one that does
not is dropped at once. -/
protected def insert (policy : Policy) (insertion : Insertion) : Answer × Policy :=
  let entry : Entry :=
    ⟨insertion.key, insertion.value, insertion.charge.toNat, insertion.deleter⟩
  let evicted := policy.drop (policy.victims entry.charge)
  if policy.capacity < policy.pinnedUsage + entry.charge ∧
      (policy.strictCapacityLimit = true ∨ insertion.handle = false) then
    if insertion.handle then
      (.inserted (Status.Incomplete "Insert failed due to LRU cache being full.") none,
        { evicted with next := policy.next + 1 })
    else
      (.inserted Status.OK none,
        { evicted with
          next := policy.next + 1
          deletions := evicted.deletions ++ deletion policy.next entry })
  else
    (.inserted Status.OK (if insertion.handle then some policy.next else none),
      evicted.enter entry insertion.handle)

/-- Look up a key and pin its entry. -/
def lookup (policy : Policy) (key : Bytes) : Answer × Policy :=
  match policy.map key with
  | none => (.found none, policy)
  | some e =>
      (.found (some e), { policy with
        pins := Function.update policy.pins e (policy.pins e + 1)
        recency := policy.recency.erase e })

/-- Whether the map still leads to an entry. -/
def mapped (policy : Policy) (e : Address) : Bool :=
  (policy.entries e).any (fun entry => policy.map entry.key = some e)

/-- Release a handle.  With the last one the entry becomes the most recent, if the map
leads to it, and ends its life if not. -/
def releaseKeeping (policy : Policy) (e : Address) : Policy :=
  let released :=
    { policy with pins := Function.update policy.pins e (policy.pins e - 1) }
  if policy.pins e = 1 then
    if policy.mapped e then { released with recency := policy.recency ++ [e] }
    else released.drop [e]
  else
    released

/-- The same, but with the capacity exceeded the last release ends the life of the
entry in any case. -/
def release (policy : Policy) (e : Address) : Policy :=
  let released :=
    { policy with pins := Function.update policy.pins e (policy.pins e - 1) }
  if policy.pins e = 1 ∧ policy.capacity < policy.usage then released.drop [e]
  else policy.releaseKeeping e

section Release

variable {policy : Policy} {e : Address}

theorem release_of_dropped
    (last : policy.pins e = 1)
    (dropped : policy.capacity < policy.usage ∨ policy.mapped e = false) :
    policy.release e = Policy.drop
      { policy with pins := Function.update policy.pins e (policy.pins e - 1) } [e] := by
  by_cases overfull : policy.capacity < policy.usage
  · simp only [release, last, overfull, and_self, if_true]
  · simp [release, releaseKeeping, last, overfull, dropped.resolve_left overfull]

theorem release_of_mapped
    (last : policy.pins e = 1)
    (fits : ¬ policy.capacity < policy.usage)
    (isMapped : policy.mapped e = true) :
    policy.release e = { policy with
      pins := Function.update policy.pins e (policy.pins e - 1)
      recency := policy.recency ++ [e] } := by
  simp [release, releaseKeeping, last, fits, isMapped]

theorem release_of_shared (shared : policy.pins e ≠ 1) :
    policy.release e =
      { policy with pins := Function.update policy.pins e (policy.pins e - 1) } := by
  simp [release, releaseKeeping, shared]

end Release

/-- Change the capacity, and make room. -/
def setCapacity (policy : Policy) (capacity : Nat) : Policy :=
  let policy := { policy with capacity := capacity }
  policy.drop (policy.victims 0)

/-- Make a call.  How a handle is released is a parameter. -/
def step (releases : Policy → Address → Policy) (policy : Policy) : Op → Answer × Policy
  | .insert insertion => policy.insert insertion
  | .lookup key => policy.lookup key
  | .release e => (.done, releases policy e)
  | .erase key => (.done, policy.erase key)
  | .setCapacity capacity => (.done, policy.setCapacity capacity.toNat)
  | .setStrictCapacityLimit strictCapacityLimit =>
      (.done, { policy with strictCapacityLimit := strictCapacityLimit })
  | .setHighPriorityPoolRatio _ => (.done, policy)
  | .eraseUnRefEntries => (.done, policy.drop policy.recency)

end Policy

/-- What can be seen of a call: its answer, and then `GetUsage`, `GetPinnedUsage` and
the deleter calls made so far. -/
structure Observation where
  answer : Answer
  usage : Nat
  pinnedUsage : Nat
  deletions : List Deletion
  deriving DecidableEq, Repr

/-- What can be seen of a sequence of calls. -/
def Policy.observations (releases : Policy → Address → Policy) :
    Policy → List Op → List Observation
  | _, [] => []
  | policy, op :: ops =>
      let (answer, policy) := policy.step releases op
      ⟨answer, policy.usage, policy.pinnedUsage, policy.deletions⟩ ::
        observations releases policy ops

/-- What can be seen of a sequence of calls made to a shard. -/
def LRUCacheShard.Session.observations
    (rounding : Rounding)
    (hashOf : Bytes → UInt32) : Session → List Op → Option (List Observation)
  | _, [] => some []
  | session, op :: ops => do
      let (answer, session) ← session.step rounding hashOf op
      let pinnedUsage ← session.shard.getPinnedUsage
      let rest ← observations rounding hashOf session ops
      some (⟨answer, session.shard.getUsage.toNat, pinnedUsage.toNat,
        session.shard.deletions⟩ :: rest)

end Cache
end RocksUtil
