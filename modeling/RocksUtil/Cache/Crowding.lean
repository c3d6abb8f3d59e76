import RocksUtil.Cache.Runs

/-!
# Counters that wrap

The counter of references of an entry has 32 bits, and nothing bounds the handles that are
given out: lookups bring those of an entry to any number up to `2 ^ 32` (`Resting.crowd`).
With `2 ^ 32` handles the counter is one, and the next `Release` takes the entry for one
that nobody refers to any more (`Resting.release_crowded`).
-/

namespace RocksUtil
namespace Cache
namespace LRUCacheShard

variable {rounding : Rounding} {hashOf : Bytes → UInt32} {session : Session}
  {low high : List Address} {e : Address} {handle : LRUHandle}

/-- A lookup gives out another handle of an entry. -/
theorem Resting.lookup_gives
    (rounding : Rounding)
    (resting : Resting hashOf session low high)
    (found : session.shard.heap e = some handle)
    (inCache : handle.inCache = true)
    (few : session.handles.count e < 2 ^ 32) :
    ∃ shard low' high',
      session.step rounding hashOf (.lookup handle.key) =
        some (.found (some e), ⟨shard, e :: session.handles⟩) ∧
      Resting hashOf ⟨shard, e :: session.handles⟩ low' high' ∧
      shard.heap e = some { handle with refs := handle.refs + 1 } ∧
      shard.deletions = session.shard.deletions := by
  obtain ⟨shard, low', high', run, consistent, nodes, -, keeps, heap, usage⟩ :=
    lookup_present resting.consistent found inCache few
  have stays : low ++ high = [] → low' ++ high' = [] := fun empty => by simp [nodes, empty]
  have resting' := resting.shrink consistent keeps.capacity keeps.highPriPoolRatio
    (by rw [usage]) stays
  refine ⟨shard, low', high', Session.step_eq (by simp [call, run]), resting', ?_,
    keeps.deletions⟩
  rw [heap, Function.update_self]

/-- Lookups give out as many handles of an entry as `2 ^ 32`. -/
theorem Resting.crowd
    (rounding : Rounding)
    (resting : Resting hashOf session low high)
    (found : session.shard.heap e = some handle)
    (inCache : handle.inCache = true)
    (more : Nat)
    (few : session.handles.count e + more ≤ 2 ^ 32) :
    ∃ session' low' high' handle',
      Session.Continues rounding hashOf (fun _ _ => True) session session' ∧
      Resting hashOf session' low' high' ∧
      session'.handles = List.replicate more e ++ session.handles ∧
      session'.shard.heap e = some handle' ∧ handle'.identity = handle.identity ∧
      handle'.inCache = true ∧ session'.shard.deletions = session.shard.deletions := by
  induction more generalizing session low high handle with
  | zero => exact ⟨session, low, high, handle, .refl, resting, rfl, found, rfl, inCache, rfl⟩
  | succ more inductionHypothesis =>
      have admits : session.Admits (.lookup handle.key) := trivial
      obtain ⟨shard, low₁, high₁, steps, resting₁, found₁, deletions₁⟩ :=
        resting.lookup_gives rounding found inCache (by omega)
      have fewer : (e :: session.handles).count e + more ≤ 2 ^ 32 := by
        rw [List.count_cons_self]
        omega
      obtain ⟨session', low', high', handle', continues, resting', handles, found', same,
        inCache', deletions⟩ := inductionHypothesis resting₁ found₁ inCache fewer
      refine ⟨session', low', high', handle', .head admits trivial steps continues, resting',
        ?_, found', same, inCache', deletions.trans deletions₁⟩
      rw [handles, List.replicate_succ']
      simp

/-- A release at `2 ^ 32` handles fails an assertion of `Free`; without the assertion it
calls the deleter of the entry, to which all other handles are still held. -/
theorem Resting.release_crowded
    (rounding : Rounding)
    (resting : Resting hashOf session low high)
    (found : session.shard.heap e = some handle)
    (crowded : session.handles.count e = 2 ^ 32) :
    session.Admits (.release e) ∧ session.shard.release rounding e = none ∧
      ∃ shard, session.shard.releaseWith freeUnchecked rounding e = some shard ∧
        shard.deletions = session.shard.deletions ++ deletionOf session.shard.heap e ∧
        (session.handles.erase e).count e = 2 ^ 32 - 1 := by
  have held : e ∈ session.handles := by
    rw [← List.count_pos_iff, crowded]
    exact Nat.two_pow_pos 32
  have counted := resting.consistent.counted found
  have inCache : handle.inCache = true := (counted.bound.resolve_left (by omega)).1
  rw [inCache] at counted
  have refs : handle.refs = 1 := counted.refs_eq_one_iff.mpr (Or.inr crowded)
  refine ⟨held, release_wrapped rounding resting.consistent found (by omega), ?_⟩
  simp [releaseWith, unref, modify, freeUnchecked, found, refs, inCache, deletionOf,
    List.count_erase_self, crowded]

/-- The insertion of an entry that is held. -/
def heldInsertion : Insertion := ⟨[1], 10, 2, some 7, true, .low, false⟩

/-- An entry of a new shard is given out any number of times, up to `2 ^ 32`. -/
theorem exists_crowded
    (more : Nat)
    (few : 1 + more ≤ 2 ^ 32) :
    ∃ session low high handle,
      session.Reachable Rounding.exact (fun _ => 0) (fun _ _ => True) ∧
      Resting (fun _ => 0) session low high ∧ session.handles.count 1 = 1 + more ∧
      session.shard.heap 1 = some handle ∧ handle.inCache = true ∧
      deletionOf session.shard.heap 1 = [⟨1, 7, [1], 10⟩] ∧
      session.shard.deletions = [] := by
  have start : setUp Rounding.exact (0, false, 0, 0) 3 false 0 = some (new 3 false 0 0) := by
    rw [setUp_eq _ _ _ _ le_rfl, mul_zero, Rounding.round_zero]
  have inserts : (Session.step Rounding.exact (fun _ => 0) ⟨new 3 false 0 0, []⟩
      (.insert heldInsertion)).map (fun result =>
        (result.2.handles, result.2.shard.heap 1, result.2.shard.deletions)) =
          some ([1], some (heldInsertion.entry 0), []) := by
    decide +kernel
  have admits : Session.Admits ⟨new 3 false 0 0, []⟩ (.insert heldInsertion) := by
    decide +kernel
  obtain ⟨⟨answer, held⟩, steps, isHeld⟩ := Option.map_eq_some_iff.mp inserts
  obtain ⟨handles, isRest⟩ := Prod.mk.inj isHeld
  obtain ⟨found, deletions⟩ := Prod.mk.inj isRest
  have reachable : held.Reachable Rounding.exact (fun _ => 0) (fun _ _ => True) :=
    ⟨_, _, _, _, _, le_rfl, start, .step .refl admits trivial steps⟩
  obtain ⟨low, high, resting⟩ := reachable.resting
  have once : held.handles.count 1 = 1 := by
    rw [handles]
    rfl
  obtain ⟨session, low', high', handle, continues, resting', handles', found', same, inCache,
    deletions'⟩ := resting.crowd Rounding.exact found rfl more (by rw [once]; exact few)
  refine ⟨session, low', high', handle,
    ⟨_, _, _, _, _, le_rfl, start, .head admits trivial steps continues⟩, resting', ?_,
    found', inCache, ?_, deletions'.trans deletions⟩
  · rw [handles', List.count_append, List.count_replicate_self, once, Nat.add_comm]
  · rw [deletionOf, found', Option.elim_some, LRUHandle.deleter_eq same,
      LRUHandle.key_eq same, LRUHandle.value_eq same]
    rfl

end LRUCacheShard
end Cache
end RocksUtil
