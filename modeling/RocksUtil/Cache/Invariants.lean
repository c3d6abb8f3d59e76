import RocksUtil.Cache.Crowding

/-!
# The representation invariant and the capacity

What holds of the members of a shard after any sequence of calls: the invariant of
the table, the reference counts, the list and the three sums of charges, as long as no
counter of references has wrapped, and the bound that the capacity puts on the usage.
-/

namespace RocksUtil
namespace Cache
namespace LRUCacheShard

open LRUHandleTable (Represents Finds Stores)

variable {rounding : Rounding} {hashOf : Bytes → UInt32}
  {permitted : Session → Op → Prop} {session session' : Session}
  {low high low' high' : List Address} {op : Op} {answer : Answer}

/-- The charges of the entries that something refers to. -/
def referencedCharge (shard : LRUCacheShard) : Nat :=
  ∑ address ∈ Finset.range shard.fresh, (shard.heap address).elim 0
    (fun handle => if 0 < handle.refs then handle.charge.toNat else 0)

/-- The representation invariant: `chains` are the buckets of the table, `low` is
the low-pri segment of the list and `high` its high-pri pool. -/
structure Invariant
    (session : Session)
    (chains : Nat → List Address)
    (low high : List Address) : Prop where
  /-- The chains of the table, each ending in a null pointer. -/
  chained : ∀ bucket < session.shard.table.length,
    Chain.Linked session.shard.table.buckets.next
      (session.shard.table.buckets.head bucket) (chains bucket)
  /-- Each key occurs at most once in the table. -/
  keys : (((List.range session.shard.table.length).flatMap chains).map
    (fun address => (session.shard.heap address).map LRUHandle.key)).Nodup
  /-- An entry is in the table if and only if it is flagged so. -/
  inTable : ∀ address,
    address ∈ (List.range session.shard.table.length).flatMap chains ↔
      ∃ handle, session.shard.heap address = some handle ∧ handle.inCache = true
  /-- The references: the handles given out, and that of the cache. -/
  refs : ∀ address handle, session.shard.heap address = some handle →
    handle.refs.toNat = session.handles.count address + (if handle.inCache then 1 else 0)
  /-- Every handle given out is to an entry. -/
  held : ∀ address ∈ session.handles, ∃ handle, session.shard.heap address = some handle
  /-- The list, in both directions, with each entry on it once. -/
  list : Ring.IsRing session.shard.links lru (low ++ high)
  /-- The list holds the entries that only the cache refers to. -/
  onList : ∀ address, address ∈ low ++ high ↔ ∃ handle,
    session.shard.heap address = some handle ∧ handle.inCache = true ∧ handle.refs = 1
  /-- Entries are allocated below `fresh`. -/
  allocated : ∀ address handle, session.shard.heap address = some handle →
    address < session.shard.fresh
  usage : session.shard.usage.toNat = referencedCharge session.shard
  lruUsage : session.shard.lruUsage.toNat = listCharge session.shard.heap (low ++ high)
  /-- The low-pri segment ends at `lru_low_pri_`. -/
  lowPri : session.shard.lruLowPri = low.getLastD lru
  /-- The rest are the entries flagged as in the high-pri pool. -/
  highPri : ∀ address ∈ low ++ high, ∃ handle,
    session.shard.heap address = some handle ∧
      (handle.inHighPriPool = true ↔ address ∈ high)
  highPriPoolUsage :
    session.shard.highPriPoolUsage.toNat = listCharge session.shard.heap high

/-- Everything that is accounted for is referred to. -/
theorem Accounts.referencedCharge_eq
    {shard : LRUCacheShard}
    {handles : List Address}
    (accounts : Accounts shard handles ∅ low high)
    (few : ∀ e, handles.count e + 1 < 2 ^ 32) :
    referencedCharge shard = shard.usage.toNat := by
  rw [accounts.usage, totalCharge, Finset.sdiff_empty]
  refine Finset.sum_congr rfl (fun address _ => ?_)
  cases found : shard.heap address with
  | none => simp [chargeAt, found]
  | some handle =>
      have positive := (accounts.counted address handle found (by simp)).pos (few address)
      simp [chargeAt, found, positive]

/-- The entries of the list are those with a counter of one. -/
theorem Resting.mem_list_iff_refs
    (resting : Resting hashOf session low high)
    (uncrowded : session.Uncrowded)
    (address : Address) :
    address ∈ low ++ high ↔ ∃ handle, session.shard.heap address = some handle ∧
      handle.inCache = true ∧ handle.refs = 1 := by
  rw [resting.consistent.accounts.onList address]
  have few := uncrowded.count_lt address
  have unpinned (handle : LRUHandle) (found : session.shard.heap address = some handle)
      (inCache : handle.inCache = true) : handle.refs = 1 ↔ address ∉ session.handles := by
    have counted := resting.consistent.counted found
    rw [inCache] at counted
    rw [counted.refs_eq_one_iff, ← List.count_eq_zero]
    omega
  constructor
  · rintro ⟨handle, found, -, inCache, notHeld⟩
    exact ⟨handle, found, inCache, (unpinned handle found inCache).mpr notHeld⟩
  · rintro ⟨handle, found, inCache, refs⟩
    exact ⟨handle, found, by simp, inCache, (unpinned handle found inCache).mp refs⟩

/-- The invariant holds while the accounts are complete and no counter has wrapped. -/
theorem Resting.invariant
    (resting : Resting hashOf session low high)
    (uncrowded : session.Uncrowded) :
    ∃ chains, Invariant session chains low high := by
  have accounts := resting.consistent.accounts
  obtain ⟨chains, stores, -, members⟩ := resting.consistent.table
  refine ⟨chains, ?_⟩
  exact
    { chained := fun bucket _ => stores.holds.linked bucket
      keys := stores.nodup_keys
      inTable := by
        intro address
        rw [stores.mem_flatMap, ← members address]
        simp [cached]
      refs := fun address handle found =>
        (resting.consistent.counted found).toNat_refs (uncrowded.count_lt address)
      held := fun address within => (accounts.held address within).2
      list := accounts.list.ring
      onList := resting.mem_list_iff_refs uncrowded
      allocated := fun address handle found => (accounts.bounded address handle found).2
      usage := (accounts.referencedCharge_eq uncrowded.count_lt).symm
      lruUsage := accounts.list.lruUsage
      lowPri := accounts.list.lowest
      highPri := accounts.list.flagged
      highPriPoolUsage := accounts.list.highPriPoolUsage }

/-- A counter that counts the handles has not wrapped. -/
theorem Resting.uncrowded_of_invariant
    {chains : Nat → List Address}
    (resting : Resting hashOf session low high)
    (invariant : Invariant session chains low' high') : session.Uncrowded := by
  intro e held
  obtain ⟨handle, found⟩ := invariant.held e held
  have exact := invariant.refs e handle found
  have below := handle.refs.toNat_lt
  rcases (resting.consistent.counted found).bound with few | ⟨inCache, -⟩
  · exact few
  · rw [if_pos inCache] at exact
    omega

/-- After every sequence of calls the representation invariant holds if and only if no
entry has `2 ^ 32 - 1` handles given out; and a call that may be made next, other than an
`Insert` into a table of `2 ^ 31` entries, returns if and only if the counter that it works
on has not wrapped. -/
theorem invariant_iff_of_reachable
    (reachable : session.Reachable rounding hashOf (fun _ _ => True)) :
    ((∃ chains low high, Invariant session chains low high) ↔
      ∀ e ∈ session.handles, session.handles.count e + 1 < 2 ^ 32) ∧
    ∀ op, session.Admits op →
      (∀ insertion, op = .insert insertion → session.shard.table.elems < 2 ^ 31) →
      ((∃ answer session', session.step rounding hashOf op = some (answer, session')) ↔
        session.Counts op) := by
  obtain ⟨low, high, resting⟩ := reachable.resting
  refine ⟨⟨?_, fun uncrowded => ?_⟩, fun op admits _ => resting.returns_iff rounding admits⟩
  · rintro ⟨chains, low', high', invariant⟩
    exact resting.uncrowded_of_invariant invariant
  · obtain ⟨chains, invariant⟩ := resting.invariant uncrowded
    exact ⟨chains, low, high, invariant⟩

/-- An entry with `2 ^ 32 - 1` handles given out has a counter of zero. -/
theorem refs_wrapped_to_zero :
    ∃ session handle,
      session.Reachable Rounding.exact (fun _ => 0) (fun _ _ => True) ∧
      session.handles.count 1 = 2 ^ 32 - 1 ∧ session.shard.heap 1 = some handle ∧
      handle.inCache = true ∧ handle.refs = 0 ∧
      ¬ ∃ chains low high, Invariant session chains low high := by
  obtain ⟨session, low, high, handle, reachable, resting, crowded, found, inCache, -⟩ :=
    exists_crowded (2 ^ 32 - 2) (by norm_num)
  have counted := resting.consistent.counted found
  have residue := counted.residue
  rw [inCache, if_pos rfl, crowded] at residue
  refine ⟨session, handle, reachable, crowded, found, inCache, ?_, ?_⟩
  · rw [← UInt32.toNat_inj]
    exact residue
  · rintro ⟨chains, low', high', invariant⟩
    have few := (resting.uncrowded_of_invariant invariant).count_lt 1
    omega

/-- Pinned, replaced, released and evicted entries. -/
def sampleOps : List Op :=
  [.insert ⟨[1], 10, 2, some 7, true, .high, false⟩,
    .insert ⟨[2], 11, 2, some 7, false, .high, false⟩,
    .insert ⟨[1], 12, 1, some 7, false, .low, false⟩,
    .lookup [1], .release 1, .release 3, .setCapacity 4, .lookup [1]]

/-- A new shard with a strict limit of three and a high-pri pool of one third. -/
def sampleSession : Session := ⟨new 3 true (1 / 3) 1, []⟩

theorem setUp_sample :
    setUp Rounding.exact (0, false, 0, 0) 3 true (1 / 3) = some sampleSession.shard := by
  have pool : Rounding.exact.round (Rounding.exact.round (3 : UInt64).toNat * (1 / 3)) =
      1 := by
    change ((3 : Nat) : ℚ) * (1 / 3) = 1
    norm_num
  rw [setUp_eq _ _ _ _ (by norm_num), pool]
  rfl

theorem invariant_iff_of_reachable_sample :
    ∃ answers session,
      sampleSession.run Rounding.exact (fun _ => 0) sampleOps = some (answers, session) ∧
      (∃ chains low high, Invariant session chains low high) ∧
      ∀ op, session.Admits op →
        ((∃ answer session', session.step Rounding.exact (fun _ => 0) op =
          some (answer, session')) ↔ session.Counts op) := by
  have ends : (sampleSession.run Rounding.exact (fun _ => 0) sampleOps).map
      (fun result => (result.2.handles, result.2.shard.table.elems)) = some ([3], 1) := by
    decide +kernel
  have admits : sampleSession.AdmitsAll Rounding.exact (fun _ => 0) (fun _ _ => True)
      sampleOps := by
    decide +kernel
  obtain ⟨⟨answers, session⟩, run, isEnd⟩ := Option.map_eq_some_iff.mp ends
  obtain ⟨isHandles, isElems⟩ := Prod.mk.inj isEnd
  have nonneg : (0 : ℚ) ≤ 1 / 3 := by norm_num
  have reachable : session.Reachable Rounding.exact (fun _ => 0) (fun _ _ => True) :=
    ⟨(0, false, 0, 0), 3, true, 1 / 3, _, nonneg, setUp_sample, admits.continues run⟩
  have holds := invariant_iff_of_reachable reachable
  refine ⟨answers, session, run, holds.1.mpr fun e _ => ?_,
    fun op admits => holds.2 op admits fun _ _ => ?_⟩
  · rw [isHandles]
    exact Nat.lt_of_le_of_lt (Nat.succ_le_succ List.count_le_length) (by decide)
  · rw [isElems]
    decide

/-- Calls that keep the limit strict and do not lower the capacity. -/
def Session.Tightens (session : Session) : Op → Prop
  | .setStrictCapacityLimit strictCapacityLimit => strictCapacityLimit = true
  | .setCapacity capacity => session.shard.capacity ≤ capacity
  | _ => True

instance (session : Session) : (op : Op) → Decidable (session.Tightens op)
  | .insert _ => isTrue trivial
  | .lookup _ => isTrue trivial
  | .release _ => isTrue trivial
  | .erase _ => isTrue trivial
  | .setCapacity capacity => inferInstanceAs (Decidable (session.shard.capacity ≤ capacity))
  | .setStrictCapacityLimit strictCapacityLimit =>
      inferInstanceAs (Decidable (strictCapacityLimit = true))
  | .setHighPriorityPoolRatio _ => isTrue trivial
  | .eraseUnRefEntries => isTrue trivial

/-- Under a strict limit the usage stays within the capacity. -/
theorem Advances.usage_le_capacity
    {freed : List Address}
    (advances : Advances rounding hashOf session op answer session' freed)
    (tightens : session.Tightens op)
    (strict : session.shard.strictCapacityLimit = true)
    (within : session.shard.usage.toNat ≤ session.shard.capacity.toNat) :
    session'.shard.strictCapacityLimit = true ∧
      session'.shard.usage.toNat ≤ session'.shard.capacity.toNat := by
  have prepared : (prepare hashOf session.shard op answer).strictCapacityLimit = true ∧
      session.shard.capacity.toNat ≤
        (prepare hashOf session.shard op answer).capacity.toNat := by
    cases op with
    | setStrictCapacityLimit strictCapacityLimit => exact ⟨tightens, le_rfl⟩
    | setCapacity capacity => exact ⟨strict, UInt64.le_iff_toNat_le.mp tightens⟩
    | insert insertion =>
        cases answer with
        | inserted status handle =>
            simp only [prepare]
            split
            · exact ⟨strict, le_rfl⟩
            · exact ⟨strict, le_rfl⟩
        | found handle => exact ⟨strict, le_rfl⟩
        | done => exact ⟨strict, le_rfl⟩
    | _ => exact ⟨strict, le_rfl⟩
  rw [advances.settles.strictCapacityLimit, advances.settles.capacity]
  refine ⟨prepared.1, ?_⟩
  rcases advances.usage with shrinks | fits | notStrict
  · omega
  · rwa [advances.settles.capacity] at fits
  · simp [strict] at notStrict

theorem unref_keeps
    {shard shard' : LRUCacheShard}
    {e : Address}
    {last : Bool}
    (run : shard.unref e = some (last, shard')) :
    shard'.links = shard.links ∧ shard'.usage = shard.usage ∧
      shard'.capacity = shard.capacity := by
  cases found : shard.heap e with
  | none => simp [unref, found] at run
  | some handle =>
      by_cases positive : 0 < handle.refs
      · simp only [unref, modify, found, positive, guard, if_true, Option.bind_eq_bind,
          Option.bind_some, Option.pure_def, Option.some.injEq, Prod.mk.injEq] at run
        obtain ⟨-, rfl⟩ := run
        exact ⟨rfl, rfl, rfl⟩
      · simp [unref, found, positive] at run

/-- After every sequence of calls an exceeded capacity leaves nothing on the list; so
`Release`, which does not change the list or the usage before it asks for that, finds it
empty.  Under a strict limit, with a capacity that is never lowered, the capacity is not
exceeded. -/
theorem capacity_of_reachable :
    (∀ session : Session, session.Reachable rounding hashOf (fun _ _ => True) →
      (session.shard.usage > session.shard.capacity →
        Ring.IsRing session.shard.links lru []) ∧
      ∀ e last shard', session.shard.unref e = some (last, shard') →
        shard'.usage > shard'.capacity → shard'.links.next lru = some lru) ∧
    ∀ memory capacity highPriPoolRatio shard session, 0 ≤ highPriPoolRatio →
      setUp rounding memory capacity true highPriPoolRatio = some shard →
      Session.Continues rounding hashOf Session.Tightens ⟨shard, []⟩ session →
        session.shard.usage ≤ session.shard.capacity := by
  constructor
  · intro session reachable
    obtain ⟨low, high, resting⟩ := reachable.resting
    have empty (overfull : session.shard.usage > session.shard.capacity) :
        Ring.IsRing session.shard.links lru [] := by
      rw [← resting.fits (UInt64.lt_iff_toNat_lt.mp overfull)]
      exact resting.consistent.accounts.list.ring
    refine ⟨empty, fun e last shard' run overfull => ?_⟩
    obtain ⟨links, usage, capacity⟩ := unref_keeps run
    rw [usage, capacity] at overfull
    rw [links]
    exact (empty overfull).next_dummy
  · intro memory capacity ratio shard session nonneg start continues
    rw [setUp_eq rounding memory capacity true nonneg] at start
    obtain rfl := Option.some.inj start
    have poolNonneg := rounding.poolCapacity_nonneg capacity nonneg
    suffices bound : session.shard.strictCapacityLimit = true ∧
        session.shard.usage.toNat ≤ session.shard.capacity.toNat from
      UInt64.le_iff_toNat_le.mpr bound.2
    induction continues with
    | refl => exact ⟨rfl, by simp [new]⟩
    | step before admits permits steps inductionHypothesis =>
        obtain ⟨low, high, resting⟩ :=
          before.resting (resting_new hashOf capacity true nonneg poolNonneg)
        obtain ⟨freed, advances⟩ := resting.advances_of_step admits steps
        exact advances.usage_le_capacity permits inductionHypothesis.1 inductionHypothesis.2

/-- An insertion that is turned away. -/
theorem capacity_of_reachable_sample :
    ∃ session,
      sampleSession.run Rounding.exact (fun _ => 0)
        [.insert ⟨[1], 10, 2, some 7, true, .low, false⟩,
          .insert ⟨[2], 11, 2, some 7, true, .low, false⟩] =
        some ([.inserted Status.OK (some 1),
          .inserted (Status.Incomplete "Insert failed due to LRU cache being full.") none],
          session) ∧
      (session.shard.usage > session.shard.capacity →
        Ring.IsRing session.shard.links lru []) ∧
      session.shard.usage ≤ session.shard.capacity := by
  have answers : (sampleSession.run Rounding.exact (fun _ => 0)
      [.insert ⟨[1], 10, 2, some 7, true, .low, false⟩,
        .insert ⟨[2], 11, 2, some 7, true, .low, false⟩]).map Prod.fst =
      some [.inserted Status.OK (some 1),
        .inserted (Status.Incomplete "Insert failed due to LRU cache being full.") none] := by
    decide +kernel
  have admits : sampleSession.AdmitsAll Rounding.exact (fun _ => 0) (fun _ _ => True)
      [.insert ⟨[1], 10, 2, some 7, true, .low, false⟩,
        .insert ⟨[2], 11, 2, some 7, true, .low, false⟩] := by
    decide +kernel
  have tightens : sampleSession.AdmitsAll Rounding.exact (fun _ => 0) Session.Tightens
      [.insert ⟨[1], 10, 2, some 7, true, .low, false⟩,
        .insert ⟨[2], 11, 2, some 7, true, .low, false⟩] := by
    decide +kernel
  obtain ⟨⟨answers, session⟩, run, rfl⟩ := Option.map_eq_some_iff.mp answers
  have nonneg : (0 : ℚ) ≤ 1 / 3 := by norm_num
  exact ⟨session, run,
    (capacity_of_reachable.1 session ⟨(0, false, 0, 0), 3, true, 1 / 3, _, nonneg,
      setUp_sample, admits.continues run⟩).1,
    capacity_of_reachable.2 (0, false, 0, 0) 3 (1 / 3) _ session nonneg setUp_sample
      (tightens.continues run)⟩

end LRUCacheShard
end Cache
end RocksUtil
