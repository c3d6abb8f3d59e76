import Mathlib.Algebra.Order.BigOperators.Group.Finset
import Mathlib.Tactic.Ring
import RocksUtil.Cache.LRUHandleTable

/-!
# The hash table as a set of handles

What the operations of `LRUHandleTable` do to the set of handles stored in it, of
which no two have the same key.
-/

namespace RocksUtil
namespace Cache
namespace LRUHandleTable

variable {hashOf : Bytes → UInt32} {heap : Heap} {table : LRUHandleTable}
  {chains : Nat → List Address}

theorem bucketOf_lt
    {length : Nat}
    (powerOfTwo : length.isPowerOfTwo)
    (hash : UInt32) : bucketOf length hash < length := by
  obtain ⟨exponent, rfl⟩ := powerOfTwo
  rw [bucketOf, Nat.and_two_pow_sub_one_eq_mod]
  exact Nat.mod_lt _ (Nat.two_pow_pos exponent)

/-- The handles of the table, chain by chain, are in the buckets of their hashes;
no two have the same key; and `elems_` counts them. -/
structure Stores
    (hashOf : Bytes → UInt32)
    (heap : Heap)
    (table : LRUHandleTable)
    (chains : Nat → List Address) : Prop where
  holds : Chain.Holds table.buckets chains
  powerOfTwo : table.length.isPowerOfTwo
  placed : ∀ bucket, ∀ address ∈ chains bucket, ∃ handle,
    heap address = some handle ∧ handle.hash = hashOf handle.key ∧
      bucket = bucketOf table.length handle.hash
  unique : ∀ bucket bucket', ∀ address ∈ chains bucket,
    ∀ address' ∈ chains bucket', ∀ handle handle', heap address = some handle →
      heap address' = some handle' → handle.key = handle'.key → address = address'
  counted : table.elems = ∑ bucket ∈ Finset.range table.length, (chains bucket).length

namespace Stores

theorem lt_length
    (stores : Stores hashOf heap table chains)
    {bucket : Nat}
    {address : Address}
    (within : address ∈ chains bucket) : bucket < table.length := by
  obtain ⟨handle, -, -, rfl⟩ := stores.placed bucket address within
  exact bucketOf_lt stores.powerOfTwo _

theorem length_chain_le
    (stores : Stores hashOf heap table chains)
    (bucket : Nat) : (chains bucket).length ≤ table.elems := by
  by_cases inside : bucket < table.length
  · rw [stores.counted]
    exact Finset.single_le_sum (f := fun bucket => (chains bucket).length)
      (fun _ _ => Nat.zero_le _) (Finset.mem_range.mpr inside)
  · have empty : chains bucket = [] := by
      rw [List.eq_nil_iff_forall_not_mem]
      exact fun address within => inside (stores.lt_length within)
    simp [empty]

/-- All the handles, bucket by bucket. -/
theorem mem_flatMap
    (stores : Stores hashOf heap table chains)
    (address : Address) :
    address ∈ (List.range table.length).flatMap chains ↔
      ∃ bucket, address ∈ chains bucket := by
  simp only [List.mem_flatMap, List.mem_range]
  constructor
  · rintro ⟨bucket, -, within⟩
    exact ⟨bucket, within⟩
  · rintro ⟨bucket, within⟩
    exact ⟨bucket, stores.lt_length within, within⟩

theorem nodup_flatMap (stores : Stores hashOf heap table chains) :
    ((List.range table.length).flatMap chains).Nodup := by
  rw [List.nodup_flatMap]
  refine ⟨fun bucket _ => stores.holds.distinct bucket, ?_⟩
  refine List.nodup_range.imp ?_
  intro bucket bucket' differ address within within'
  exact differ (stores.holds.disjoint bucket bucket' address within within')

/-- The keys of the handles are distinct. -/
theorem nodup_keys (stores : Stores hashOf heap table chains) :
    (((List.range table.length).flatMap chains).map
      (fun address => (heap address).map LRUHandle.key)).Nodup := by
  refine List.Nodup.map_on ?_ stores.nodup_flatMap
  intro address within address' within' sameKey
  obtain ⟨bucket, -, within⟩ := List.mem_flatMap.mp within
  obtain ⟨bucket', -, within'⟩ := List.mem_flatMap.mp within'
  obtain ⟨handle, found, -⟩ := stores.placed bucket address within
  obtain ⟨handle', found', -⟩ := stores.placed bucket' address' within'
  rw [found, found'] at sameKey
  exact stores.unique bucket bucket' address within address' within' handle handle' found
    found' (Option.some.inj sameKey)

end Stores

/-- The body of the inner loop of `ApplyToAllCacheEntries`. -/
def visit
    {σ : Type}
    (heap : σ → Heap)
    (func : Address → σ → Option σ)
    (state : σ)
    (address : Address) : Option σ := do
  let handle ← heap state address
  guard handle.inCache
  func address state

theorem applyToChain_eq
    {σ : Type}
    (heap : σ → Heap)
    (func : Address → σ → Option σ)
    {next : Address → Option Address}
    {start : Option Address}
    {nodes : List Address}
    {fuel : Nat}
    (linked : Chain.Linked next start nodes)
    (enough : nodes.length < fuel)
    (state : σ) :
    applyToChain heap func next fuel start state = nodes.foldlM (visit heap func) state := by
  induction nodes generalizing start fuel state with
  | nil =>
      obtain ⟨fuel, rfl⟩ : ∃ less, fuel = less + 1 := ⟨fuel - 1, by omega⟩
      rw [show start = none from linked]
      rfl
  | cons node nodes inductionHypothesis =>
      obtain ⟨fuel, rfl⟩ : ∃ less, fuel = less + 1 := ⟨fuel - 1, by omega⟩
      rw [List.length_cons] at enough
      rw [linked.1, List.foldlM_cons, visit]
      simp only [applyToChain, Option.bind_eq_bind, Option.bind_assoc]
      congr 1
      funext handle
      congr 1
      funext _
      congr 1
      funext state
      exact inductionHypothesis linked.2 (by omega) state

/-- `ApplyToAllCacheEntries` visits the chains bucket by bucket. -/
theorem Stores.applyToAllCacheEntries_eq
    (stores : Stores hashOf heap table chains)
    {σ : Type}
    (heap : σ → Heap)
    (func : Address → σ → Option σ)
    (state : σ) :
    applyToAllCacheEntries heap func table state =
      ((List.range table.length).flatMap chains).foldlM (visit heap func) state := by
  have walk (places : List Nat) (state : σ) :
      places.foldlM (fun state bucket => applyToChain heap func table.buckets.next
          (table.elems + 1) (table.buckets.head bucket) state) state =
        (places.flatMap chains).foldlM (visit heap func) state := by
    induction places generalizing state with
    | nil => rfl
    | cons bucket places inductionHypothesis =>
        rw [List.foldlM_cons, List.flatMap_cons, List.foldlM_append,
          applyToChain_eq heap func (stores.holds.linked bucket)
            (Nat.lt_succ_of_le (stores.length_chain_le bucket))]
        congr 1
        funext state
        exact inductionHypothesis state
  exact walk (List.range table.length) state

/-- The handle at an address has this key and hash. -/
def Matches (heap : Heap) (key : Bytes) (hash : UInt32) (address : Address) : Prop :=
  ∃ handle, heap address = some handle ∧ handle.hash = hash ∧ handle.key = key

/-- The walk along the rest of a chain stops at the first handle for the key, or
at the end. -/
theorem findPointerFrom_spec
    {buckets : Chain.Buckets Address}
    {bucket : Nat}
    (holds : Chain.Holds buckets chains)
    (allocated : ∀ address ∈ chains bucket, ∃ handle, heap address = some handle)
    (key : Bytes)
    (hash : UInt32)
    (passed rest : List Address)
    (fuel : Nat)
    (chain : chains bucket = passed ++ rest)
    (enough : rest.length < fuel)
    (noMatch : ∀ address ∈ passed, ¬ Matches heap key hash address) :
    ∃ before after,
      findPointerFrom heap buckets key hash fuel (Chain.slotAfter bucket passed) =
        some (Chain.slotAfter bucket before) ∧
      chains bucket = before ++ after ∧
      (∀ address ∈ before, ¬ Matches heap key hash address) ∧
      ∀ address ∈ after.head?, Matches heap key hash address := by
  induction rest generalizing passed fuel with
  | nil =>
      obtain ⟨fuel, rfl⟩ : ∃ less, fuel = less + 1 := ⟨fuel - 1, by grind⟩
      refine ⟨passed, [], ?_, chain, noMatch, by simp⟩
      have stop := (holds.linked_slotAfter chain).head?_eq
      simp [findPointerFrom, stop]
  | cons address rest inductionHypothesis =>
      obtain ⟨fuel, rfl⟩ : ∃ less, fuel = less + 1 := ⟨fuel - 1, by grind⟩
      have here := (holds.linked_slotAfter chain).head?_eq
      obtain ⟨handle, found⟩ := allocated address (by simp [chain])
      by_cases differs : handle.hash ≠ hash ∨ key ≠ handle.key
      · have skip : findPointerFrom heap buckets key hash (fuel + 1)
            (Chain.slotAfter bucket passed) =
              findPointerFrom heap buckets key hash fuel (.next address) := by
          simp [findPointerFrom, here, found, differs]
        have notHere : ¬ Matches heap key hash address := by
          rintro ⟨other, foundOther, sameHash, sameKey⟩
          grind
        rw [skip, ← Chain.slotAfter_concat bucket passed address]
        refine inductionHypothesis (passed ++ [address]) fuel (by simp [chain])
          (by simpa using enough) ?_
        intro other within
        rcases List.mem_append.mp within with earlier | last
        · exact noMatch other earlier
        · rw [List.mem_singleton.mp last]
          exact notHere
      · refine ⟨passed, address :: rest, ?_, chain, noMatch, ?_⟩
        · simp [findPointerFrom, here, found, differs]
        · simp only [List.head?_cons, Option.mem_some_iff, forall_eq']
          exact ⟨handle, found, by grind, by grind⟩

/-- Where `FindPointer` finds the key. -/
theorem Stores.findPointer_spec
    (stores : Stores hashOf heap table chains)
    (key : Bytes) :
    ∃ before after,
      table.findPointer heap key (hashOf key) =
        some (Chain.slotAfter (bucketOf table.length (hashOf key)) before) ∧
      chains (bucketOf table.length (hashOf key)) = before ++ after ∧
      (∀ address ∈ before, ¬ Matches heap key (hashOf key) address) ∧
      ∀ address ∈ after.head?, Matches heap key (hashOf key) address :=
  findPointerFrom_spec stores.holds
    (fun address within =>
      (stores.placed _ address within).imp (fun _ facts => facts.1))
    key (hashOf key) [] _ _ (List.nil_append _).symm
    (Nat.lt_succ_of_le (stores.length_chain_le _)) (by simp)

/-- The handle for a key among `members`, as an operation returns it. -/
def Finds
    (heap : Heap)
    (members : Set Address)
    (key : Bytes) : Option Address → Prop
  | none => ∀ address ∈ members, ∀ handle, heap address = some handle → handle.key ≠ key
  | some address => address ∈ members ∧ ∃ handle, heap address = some handle ∧
      handle.key = key

/-- The members but the one returned. -/
def without (members : Set Address) (result : Option Address) : Set Address :=
  {address | address ∈ members ∧ some address ≠ result}

/-- The table stores exactly `members`, and is not overfull. -/
def Represents
    (hashOf : Bytes → UInt32)
    (heap : Heap)
    (table : LRUHandleTable)
    (members : Set Address) : Prop :=
  ∃ chains, Stores hashOf heap table chains ∧ table.elems ≤ table.length ∧
    ∀ address, address ∈ members ↔ ∃ bucket, address ∈ chains bucket

variable {members : Set Address}

/-- What is at the slot of a key is its handle. -/
theorem Stores.finds_head?
    {key : Bytes}
    {before after : List Address}
    (stores : Stores hashOf heap table chains)
    (membership : ∀ address, address ∈ members ↔ ∃ bucket, address ∈ chains bucket)
    (chain : chains (bucketOf table.length (hashOf key)) = before ++ after)
    (noMatch : ∀ address ∈ before, ¬ Matches heap key (hashOf key) address)
    (isMatch : ∀ address ∈ after.head?, Matches heap key (hashOf key) address) :
    Finds heap members key after.head? := by
  cases after with
  | nil =>
      intro address within handle found sameKey
      obtain ⟨bucket, inBucket⟩ := (membership address).mp within
      obtain ⟨_, foundToo, hash, place⟩ := stores.placed bucket address inBucket
      obtain rfl : handle = _ := Option.some.inj (found.symm.trans foundToo)
      rw [place, hash, sameKey, chain, List.append_nil] at inBucket
      exact noMatch address inBucket ⟨handle, found, hash.trans (by rw [sameKey]), sameKey⟩
  | cons address after =>
      obtain ⟨handle, found, -, sameKey⟩ := isMatch address rfl
      exact ⟨(membership address).mpr ⟨_, by rw [chain]; simp⟩, handle, found, sameKey⟩

/-- `Lookup` finds the handle for the key. -/
theorem lookup_spec
    (represents : Represents hashOf heap table members)
    (key : Bytes) :
    ∃ result, table.lookup heap key (hashOf key) = some result ∧
      Finds heap members key result := by
  obtain ⟨chains, stores, loaded, membership⟩ := represents
  obtain ⟨before, after, slot, chain, noMatch, isMatch⟩ := stores.findPointer_spec key
  refine ⟨after.head?, ?_, stores.finds_head? membership chain noMatch isMatch⟩
  have pointsTo := (stores.holds.linked_slotAfter chain).head?_eq
  simp [lookup, slot, pointsTo]

/-- The number of handles after one chain is replaced. -/
theorem sum_length_update
    {length bucket : Nat}
    (inside : bucket < length)
    (chains : Nat → List Address)
    (chain : List Address) :
    (∑ other ∈ Finset.range length,
        (Function.update chains bucket chain other).length) + (chains bucket).length =
      (∑ other ∈ Finset.range length, (chains other).length) + chain.length := by
  have within : bucket ∈ Finset.range length := Finset.mem_range.mpr inside
  rw [← Finset.add_sum_erase _ _ within, ← Finset.add_sum_erase _ (fun other =>
    (chains other).length) within]
  have others : ∀ other ∈ (Finset.range length).erase bucket,
      (Function.update chains bucket chain other).length = (chains other).length := by
    intro other inOthers
    rw [Function.update_of_ne (Finset.ne_of_mem_erase inOthers)]
  rw [Finset.sum_congr rfl others, Function.update_self]
  omega

theorem without_none (members : Set Address) : without members none = members := by
  ext address
  simp [without]

/-- Membership in the chains when one of them is replaced. -/
theorem exists_mem_update
    {bucket : Nat}
    {chain : List Address}
    {address : Address} :
    (∃ other, address ∈ Function.update chains bucket chain other) ↔
      address ∈ chain ∨ ∃ other, other ≠ bucket ∧ address ∈ chains other := by
  constructor
  · rintro ⟨other, within⟩
    by_cases here : other = bucket
    · subst here
      rw [Function.update_self] at within
      exact Or.inl within
    · rw [Function.update_of_ne here] at within
      exact Or.inr ⟨other, here, within⟩
  · rintro (within | ⟨other, elsewhere, within⟩)
    · exact ⟨bucket, by rwa [Function.update_self]⟩
    · exact ⟨other, by rwa [Function.update_of_ne elsewhere]⟩

/-- Taking the handle at a slot away. -/
theorem Stores.unlink
    {bucket : Nat}
    {before after : List Address}
    {address : Address}
    (stores : Stores hashOf heap table chains)
    (chain : chains bucket = before ++ address :: after) :
    Stores hashOf heap
      { table with
        elems := table.elems - 1
        buckets := table.buckets.write (Chain.slotAfter bucket before)
          (table.buckets.next address) }
      (Function.update chains bucket (before ++ after)) := by
  have distinct : (before ++ address :: after).Nodup := chain ▸ stores.holds.distinct bucket
  have fewer : ∀ other, Function.update chains bucket (before ++ after) other ⊆
      chains other := by
    intro other
    by_cases here : other = bucket
    · subst here
      rw [Function.update_self, chain]
      grind
    · rw [Function.update_of_ne here]
      exact List.Subset.refl _
  have linked := stores.holds.linked bucket
  rw [chain] at linked
  have within : address ∈ chains bucket := by simp [chain]
  have inside : bucket < table.length := stores.lt_length within
  have count := sum_length_update inside chains (before ++ after)
  rw [← stores.counted, chain] at count
  simp only [List.length_append, List.length_cons] at count
  refine ⟨?_, stores.powerOfTwo, ?_, ?_, ?_⟩
  · refine stores.holds.write chain linked.suffix (by grind) ?_
    intro other within place inPlace
    exact stores.holds.disjoint place bucket other inPlace (by simp [chain, within])
  · exact fun place other within => stores.placed place other (fewer place within)
  · exact fun place place' other within other' within' =>
      stores.unique place place' other (fewer place within) other' (fewer place' within')
  · simp only
    omega

/-- The members but the one at a slot are those on the chains without it. -/
theorem Stores.mem_without_iff
    {bucket : Nat}
    {before after : List Address}
    (stores : Stores hashOf heap table chains)
    (membership : ∀ address, address ∈ members ↔ ∃ bucket, address ∈ chains bucket)
    (chain : chains bucket = before ++ after)
    (address : Address) :
    address ∈ without members after.head? ↔
      ∃ place, address ∈ Function.update chains bucket (before ++ after.tail) place := by
  cases after with
  | nil =>
      rw [List.tail_nil, ← chain, Function.update_eq_self, List.head?_nil, without_none]
      exact membership address
  | cons head after =>
      have distinct := stores.holds.distinct bucket
      rw [chain] at distinct
      rw [exists_mem_update]
      constructor
      · rintro ⟨within, notResult⟩
        have other : address ≠ head := fun equal => notResult (by rw [equal]; rfl)
        obtain ⟨place, inPlace⟩ := (membership address).mp within
        by_cases here : place = bucket
        · rw [here, chain] at inPlace
          exact Or.inl (by grind)
        · exact Or.inr ⟨place, here, inPlace⟩
      · rintro (within | ⟨place, elsewhere, within⟩)
        · refine ⟨(membership address).mpr ⟨bucket, by rw [chain]; grind⟩, ?_⟩
          grind
        · refine ⟨(membership address).mpr ⟨place, within⟩, ?_⟩
          intro same
          obtain rfl := Option.some.inj same
          exact elsewhere (stores.holds.disjoint _ _ address within (by simp [chain]))

/-- `Remove` takes the handle for the key out. -/
theorem remove_spec
    (represents : Represents hashOf heap table members)
    (key : Bytes) :
    ∃ result table', table.remove heap key (hashOf key) = some (result, table') ∧
      Finds heap members key result ∧
      Represents hashOf heap table' (without members result) := by
  obtain ⟨chains, stores, loaded, membership⟩ := represents
  obtain ⟨before, after, slot, chain, noMatch, isMatch⟩ := stores.findPointer_spec key
  have finds := stores.finds_head? membership chain noMatch isMatch
  have remaining := stores.mem_without_iff membership chain
  have pointsTo := (stores.holds.linked_slotAfter chain).head?_eq
  cases after with
  | nil =>
      refine ⟨none, table, ?_, finds, chains, stores, loaded, ?_⟩
      · simp [remove, slot, pointsTo]
      · rwa [without_none]
  | cons address after =>
      refine ⟨some address, _, ?_, finds, _, stores.unlink chain, ?_, remaining⟩
      · simp only [remove, slot, pointsTo, Option.bind_eq_bind, Option.bind_some,
          List.head?_cons]
      · exact (Nat.sub_le _ _).trans loaded

/-- Putting a handle in the place of what is at a slot. -/
theorem Stores.link
    {before after rest : List Address}
    {address : Address}
    {handle : LRUHandle}
    {pointer : Option Address}
    {elems : Nat}
    (stores : Stores hashOf heap table chains)
    (allocated : heap address = some handle)
    (hash : handle.hash = hashOf handle.key)
    (outside : ∀ bucket, address ∉ chains bucket)
    (chain : chains (bucketOf table.length handle.hash) = before ++ after)
    (suffix : rest <:+ after)
    (tail : Chain.Linked table.buckets.next pointer rest)
    (count : elems + after.length = table.elems + rest.length + 1)
    (noOther : ∀ other, (∃ place, other ∈ Function.update chains
        (bucketOf table.length handle.hash) (before ++ rest) place) →
      ∀ handle', heap other = some handle' → handle'.key ≠ handle.key) :
    Stores hashOf heap
      { table with
        elems := elems
        buckets := (table.buckets.write (.next address) pointer).write
          (Chain.slotAfter (bucketOf table.length handle.hash) before) (some address) }
      (Function.update chains (bucketOf table.length handle.hash)
        (before ++ address :: rest)) := by
  have split : ∀ place, ∀ other ∈ Function.update chains
      (bucketOf table.length handle.hash) (before ++ address :: rest) place,
      other = address ∧ place = bucketOf table.length handle.hash ∨
        other ∈ chains place ∧ other ∈ Function.update chains
          (bucketOf table.length handle.hash) (before ++ rest) place := by
    intro place other within
    by_cases here : place = bucketOf table.length handle.hash
    · subst here
      rw [Function.update_self] at within ⊢
      have := suffix.subset
      grind
    · rw [Function.update_of_ne here] at within ⊢
      exact Or.inr ⟨within, within⟩
  have inside := bucketOf_lt stores.powerOfTwo handle.hash
  have lengths := sum_length_update inside chains (before ++ address :: rest)
  rw [← stores.counted, chain] at lengths
  simp only [List.length_append, List.length_cons] at lengths
  refine ⟨stores.holds.splice outside chain suffix tail, stores.powerOfTwo, ?_, ?_, ?_⟩
  · intro place other within
    rcases split place other within with ⟨rfl, rfl⟩ | ⟨old, -⟩
    · exact ⟨handle, allocated, hash, rfl⟩
    · exact stores.placed place other old
  · intro place place' other within other' within' first second found found' sameKey
    rcases split place other within with ⟨rfl, -⟩ | ⟨old, still⟩ <;>
      rcases split place' other' within' with ⟨rfl, -⟩ | ⟨old', still'⟩
    · rfl
    · obtain rfl : handle = first := Option.some.inj (allocated.symm.trans found)
      exact absurd sameKey.symm (noOther other' ⟨place', still'⟩ second found')
    · obtain rfl : handle = second := Option.some.inj (allocated.symm.trans found')
      exact absurd sameKey (noOther other ⟨place, still⟩ first found)
    · exact stores.unique place place' other old other' old' first second found found'
        sameKey
  · simp only
    omega

/-- Doubling ends at a power of two that leaves the load below two thirds. -/
theorem doubleLength_spec
    {elems length fuel : Nat}
    (powerOfTwo : length.isPowerOfTwo)
    (enough : 3 * elems ≤ 2 * length * 2 ^ fuel) :
    ∃ newLength, doubleLength elems (fuel + 1) length = some newLength ∧
      newLength.isPowerOfTwo ∧ 3 * elems ≤ 2 * newLength := by
  induction fuel generalizing length with
  | zero =>
      have stop : ¬ 2 * length < 3 * elems := by
        rw [pow_zero] at enough
        omega
      exact ⟨length, by simp [doubleLength, stop], powerOfTwo, by omega⟩
  | succ fuel inductionHypothesis =>
      rw [doubleLength]
      by_cases short : 2 * length < 3 * elems
      · rw [if_pos short]
        refine inductionHypothesis (Nat.isPowerOfTwo_mul_two_of_isPowerOfTwo powerOfTwo) ?_
        rw [pow_succ] at enough
        calc
          3 * elems ≤ 2 * length * (2 ^ fuel * 2) := enough
          _ = 2 * (length * 2) * 2 ^ fuel := by ring
      · rw [if_neg short]
        exact ⟨length, rfl, powerOfTwo, by omega⟩

/-- Part way through `Resize`: the handles in `moved` have been pushed into their
new buckets. -/
structure Relinked
    (heap : Heap)
    (newLength : Nat)
    (moved : Set Address)
    (relinked : Chain.Buckets Address × Nat)
    (chains : Nat → List Address) : Prop where
  holds : Chain.Holds relinked.1 chains
  places : ∀ bucket address, address ∈ chains bucket ↔ address ∈ moved ∧
    ∃ handle, heap address = some handle ∧ bucket = bucketOf newLength handle.hash
  counted : relinked.2 = ∑ bucket ∈ Finset.range newLength, (chains bucket).length

/-- One more handle pushed. -/
theorem Relinked.push
    {newLength count : Nat}
    {moved : Set Address}
    {buckets : Chain.Buckets Address}
    {address : Address}
    {handle : LRUHandle}
    (relinked : Relinked heap newLength moved (buckets, count) chains)
    (powerOfTwo : newLength.isPowerOfTwo)
    (notMoved : address ∉ moved)
    (allocated : heap address = some handle) :
    Relinked heap newLength {other | other = address ∨ other ∈ moved}
      (buckets.push (bucketOf newLength handle.hash) address, count + 1)
      (Function.update chains (bucketOf newLength handle.hash)
        (address :: chains (bucketOf newLength handle.hash))) := by
  have outside : ∀ bucket, address ∉ chains bucket :=
    fun bucket within => notMoved ((relinked.places bucket address).mp within).1
  have lengths := sum_length_update (bucketOf_lt powerOfTwo handle.hash) chains
    (address :: chains (bucketOf newLength handle.hash))
  rw [← relinked.counted, List.length_cons] at lengths
  refine ⟨relinked.holds.push outside, ?_, ?_⟩
  · intro bucket other
    have place := relinked.places bucket other
    by_cases here : bucket = bucketOf newLength handle.hash
    · subst here
      rw [Function.update_self, List.mem_cons, place]
      grind
    · rw [Function.update_of_ne here, place]
      grind
  · simp only at lengths ⊢
    omega

/-- A whole chain pushed. -/
theorem relinkChain_spec
    {newLength fuel : Nat}
    {moved : Set Address}
    {relinked : Chain.Buckets Address × Nat}
    {start : Option Address}
    {nodes : List Address}
    (progress : Relinked heap newLength moved relinked chains)
    (powerOfTwo : newLength.isPowerOfTwo)
    (linked : Chain.Linked relinked.1.next start nodes)
    (distinct : nodes.Nodup)
    (notMoved : ∀ address ∈ nodes, address ∉ moved)
    (allocated : ∀ address ∈ nodes, ∃ handle, heap address = some handle)
    (enough : nodes.length < fuel) :
    ∃ relinked' chains',
      relinkChain heap newLength fuel start relinked = some relinked' ∧
      Relinked heap newLength {address | address ∈ nodes ∨ address ∈ moved} relinked'
        chains' ∧
      relinked'.2 = relinked.2 + nodes.length ∧
      ∀ address, address ∉ nodes → relinked'.1.next address = relinked.1.next address := by
  obtain ⟨fuel, rfl⟩ : ∃ less, fuel = less + 1 := ⟨fuel - 1, by omega⟩
  induction nodes generalizing moved relinked start chains fuel with
  | nil =>
      refine ⟨relinked, chains, ?_, ?_, rfl, fun _ _ => rfl⟩
      · have ended : start = none := linked
        rw [ended, relinkChain]
      · simpa using progress
  | cons address nodes inductionHypothesis =>
      obtain ⟨buckets, count⟩ := relinked
      obtain ⟨handle, found⟩ := allocated address (by simp)
      obtain ⟨rfl, tail⟩ := linked
      have notLater := (List.nodup_cons.mp distinct).1
      have nextPushed : ∀ other, other ≠ address →
          (buckets.push (bucketOf newLength handle.hash) address).next other =
            buckets.next other := fun other notHere => Function.update_of_ne notHere _ _
      have tail' : Chain.Linked
          (buckets.push (bucketOf newLength handle.hash) address).next
          (buckets.next address) nodes :=
        tail.congr (fun other within => nextPushed other (by grind))
      obtain ⟨fuel, rfl⟩ : ∃ less, fuel = less + 1 := ⟨fuel - 1, by grind⟩
      obtain ⟨relinked', chains', run, progress', counted, others⟩ :=
        inductionHypothesis
          (progress.push powerOfTwo (notMoved address (by simp)) found) tail'
          (List.nodup_cons.mp distinct).2 (by grind)
          (fun other within => allocated other (by simp [within])) fuel
          (by simpa using enough)
      refine ⟨relinked', chains', ?_, ?_, ?_, ?_⟩
      · simp only [relinkChain, found, Option.bind_eq_bind, Option.bind_some]
        exact run
      · convert progress' using 1
        ext other
        simp only [Set.mem_ofPred_eq, List.mem_cons]
        tauto
      · simp only [counted, List.length_cons]
        omega
      · intro other outside
        rw [others other (by grind), nextPushed other (by grind)]

/-- Any number of buckets pushed, one after another. -/
theorem foldlM_relinkChain_spec
    {newLength fuel : Nat}
    {moved : Set Address}
    {relinked : Chain.Buckets Address × Nat}
    {head : Nat → Option Address}
    {oldChains : Nat → List Address}
    (powerOfTwo : newLength.isPowerOfTwo)
    (distinct : ∀ bucket, (oldChains bucket).Nodup)
    (disjoint : ∀ bucket bucket' address, address ∈ oldChains bucket →
      address ∈ oldChains bucket' → bucket = bucket')
    (allocated : ∀ bucket, ∀ address ∈ oldChains bucket, ∃ handle,
      heap address = some handle)
    (enough : ∀ bucket, (oldChains bucket).length < fuel)
    (places : List Nat)
    (places_nodup : places.Nodup)
    (progress : Relinked heap newLength moved relinked chains)
    (linked : ∀ bucket ∈ places,
      Chain.Linked relinked.1.next (head bucket) (oldChains bucket))
    (notMoved : ∀ bucket ∈ places, ∀ address ∈ oldChains bucket, address ∉ moved) :
    ∃ relinked' chains',
      places.foldlM (fun relinked bucket =>
        relinkChain heap newLength fuel (head bucket) relinked) relinked =
          some relinked' ∧
      Relinked heap newLength
        {address | (∃ bucket ∈ places, address ∈ oldChains bucket) ∨ address ∈ moved}
        relinked' chains' ∧
      relinked'.2 = relinked.2 +
        (places.map (fun bucket => (oldChains bucket).length)).sum := by
  induction places generalizing moved relinked chains with
  | nil => exact ⟨relinked, chains, rfl, by simpa using progress, rfl⟩
  | cons bucket places inductionHypothesis =>
      obtain ⟨notLater, laterDistinct⟩ := List.nodup_cons.mp places_nodup
      obtain ⟨relinked₁, chains₁, first, progress₁, counted₁, others⟩ :=
        relinkChain_spec progress powerOfTwo (linked bucket (by simp)) (distinct bucket)
          (notMoved bucket (by simp)) (allocated bucket) (enough bucket)
      have apart : ∀ bucket' ∈ places, ∀ address ∈ oldChains bucket',
          address ∉ oldChains bucket := by
        intro bucket' later address within inFirst
        rw [disjoint bucket bucket' address inFirst within] at notLater
        exact notLater later
      obtain ⟨relinked', chains', run, progress', counted⟩ :=
        inductionHypothesis laterDistinct progress₁
          (fun bucket' later => (linked bucket' (by simp [later])).congr
            (fun address within => others address (apart bucket' later address within)))
          (by
            rintro bucket' later address within (inFirst | already)
            · exact apart bucket' later address within inFirst
            · exact notMoved bucket' (by simp [later]) address within already)
      refine ⟨relinked', chains', ?_, ?_, ?_⟩
      · rw [List.foldlM_cons, first]
        exact run
      · convert progress' using 1
        ext other
        simp only [Set.mem_ofPred_eq, List.mem_cons, exists_eq_or_imp]
        rw [or_assoc, or_left_comm]
      · rw [counted, counted₁, List.map_cons, List.sum_cons]
        omega

/-- `Resize` stores the same handles, and is not overfull. -/
theorem resize_spec
    (stores : Stores hashOf heap table chains) :
    ∃ table' chains', table.resize heap = some table' ∧
      Stores hashOf heap table' chains' ∧ table'.elems ≤ table'.length ∧
      ∀ address, (∃ bucket, address ∈ chains' bucket) ↔
        ∃ bucket, address ∈ chains bucket := by
  have grown : 3 * table.elems ≤ 2 * 16 * 2 ^ table.elems := by
    have := Nat.lt_two_pow_self (n := table.elems)
    omega
  have sixteen : Nat.isPowerOfTwo 16 := ⟨4, rfl⟩
  obtain ⟨newLength, doubled, powerOfTwo, roomy⟩ := doubleLength_spec sixteen grown
  have start : Relinked heap newLength ∅ (⟨fun _ => none, table.buckets.next⟩, 0)
      (fun _ => []) :=
    ⟨⟨fun _ => rfl, by simp, by simp⟩, by simp, by simp⟩
  obtain ⟨⟨buckets, count⟩, chains', run, progress, counted⟩ :=
    foldlM_relinkChain_spec powerOfTwo stores.holds.distinct stores.holds.disjoint
      (fun bucket address within =>
        (stores.placed bucket address within).imp (fun _ facts => facts.1))
      (fun bucket => Nat.lt_succ_of_le (stores.length_chain_le bucket))
      (List.range table.length) List.nodup_range start
      (fun bucket _ => stores.holds.linked bucket) (by simp)
  have sameCount : table.elems = count := by
    rw [stores.counted, Finset.sum_eq_multiset_sum, Finset.range_val, ← Multiset.coe_range,
      Multiset.map_coe, Multiset.sum_coe]
    exact (counted.trans (Nat.zero_add _)).symm
  have membership : ∀ address, (∃ bucket, address ∈ chains' bucket) ↔
      ∃ bucket, address ∈ chains bucket := by
    intro address
    constructor
    · rintro ⟨bucket, within⟩
      obtain ⟨⟨place, -, inPlace⟩ | nowhere, -⟩ :=
        (progress.places bucket address).mp within
      · exact ⟨place, inPlace⟩
      · exact absurd nowhere (Set.notMem_empty address)
    · rintro ⟨place, inPlace⟩
      obtain ⟨handle, found, -, -⟩ := stores.placed place address inPlace
      exact ⟨_, (progress.places _ address).mpr
        ⟨Or.inl ⟨place, List.mem_range.mpr (stores.lt_length inPlace), inPlace⟩,
          handle, found, rfl⟩⟩
  refine ⟨{ table with length := newLength, buckets := buckets }, chains', ?_,
    ⟨progress.holds, powerOfTwo, ?_, ?_, ?_⟩, ?_, membership⟩
  · have relinked : table.relink heap newLength = some (buckets, count) := run
    rw [resize, doubled]
    simp [relinked, ← sameCount]
  · intro bucket address within
    obtain ⟨place, inPlace⟩ := (membership address).mp ⟨bucket, within⟩
    obtain ⟨handle, found, hash, -⟩ := stores.placed place address inPlace
    obtain ⟨-, handle', found', rfl⟩ := (progress.places bucket address).mp within
    obtain rfl : handle = handle' := Option.some.inj (found.symm.trans found')
    exact ⟨handle, found, hash, rfl⟩
  · intro bucket bucket' address within address' within'
    obtain ⟨place, inPlace⟩ := (membership address).mp ⟨bucket, within⟩
    obtain ⟨place', inPlace'⟩ := (membership address').mp ⟨bucket', within'⟩
    exact stores.unique place place' address inPlace address' inPlace'
  · exact sameCount.trans progress.counted
  · show table.elems ≤ newLength
    omega

/-- The members with one of them displaced by a new one. -/
def displace
    (members : Set Address)
    (result : Option Address)
    (address : Address) : Set Address :=
  {other | other = address ∨ other ∈ without members result}

/-- The handle found for a key is the only one. -/
theorem Stores.finds_eq
    {key : Bytes}
    {result : Option Address}
    {address : Address}
    {handle : LRUHandle}
    (stores : Stores hashOf heap table chains)
    (membership : ∀ address, address ∈ members ↔ ∃ bucket, address ∈ chains bucket)
    (finds : Finds heap members key result)
    (within : address ∈ members)
    (found : heap address = some handle)
    (sameKey : handle.key = key) : result = some address := by
  cases result with
  | none => exact absurd sameKey (finds address within handle found)
  | some other =>
      obtain ⟨isMember, handle', found', sameKey'⟩ := finds
      obtain ⟨bucket, inBucket⟩ := (membership address).mp within
      obtain ⟨bucket', inBucket'⟩ := (membership other).mp isMember
      rw [stores.unique bucket bucket' address inBucket other inBucket' handle handle'
        found found' (sameKey.trans sameKey'.symm)]

/-- A handle that is stored is the one found for its key. -/
theorem Represents.finds_self
    {address : Address}
    {handle : LRUHandle}
    {result : Option Address}
    (represents : Represents hashOf heap table members)
    (found : heap address = some handle)
    (within : address ∈ members)
    (finds : Finds heap members handle.key result) : result = some address := by
  obtain ⟨chains, stores, -, membership⟩ := represents
  exact stores.finds_eq membership finds within found rfl

/-- A handle that is stored has the hash of its key. -/
theorem Represents.hash_eq
    {address : Address}
    {handle : LRUHandle}
    (represents : Represents hashOf heap table members)
    (found : heap address = some handle)
    (within : address ∈ members) : handle.hash = hashOf handle.key := by
  obtain ⟨chains, stores, -, membership⟩ := represents
  obtain ⟨bucket, inBucket⟩ := (membership address).mp within
  obtain ⟨other, foundOther, hash, -⟩ := stores.placed bucket address inBucket
  obtain rfl := Option.some.inj (found.symm.trans foundOther)
  exact hash

/-- `Remove` of a handle that is stored. -/
theorem Represents.remove_self
    {address : Address}
    {handle : LRUHandle}
    (represents : Represents hashOf heap table members)
    (found : heap address = some handle)
    (within : address ∈ members) :
    ∃ table', table.remove heap handle.key handle.hash = some (some address, table') ∧
      Represents hashOf heap table' (without members (some address)) := by
  obtain ⟨result, table', removed, finds, represents'⟩ := remove_spec represents handle.key
  obtain rfl := represents.finds_self found within finds
  rw [represents.hash_eq found within]
  exact ⟨table', removed, represents'⟩

/-- `Insert` displaces the handle for the key. -/
theorem insert_spec
    {address : Address}
    {handle : LRUHandle}
    (represents : Represents hashOf heap table members)
    (allocated : heap address = some handle)
    (hash : handle.hash = hashOf handle.key)
    (isNew : address ∉ members) :
    ∃ old table', table.insert heap address = some (old, table') ∧
      Finds heap members handle.key old ∧
      Represents hashOf heap table' (displace members old address) := by
  obtain ⟨chains, stores, loaded, membership⟩ := represents
  obtain ⟨before, after, slot, chain, noMatch, isMatch⟩ :=
    stores.findPointer_spec handle.key
  have finds := stores.finds_head? membership chain noMatch isMatch
  have remaining := stores.mem_without_iff membership chain
  have pointsTo := (stores.holds.linked_slotAfter chain).head?_eq
  have outside : ∀ bucket, address ∉ chains bucket :=
    fun bucket within => isNew ((membership address).mpr ⟨bucket, within⟩)
  rw [← hash] at slot chain remaining pointsTo
  have noOther : ∀ other, (∃ place, other ∈ Function.update chains
        (bucketOf table.length handle.hash) (before ++ after.tail) place) →
      ∀ handle', heap other = some handle' → handle'.key ≠ handle.key := by
    intro other within handle' found' sameKey
    obtain ⟨isMember, notOld⟩ := (remaining other).mpr within
    exact notOld (stores.finds_eq membership finds isMember found' sameKey).symm
  have displaced : ∀ other, other ∈ displace members after.head? address ↔
      ∃ place, other ∈ Function.update chains (bucketOf table.length handle.hash)
        (before ++ address :: after.tail) place := by
    intro other
    rw [exists_mem_update, displace, Set.mem_ofPred_eq, remaining other, exists_mem_update]
    grind
  have linked := stores.holds.linked (bucketOf table.length handle.hash)
  rw [chain] at linked
  cases after with
  | nil =>
      have ended : Chain.Linked table.buckets.next none [] := rfl
      have count : table.elems + 1 + ([] : List Address).length =
          table.elems + ([] : List Address).length + 1 := rfl
      have stores' := stores.link allocated hash outside chain (List.suffix_refl _)
        ended count noOther
      by_cases full : table.elems + 1 > table.length
      · obtain ⟨table', chains', run, stores'', loaded', same⟩ := resize_spec stores'
        refine ⟨none, table', ?_, finds, chains', stores'', loaded', ?_⟩
        · simp only [insert, allocated, slot, pointsTo, Option.bind_eq_bind,
            Option.bind_some, List.head?_nil, full, if_true]
          rw [run, Option.bind_some]
        · intro other
          rw [same]
          exact displaced other
      · refine ⟨none, _, ?_, finds, _, stores', by simpa using full, displaced⟩
        simp only [insert, allocated, slot, pointsTo, Option.bind_eq_bind,
          Option.bind_some, List.head?_nil, full, if_false]
  | cons old after =>
      have count : table.elems + (old :: after).length = table.elems + after.length + 1 :=
        rfl
      have stores' := stores.link allocated hash outside chain
        (List.suffix_cons old after) linked.suffix count noOther
      refine ⟨some old, _, ?_, finds, _, stores', loaded, displaced⟩
      simp only [insert, allocated, slot, pointsTo, Option.bind_eq_bind,
        Option.bind_some, List.head?_cons]

/-- Only the keys and hashes of the members matter. -/
theorem Represents.congr
    {heap' : Heap}
    (represents : Represents hashOf heap table members)
    (same : ∀ address ∈ members, ∀ handle, heap address = some handle →
      ∃ handle', heap' address = some handle' ∧ handle'.key = handle.key ∧
        handle'.hash = handle.hash) :
    Represents hashOf heap' table members := by
  obtain ⟨chains, stores, loaded, membership⟩ := represents
  have moved : ∀ bucket, ∀ address ∈ chains bucket, ∃ handle handle',
      heap address = some handle ∧ handle.hash = hashOf handle.key ∧
        bucket = bucketOf table.length handle.hash ∧ heap' address = some handle' ∧
        handle'.key = handle.key ∧ handle'.hash = handle.hash := by
    intro bucket address within
    obtain ⟨handle, found, hash, place⟩ := stores.placed bucket address within
    obtain ⟨handle', found', sameKey, sameHash⟩ :=
      same address ((membership address).mpr ⟨bucket, within⟩) handle found
    exact ⟨handle, handle', found, hash, place, found', sameKey, sameHash⟩
  refine ⟨chains, ⟨stores.holds, stores.powerOfTwo, ?_, ?_, stores.counted⟩, loaded,
    membership⟩
  · intro bucket address within
    obtain ⟨handle, handle', -, hash, place, found', sameKey, sameHash⟩ :=
      moved bucket address within
    exact ⟨handle', found', by rw [sameHash, hash, sameKey], by rw [place, sameHash]⟩
  · intro bucket bucket' address within address' within' first second isFirst isSecond
      equal
    obtain ⟨handle, _, found, -, -, found', sameKey, -⟩ := moved bucket address within
    obtain rfl := Option.some.inj (found'.symm.trans isFirst)
    obtain ⟨handle', _, otherFound, -, -, otherFound', otherKey, -⟩ :=
      moved bucket' address' within'
    obtain rfl := Option.some.inj (otherFound'.symm.trans isSecond)
    exact stores.unique bucket bucket' address within address' within' handle handle'
      found otherFound (by rw [← sameKey, ← otherKey, equal])

/-- The constructor's table stores nothing. -/
theorem represents_new
    (hashOf : Bytes → UInt32)
    (heap : Heap) : Represents hashOf heap new ∅ := by
  refine ⟨fun _ => [], ⟨⟨fun _ => rfl, ?_, ?_⟩, ⟨4, rfl⟩, ?_, ?_, ?_⟩, ?_, ?_⟩ <;>
    simp [new]

end LRUHandleTable
end Cache
end RocksUtil
