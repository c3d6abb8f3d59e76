import RocksUtil.Cache.Operations

/-!
# Displacing an entry

The part of `Insert` behind the eviction that enters the new entry: an entry of the same
key that the table loses is given up, and the new one is put on the list or handed out.
-/

namespace RocksUtil
namespace Cache
namespace LRUCacheShard

open LRUHandleTable (Represents Finds without displace)

variable {hashOf : Bytes → UInt32} {shard shard' : LRUCacheShard}
  {handles handles' : List Address} {outside outside' : Finset Address}
  {low high low' high' : List Address} {e : Address} {handle handle' : LRUHandle}

/-- The heap after the cache has given up its reference to an entry. -/
def dropHeap (heap : Heap) : Option Address → Heap
  | none => heap
  | some old => Function.update heap old ((heap old).map (fun handle =>
      { handle with inCache := false, refs := handle.refs - 1 }))

theorem keeps_dropHeap
    {old : Option Address}
    (capacity : shard'.capacity = shard.capacity)
    (strictCapacityLimit : shard'.strictCapacityLimit = shard.strictCapacityLimit)
    (highPriPoolRatio : shard'.highPriPoolRatio = shard.highPriPoolRatio)
    (fresh : shard'.fresh = shard.fresh)
    (deletions : shard'.deletions = shard.deletions)
    (heap : Reflags (dropHeap shard.heap old) shard'.heap) : Keeps shard shard' := by
  refine ⟨capacity, strictCapacityLimit, highPriPoolRatio, fresh, deletions, ?_, ?_⟩
  · intro address free
    obtain ⟨flag, after⟩ := heap address
    have missing : dropHeap shard.heap old address = none := by
      cases old with
      | none => exact free
      | some old =>
          by_cases here : address = old
          · subst here
            simp [dropHeap, free]
          · rw [dropHeap, Function.update_of_ne here, free]
    rw [after, missing, Option.map_none]
  · intro address handle found
    obtain ⟨handle', dropped, same, inCache⟩ : ∃ handle',
        dropHeap shard.heap old address = some handle' ∧
        handle'.identity = handle.identity ∧
        (handle'.inCache = true → handle.inCache = true) := by
      cases old with
      | none => exact ⟨handle, found, rfl, id⟩
      | some old =>
          by_cases here : address = old
          · subst here
            exact ⟨{ handle with inCache := false, refs := handle.refs - 1 },
              by simp [dropHeap, found], rfl, by simp⟩
          · exact ⟨handle, by rw [dropHeap, Function.update_of_ne here, found], rfl, id⟩
    obtain ⟨flag, after⟩ := heap.of_some dropped
    exact ⟨_, after, same, inCache⟩

/-- The table with the new entry, after the old one has been given up. -/
theorem represents_dropHeap
    {members : Set Address}
    {old : Option Address}
    {table : LRUHandleTable}
    {heap : Heap}
    (represents : Represents hashOf heap table members)
    (known : ∀ address ∈ old, ∃ handle, heap address = some handle) :
    Represents hashOf (dropHeap heap old) table members := by
  cases old with
  | none => exact represents
  | some old =>
      obtain ⟨handle, found⟩ := known old rfl
      have reflags : Reflags (Function.update heap old (some { handle with
          inCache := false, refs := handle.refs - 1 })) (dropHeap heap (some old)) := by
        rw [dropHeap, found, Option.map_some]
        exact Reflags.refl _
      exact represents_change represents found reflags rfl

/-- The entry displaced from the table, if there is one, has been given up, and has gone
off the list if it was there. -/
structure Drops
    (shard : LRUCacheShard)
    (handles : List Address)
    (outside : Finset Address)
    (low high : List Address)
    (old : Option Address)
    (shard' : LRUCacheShard)
    (low' high' : List Address) : Prop where
  accounts : Accounts shard' handles
    (outside ∪ (old.toList.filter (· ∈ low ++ high)).toFinset) low' high'
  cached : cached shard'.heap (outside ∪ (old.toList.filter (· ∈ low ++ high)).toFinset) =
    without (cached shard.heap outside) old
  heap : shard'.heap = dropHeap shard.heap old
  keeps : Keeps shard shard'
  nodes : low' ++ high' = old.elim (low ++ high) ((low ++ high).erase ·)
  shrinks : high'.Sublist high
  usage : shard'.usage.toNat ≤ shard.usage.toNat

theorem Drops.none
    (consistent : Consistent hashOf shard handles outside low high) :
    Drops shard handles outside low high none shard low high where
  accounts := by simpa using consistent.accounts
  cached := by simp [LRUHandleTable.without_none]
  heap := rfl
  keeps := Keeps.refl shard
  nodes := rfl
  shrinks := List.Sublist.refl high
  usage := le_rfl

theorem reflags_dropHeap
    {old : Address}
    {heap : Heap}
    (found : heap old = some handle) :
    Reflags (Function.update heap old
      (some { handle with inCache := false, refs := handle.refs - 1 }))
      (dropHeap heap (some old)) := by
  rw [dropHeap, found, Option.map_some]
  exact Reflags.refl _

/-- A displaced entry that nobody holds goes off the list, and is then to be freed. -/
theorem dropOld_listed
    {old : Address}
    (consistent : Consistent hashOf shard handles outside low high)
    (found : shard.heap old = some handle)
    (owned : old ∉ outside)
    (onList : old ∈ low ++ high)
    (table : LRUHandleTable)
    (charge : UInt64)
    (lastReferenceList : List Address) :
    ∃ shard' low' high', Drops shard handles outside low high (some old) shard' low' high' ∧
      dropOld { shard with table := table, usage := shard.usage + charge } (some old)
        lastReferenceList =
          some (lastReferenceList ++ (some old).toList.filter (· ∈ low ++ high),
            { shard' with table := table, usage := shard'.usage + charge }) := by
  have accounts := consistent.accounts
  have refs := accounts.refs_eq_one onList found
  have dropped : (some old).toList.filter (· ∈ low ++ high) = [old] := by
    simpa using List.mem_append.mp onList
  have isInsert : outside ∪ [old].toFinset = insert old outside := by
    rw [List.toFinset_cons, List.toFinset_nil, Finset.union_comm, Finset.insert_union,
      Finset.empty_union]
  have elsewhere : ∀ other, other ≠ old →
      (other ∈ insert old outside ↔ other ∈ outside) := by
    intro other notHere
    simp [notHere]
  have reflags := reflags_dropHeap found
  -- The entry comes off the list after its flag and count are cleared.
  have listed : Listed { shard with
      table := table
      usage := shard.usage + charge - handle.charge
      heap := dropHeap shard.heap (some old) } low high := by
    refine accounts.list.congr rfl rfl rfl rfl ?_
    intro address _ other foundOther
    by_cases here : address = old
    · rw [here] at foundOther ⊢
      obtain rfl := Option.some.inj (found.symm.trans foundOther)
      exact ⟨{ handle with inCache := false, refs := handle.refs - 1 },
        by simp [dropHeap, found], rfl, rfl⟩
    · exact ⟨other, (Function.update_of_ne here _ _).trans foundOther, rfl, rfl⟩
  obtain ⟨links, lruLowPri, lruUsage, highPriPoolUsage, low', high', run, listed', erased,
    shrinks⟩ := lruRemove_erase listed onList
  have offList : old ∉ low' ++ high' := by
    rw [erased]
    exact accounts.list.distinct.not_mem_erase
  have difference := accounts.toNat_usage_sub found owned
  have sum : shard.usage + charge - handle.charge = shard.usage - handle.charge + charge := by
    grind
  refine ⟨{ shard with
    usage := shard.usage - handle.charge
    links := links
    lruLowPri := lruLowPri
    lruUsage := lruUsage
    highPriPoolUsage := highPriPoolUsage
    heap := dropHeap shard.heap (some old) }, low', high', ⟨?_, ?_, rfl,
      keeps_dropHeap rfl rfl rfl rfl rfl (Reflags.refl (dropHeap shard.heap (some old))), erased,
      shrinks, ?_⟩, ?_⟩
  · rw [dropped, isInsert]
    exact accounts.retire found owned reflags rfl rfl rfl rfl
      (listed'.congr rfl rfl rfl rfl (fun _ _ handle found => ⟨handle, found, rfl, rfl⟩))
      (mem_erase_elsewhere erased) offList (fun _ _ => rfl) (accounts.notHeld onList)
  · rw [dropped, isInsert]
    exact cached_without reflags elsewhere (Or.inr rfl)
  · simp only
    omega
  · rw [dropped]
    simp only [dropHeap, found, refs, Option.map_some, UInt32.sub_self] at run
    simp [dropOld, dropHeap, setInCache, unref, modify, found, refs, run, ← sum]

/-- A displaced entry that somebody holds lives on. -/
theorem dropOld_pinned
    {old : Address}
    (consistent : Consistent hashOf shard handles outside low high)
    (found : shard.heap old = some handle)
    (owned : old ∉ outside)
    (inCache : handle.inCache = true)
    (held : old ∈ handles)
    (few : handles.count old + 1 < 2 ^ 32)
    (table : LRUHandleTable)
    (charge : UInt64)
    (lastReferenceList : List Address) :
    ∃ shard', Drops shard handles outside low high (some old) shard' low high ∧
      dropOld { shard with table := table, usage := shard.usage + charge } (some old)
        lastReferenceList =
          some (lastReferenceList ++ (some old).toList.filter (· ∈ low ++ high),
            { shard' with table := table, usage := shard'.usage + charge }) := by
  have accounts := consistent.accounts
  have offList : old ∉ low ++ high := fun within => accounts.notHeld within held
  have counted := accounts.counted old handle found owned
  have given := List.count_pos_iff.mpr held
  have dropped : (some old).toList.filter (· ∈ low ++ high) = [] := by
    simpa using List.mem_append.not.mp offList
  have reflags := reflags_dropHeap found
  refine ⟨{ shard with heap := dropHeap shard.heap (some old) }, ⟨?_, ?_, rfl,
    keeps_dropHeap rfl rfl rfl rfl rfl (Reflags.refl (dropHeap shard.heap (some old))), ?_,
    List.Sublist.refl high, le_rfl⟩, ?_⟩
  · rw [dropped, List.toFinset_nil, Finset.union_empty]
    refine accounts.rehandle found owned reflags rfl rfl rfl rfl ?_ (fun _ _ => Iff.rfl)
      (by simp [offList]) (fun _ _ => rfl) ?_
    · refine accounts.list.congr rfl rfl rfl rfl ?_
      intro address within other foundOther
      have notHere : address ≠ old := fun equal => offList (equal ▸ within)
      exact ⟨other, (Function.update_of_ne notHere _ _).trans foundOther, rfl, rfl⟩
    · exact counted.lower few (by simp [inCache]) (Or.inr given)
  · rw [dropped, List.toFinset_nil, Finset.union_empty]
    exact cached_without reflags (fun _ _ => Iff.rfl) (Or.inr rfl)
  · simp [List.erase_of_not_mem offList]
  · have positive := counted.pos few
    have notLast : ¬ handle.refs - 1 = 0 := by
      rw [counted.sub_one_eq_zero_iff few, if_pos inCache]
      omega
    rw [dropped]
    simp [dropOld, dropHeap, setInCache, unref, modify, found, positive, notLast]

/-- What becomes of the entry displaced from the table. -/
theorem dropOld_spec
    {old : Option Address}
    (consistent : Consistent hashOf shard handles outside low high)
    (known : ∀ address ∈ old, address ∈ cached shard.heap outside)
    (few : ∀ address ∈ old, handles.count address + 1 < 2 ^ 32)
    (table : LRUHandleTable)
    (charge : UInt64)
    (lastReferenceList : List Address) :
    ∃ shard' low' high', Drops shard handles outside low high old shard' low' high' ∧
      dropOld { shard with table := table, usage := shard.usage + charge } old
        lastReferenceList =
          some (lastReferenceList ++ old.toList.filter (· ∈ low ++ high),
            { shard' with table := table, usage := shard'.usage + charge }) := by
  cases old with
  | none => exact ⟨shard, low, high, Drops.none consistent, by simp [dropOld]⟩
  | some old =>
      obtain ⟨handle, found, owned, inCache⟩ := known old rfl
      by_cases held : old ∈ handles
      · obtain ⟨shard', drops, run⟩ := dropOld_pinned consistent found owned inCache held
          (few old rfl) table charge lastReferenceList
        exact ⟨shard', low, high, drops, run⟩
      · have onList := (consistent.accounts.onList old).mpr
          ⟨handle, found, owned, inCache, held⟩
        exact dropOld_listed consistent found owned onList table charge lastReferenceList

/-- An entry whose counter has wrapped cannot be displaced: `Unref` fails its assertion, or
`LRU_Remove` follows the null pointers of an entry that is not on the list. -/
theorem dropOld_wrapped
    {old : Address}
    (consistent : Consistent hashOf shard handles outside low high)
    (found : shard.heap old = some handle)
    (owned : old ∉ outside)
    (inCache : handle.inCache = true)
    (many : 2 ^ 32 ≤ handles.count old + 1)
    (table : LRUHandleTable)
    (usage : UInt64)
    (lastReferenceList : List Address) :
    dropOld { shard with table := table, usage := usage } (some old) lastReferenceList =
      none := by
  have accounts := consistent.accounts
  have held : old ∈ handles := List.count_pos_iff.mp (by omega)
  have offList : old ∉ low ++ high := fun within => accounts.notHeld within held
  have counted := accounts.counted old handle found owned
  rw [inCache] at counted
  rcases counted.wrapped many with refs | refs
  · simp [dropOld, setInCache, unref, modify, found, refs]
  · have null : ∀ shard' : LRUCacheShard, shard'.links = shard.links →
        shard'.lruRemove old = none := fun _ => accounts.lruRemove_offList found offList
    simp [dropOld, setInCache, unref, modify, found, refs, null]

/-- `Insert` is going to turn the entry away. -/
def Refuses (shard : LRUCacheShard) (insertion : Insertion) : Prop :=
  shard.usage - shard.lruUsage + insertion.charge > shard.capacity ∧
    (shard.strictCapacityLimit = true ∨ ¬ insertion.handle = true)

/-- The references given out after an insertion that enters its entry. -/
def heldAfter
    (insertion : Insertion)
    (e : Address)
    (handles : List Address) : List Address :=
  if insertion.handle then e :: handles else handles

/-- A new entry that a handle is asked for is accounted for. -/
theorem Accounts.enter_held
    (accounts : Accounts shard handles outside low high)
    (apart : e ∈ outside)
    (found : shard.heap e = some handle)
    (inCache : handle.inCache = true)
    (refs : handle.refs = 2)
    (room : shard.usage.toNat + handle.charge.toNat < 2 ^ 64)
    (table : LRUHandleTable) :
    Accounts { shard with table := table, usage := shard.usage + handle.charge }
      (e :: handles) (outside.erase e) low high := by
  have offList : e ∉ low ++ high := by
    intro within
    obtain ⟨_, _, owned, _⟩ := (accounts.onList e).mp within
    exact owned apart
  have notHeld : handles.count e = 0 :=
    List.count_eq_zero.mpr (fun held => (accounts.held e held).1 apart)
  refine accounts.admit found apart (Reflags.refl _) rfl rfl room rfl ?_ (fun _ _ => Iff.rfl)
    (by simp [offList]) ?_ inCache ?_
  · exact accounts.list.congr rfl rfl rfl rfl (fun _ _ handle found => ⟨handle, found, rfl, rfl⟩)
  · intro other notHere
    rw [List.count_cons_of_ne (Ne.symm notHere)]
  · rw [List.count_cons_self, notHeld, refs]
    exact ⟨rfl, Or.inl rfl, Or.inl (by omega)⟩

/-- A new entry that no handle is asked for is put on the list. -/
theorem Accounts.enter_listed
    (rounding : Rounding)
    (accounts : Accounts shard handles outside low high)
    (apart : e ∈ outside)
    (found : shard.heap e = some handle)
    (inCache : handle.inCache = true)
    (refs : handle.refs = 1)
    (room : shard.usage.toNat + handle.charge.toNat < 2 ^ 64)
    (table : LRUHandleTable) :
    ∃ shard' low' high',
      lruInsert rounding { shard with
        table := table
        usage := shard.usage + handle.charge } e = some shard' ∧
      Accounts shard' handles (outside.erase e) low' high' ∧ Keeps shard shard' ∧
      Reflags shard.heap shard'.heap ∧ shard'.table = table ∧
      shard'.usage = shard.usage + handle.charge ∧
      (low' = low ++ [e] ∧ high' = high ∨
        0 < shard.highPriPoolRatio ∧ low' ++ high' = low ++ high ++ [e]) := by
  have offList : e ∉ low ++ high := by
    intro within
    obtain ⟨_, _, owned, _⟩ := (accounts.onList e).mp within
    exact owned apart
  have notHeld : e ∉ handles := fun held => (accounts.held e held).1 apart
  have listRoom : listCharge shard.heap (low ++ high) + handle.charge.toNat < 2 ^ 64 := by
    have covered := accounts.listCharge_le accounts.list.distinct (by
      intro address within
      obtain ⟨handle, foundThere, owned, -⟩ := (accounts.onList address).mp within
      exact ⟨owned, handle, foundThere⟩)
    omega
  have listed : Listed { shard with
      table := table
      usage := shard.usage + handle.charge } low high :=
    accounts.list.congr rfl rfl rfl rfl (fun _ _ handle found => ⟨handle, found, rfl, rfl⟩)
  have notDummy : e ≠ lru := Nat.ne_of_gt (accounts.bounded e handle found).1
  have few := accounts.length_high_lt found offList
  obtain ⟨links, lruLowPri, lruUsage, highPriPoolUsage, heap, low', high', run, listed',
    reflags, appended⟩ := lruInsert_spec rounding listed accounts.nonneg found notDummy offList
      few listRoom
  have members : ∀ other, other ∈ low' ++ high' ↔ other = e ∨ other ∈ low ++ high := by
    intro other
    rcases appended with ⟨rfl, rfl⟩ | ⟨-, nodes⟩
    · simp only [List.mem_append, List.mem_singleton]
      tauto
    · rw [nodes, List.mem_append, List.mem_singleton, or_comm]
  have unchanged : Reflags (Function.update shard.heap e (some handle)) heap := by
    rwa [← found, Function.update_eq_self]
  refine ⟨_, low', high', run, ?_, Keeps.of_update found unchanged rfl id rfl rfl rfl rfl rfl,
    reflags, rfl, rfl, appended⟩
  refine accounts.admit found apart reflags rfl rfl room rfl listed' ?_
    (by simp [members, notHeld]) (fun _ _ => rfl) inCache ?_
  · intro other notHere
    simp [members, notHere]
  · rw [List.count_eq_zero.mpr notHeld, refs]
    exact ⟨rfl, Or.inl rfl, Or.inl (by omega)⟩

/-- The members of the table behind an insertion. -/
theorem cached_of_drops
    {old : Option Address}
    {heap : Heap}
    (drops : Drops shard handles outside low high old shard' low' high')
    (found : shard'.heap e = some handle)
    (reflags : Reflags shard'.heap heap)
    (inCache : handle.inCache = true) :
    cached heap ((outside ∪ (old.toList.filter (· ∈ low ++ high)).toFinset).erase e) =
      displace (cached shard.heap outside) old e := by
  ext address
  rw [mem_cached_erase found reflags inCache, drops.cached]
  rfl

/-- `Insert` once it has displaced an entry from the table. -/
theorem insertEvicted_eq
    (rounding : Rounding)
    {insertion : Insertion}
    {old : Option Address}
    {table : LRUHandleTable}
    {entries freed : List Address}
    (accepts : ¬ Refuses shard insertion)
    (inserted : shard.table.insert shard.heap e = some (old, table))
    (run : dropOld { shard with
      table := table
      usage := shard.usage + insertion.charge } old entries = some (freed, shard')) :
    shard.insertEvicted rounding insertion e entries =
      if insertion.handle then some (Status.OK, some e, freed, shard')
      else (shard'.lruInsert rounding e).map (fun shard => (Status.OK, none, freed, shard)) := by
  rw [Refuses] at accepts
  rw [insertEvicted, if_neg accepts, inserted]
  cases insertion.handle <;>
    simp [run, Option.map_eq_bind]

/-- The entry for the key of a new one is what `Insert` displaces from the table. -/
theorem Consistent.displaces
    {insertion : Insertion}
    (consistent : Consistent hashOf shard handles outside low high)
    (apart : e ∈ outside)
    (found : shard.heap e = some (insertion.entry (hashOf insertion.key))) :
    ∃ old table, shard.table.insert shard.heap e = some (old, table) ∧
      Finds shard.heap (cached shard.heap outside) insertion.key old ∧
      Represents hashOf shard.heap table (displace (cached shard.heap outside) old e) ∧
      (∀ address ∈ old, address ∈ cached shard.heap outside ∧ address ≠ e ∧
        ∃ handle, shard.heap address = some handle ∧ handle.key = insertion.key) := by
  have isNew : e ∉ cached shard.heap outside := by
    rintro ⟨_, _, owned, _⟩
    exact owned apart
  obtain ⟨old, table, inserted, finds, represents⟩ :=
    LRUHandleTable.insert_spec consistent.table found rfl isNew
  refine ⟨old, table, inserted, finds, represents, ?_⟩
  intro address isOld
  rw [Option.mem_def.mp isOld] at finds
  obtain ⟨within, handle, foundOld, sameKey⟩ := finds
  exact ⟨within, fun equal => isNew (equal ▸ within), handle, foundOld, sameKey⟩

/-- `Insert` enters the entry in the cache. -/
theorem insertEvicted_accepts
    (rounding : Rounding)
    {insertion : Insertion}
    (consistent : Consistent hashOf shard handles outside low high)
    (apart : e ∈ outside)
    (found : shard.heap e = some (insertion.entry (hashOf insertion.key)))
    (room : shard.usage.toNat + insertion.charge.toNat < 2 ^ 64)
    (accepts : ¬ Refuses shard insertion)
    (few : ∀ old handle, old ∉ outside → shard.heap old = some handle →
      handle.inCache = true → handle.key = insertion.key → handles.count old + 1 < 2 ^ 32)
    (lastReferenceList : List Address) :
    ∃ old shard' low' high',
      shard.insertEvicted rounding insertion e lastReferenceList =
        some (Status.OK, if insertion.handle then some e else none,
          lastReferenceList ++ old.toList.filter (· ∈ low ++ high), shard') ∧
      Finds shard.heap (cached shard.heap outside) insertion.key old ∧
      Consistent hashOf shard' (heldAfter insertion e handles)
        ((outside ∪ (old.toList.filter (· ∈ low ++ high)).toFinset).erase e) low' high' ∧
      Keeps shard shard' ∧ Reflags (dropHeap shard.heap old) shard'.heap ∧
      shard'.usage.toNat ≤ shard.usage.toNat + insertion.charge.toNat ∧
      ∃ low₁ high₁, high₁.Sublist high ∧
        low₁ ++ high₁ = old.elim (low ++ high) ((low ++ high).erase ·) ∧
        (if insertion.handle then low' = low₁ ∧ high' = high₁
          else low' = low₁ ++ [e] ∧ high' = high₁ ∨
            0 < shard.highPriPoolRatio ∧ low' ++ high' = low₁ ++ high₁ ++ [e]) := by
  obtain ⟨old, table, inserted, finds, represents, known⟩ := consistent.displaces apart found
  obtain ⟨shard₁, low₁, high₁, drops, run⟩ := dropOld_spec consistent
    (fun address isOld => (known address isOld).1) (by
      intro address isOld
      obtain ⟨⟨handle, foundOld, owned, inCache⟩, -, other, foundOther, sameKey⟩ :=
        known address isOld
      obtain rfl := Option.some.inj (foundOld.symm.trans foundOther)
      exact few address handle owned foundOld inCache sameKey)
    table insertion.charge lastReferenceList
  have found₁ : shard₁.heap e = some (insertion.entry (hashOf insertion.key)) := by
    rw [drops.heap]
    cases old with
    | none => exact found
    | some old =>
        rw [dropHeap, Function.update_of_ne (Ne.symm (known old rfl).2.1), found]
  have represents₁ : Represents hashOf shard₁.heap table
      (displace (cached shard.heap outside) old e) := by
    rw [drops.heap]
    exact represents_dropHeap represents (fun address isOld => by
      obtain ⟨-, -, handle, foundOld, -⟩ := known address isOld
      exact ⟨handle, foundOld⟩)
  have apart₁ := Finset.mem_union_left
    (old.toList.filter (· ∈ low ++ high)).toFinset apart
  have smaller := drops.usage
  have room₁ : shard₁.usage.toNat + insertion.charge.toNat < 2 ^ 64 := by omega
  have bound : (shard₁.usage + insertion.charge).toNat ≤
      shard.usage.toNat + insertion.charge.toNat := by
    rw [UInt64.toNat_add, Nat.mod_eq_of_lt room₁]
    omega
  have runs := insertEvicted_eq rounding accepts inserted run
  cases wanted : insertion.handle with
  | true =>
      rw [wanted, if_pos rfl] at runs
      have accounts := drops.accounts.enter_held apart₁ found₁ rfl
        (by simp [Insertion.entry, wanted]) room₁ table
      refine ⟨old, _, low₁, high₁, runs, finds, ⟨?_, ?_⟩, ?_, ?_, bound, low₁, high₁,
        drops.shrinks, drops.nodes, by simp⟩
      · have held : heldAfter insertion e handles = e :: handles := by simp [heldAfter, wanted]
        rw [held]
        exact accounts
      · rw [cached_of_drops drops found₁ (Reflags.refl _) rfl]
        exact represents₁
      · exact drops.keeps.trans { Keeps.refl shard₁ with }
      · rw [← drops.heap]
        exact Reflags.refl _
  | false =>
      obtain ⟨shard', low', high', run', accounts, keeps, reflags, sameTable, sameUsage,
        appended⟩ := drops.accounts.enter_listed rounding apart₁ found₁ rfl
          (by simp [Insertion.entry, wanted]) room₁ table
      have charges : (insertion.entry (hashOf insertion.key)).charge = insertion.charge := rfl
      rw [charges] at run' sameUsage
      rw [wanted, run'] at runs
      refine ⟨old, shard', low', high', runs, finds, ⟨?_, ?_⟩, drops.keeps.trans keeps, ?_,
        sameUsage ▸ bound, low₁, high₁, drops.shrinks, drops.nodes, ?_⟩
      · have held : heldAfter insertion e handles = handles := by simp [heldAfter, wanted]
        rw [held]
        exact accounts
      · rw [cached_of_drops drops found₁ reflags rfl, sameTable]
        exact represents_reflag represents₁ reflags
      · rw [← drops.heap]
        exact reflags
      · rw [drops.keeps.highPriPoolRatio] at appended
        simpa using appended

end LRUCacheShard
end Cache
end RocksUtil
