import Mathlib.Tactic.Linarith
import RocksUtil.Cache.LRUCacheShard

/-!
# The list of a shard

The list is a segment of low-pri entries, ending at `lru_low_pri_`, followed by
the entries of the high-pri pool.  `Listed` says so and gives the two sums of
charges kept along with it; the lemmas say what `LRU_Remove`, `LRU_Insert` and
`MaintainPoolSize` do to the two segments.
-/

namespace RocksUtil
namespace Cache
namespace LRUCacheShard

variable {shard : LRUCacheShard} {low high before after : List Address} {e : Address}
  {handle : LRUHandle}

/-- The charge of the handle at an address. -/
def chargeAt (heap : Heap) (address : Address) : Nat :=
  (heap address).elim 0 (fun handle => handle.charge.toNat)

/-- The charges of a list of handles. -/
def listCharge (heap : Heap) (addresses : List Address) : Nat :=
  (addresses.map (chargeAt heap)).sum

theorem chargeAt_of_some {heap : Heap} (found : heap e = some handle) :
    chargeAt heap e = handle.charge.toNat := by
  simp [chargeAt, found]

@[simp] theorem listCharge_nil (heap : Heap) : listCharge heap [] = 0 := rfl

@[simp] theorem listCharge_cons (heap : Heap) (addresses : List Address) :
    listCharge heap (e :: addresses) = chargeAt heap e + listCharge heap addresses := rfl

@[simp] theorem listCharge_append (heap : Heap) (left right : List Address) :
    listCharge heap (left ++ right) = listCharge heap left + listCharge heap right := by
  simp [listCharge]

theorem listCharge_congr
    {heap heap' : Heap}
    {addresses : List Address}
    (same : ∀ address ∈ addresses, chargeAt heap' address = chargeAt heap address) :
    listCharge heap' addresses = listCharge heap addresses := by
  rw [listCharge, listCharge, List.map_congr_left same]

/-- The list is the low-pri segment `low` followed by the pool `high`. -/
structure Listed (shard : LRUCacheShard) (low high : List Address) : Prop where
  ring : Ring.IsRing shard.links lru (low ++ high)
  lowest : shard.lruLowPri = low.getLastD lru
  flagged : ∀ address ∈ low ++ high, ∃ handle, shard.heap address = some handle ∧
    (handle.inHighPriPool = true ↔ address ∈ high)
  lruUsage : shard.lruUsage.toNat = listCharge shard.heap (low ++ high)
  highPriPoolUsage : shard.highPriPoolUsage.toNat = listCharge shard.heap high

/-- Handles may change as long as charges and pool flags on the list do not. -/
theorem Listed.congr
    {shard' : LRUCacheShard}
    (listed : Listed shard low high)
    (links : shard'.links = shard.links)
    (lowest : shard'.lruLowPri = shard.lruLowPri)
    (lruUsage : shard'.lruUsage = shard.lruUsage)
    (highPriPoolUsage : shard'.highPriPoolUsage = shard.highPriPoolUsage)
    (same : ∀ address ∈ low ++ high, ∀ handle, shard.heap address = some handle →
      ∃ handle', shard'.heap address = some handle' ∧ handle'.charge = handle.charge ∧
        handle'.inHighPriPool = handle.inHighPriPool) :
    Listed shard' low high := by
  have charges : ∀ address ∈ low ++ high,
      chargeAt shard'.heap address = chargeAt shard.heap address := by
    intro address within
    obtain ⟨handle, found, -⟩ := listed.flagged address within
    obtain ⟨handle', found', charge, -⟩ := same address within handle found
    rw [chargeAt_of_some found, chargeAt_of_some found', charge]
  refine ⟨links ▸ listed.ring, lowest ▸ listed.lowest, ?_, ?_, ?_⟩
  · intro address within
    obtain ⟨handle, found, flag⟩ := listed.flagged address within
    obtain ⟨handle', found', -, sameFlag⟩ := same address within handle found
    exact ⟨handle', found', by rw [sameFlag, flag]⟩
  · rw [lruUsage, listed.lruUsage, listCharge_congr charges]
  · rw [highPriPoolUsage, listed.highPriPoolUsage]
    exact (listCharge_congr (fun address within =>
      charges address (List.mem_append_right low within))).symm

/-- What `LRU_Remove` changes. -/
theorem lruRemove_eq
    {next prev : Address}
    (isNext : shard.links.next e = some next)
    (isPrev : shard.links.prev e = some prev)
    (found : shard.heap e = some handle)
    (covered : handle.inHighPriPool = true → handle.charge ≤ shard.highPriPoolUsage) :
    shard.lruRemove e = some { shard with
      lruLowPri := if shard.lruLowPri = e then prev else shard.lruLowPri
      links := shard.links.unlink prev e next
      lruUsage := shard.lruUsage - handle.charge
      highPriPoolUsage := shard.highPriPoolUsage -
        (if handle.inHighPriPool then handle.charge else 0) } := by
  cases pooled : handle.inHighPriPool with
  | false => simp [lruRemove, isNext, isPrev, found, pooled]
  | true => simp [lruRemove, isNext, isPrev, found, pooled, covered pooled]

theorem Listed.distinct (listed : Listed shard low high) : (low ++ high).Nodup :=
  (List.nodup_cons.mp listed.ring.distinct).2

theorem Listed.ne_lru
    (listed : Listed shard low high)
    {address : Address}
    (within : address ∈ low ++ high) : address ≠ lru := by
  rintro rfl
  exact (List.nodup_cons.mp listed.ring.distinct).1 within

/-- `LRU_Remove` of a low-pri entry. -/
theorem lruRemove_low
    (listed : Listed shard (before ++ e :: after) high) :
    ∃ links lruLowPri lruUsage,
      shard.lruRemove e = some { shard with
        links := links, lruLowPri := lruLowPri, lruUsage := lruUsage } ∧
      Listed { shard with
        links := links, lruLowPri := lruLowPri, lruUsage := lruUsage }
        (before ++ after) high := by
  have ring := listed.ring
  have distinct := listed.distinct
  rw [List.append_assoc, List.cons_append] at ring distinct
  obtain ⟨handle, found, flag⟩ := listed.flagged e (by simp)
  have notPooled : handle.inHighPriPool = false := by
    rw [← Bool.not_eq_true, flag]
    grind
  have usage := listed.lruUsage
  simp only [listCharge_append, listCharge_cons, chargeAt_of_some found] at usage
  have removed := lruRemove_eq ring.next_node ring.prev_node found (by simp [notPooled])
  simp only [notPooled, Bool.false_eq_true, if_false, UInt64.sub_zero] at removed
  refine ⟨_, _, _, removed, ?_, ?_, ?_, ?_, listed.highPriPoolUsage⟩
  · rw [List.append_assoc]
    exact ring.unlink
  · -- The pointer only moves when the last low-pri entry goes.
    have lowest := listed.lowest
    rcases List.eq_nil_or_concat after with rfl | ⟨init, last, rfl⟩
    · have here : shard.lruLowPri = e := by simp [lowest]
      simp [here]
    · simp only [List.concat_eq_append] at lowest distinct ⊢
      rw [← List.cons_append, ← List.append_assoc, List.getLastD_concat] at lowest
      have elsewhere : shard.lruLowPri ≠ e := by grind
      rw [if_neg elsewhere, lowest, ← List.append_assoc, List.getLastD_concat]
  · intro address within
    obtain ⟨other, foundOther, flagOther⟩ := listed.flagged address (by grind)
    exact ⟨other, foundOther, flagOther⟩
  · have covered : handle.charge ≤ shard.lruUsage := by
      rw [UInt64.le_iff_toNat_le]
      omega
    simp only [UInt64.toNat_sub_of_le _ _ covered, listCharge_append]
    omega

/-- `LRU_Remove` of an entry of the pool. -/
theorem lruRemove_high
    (listed : Listed shard low (before ++ e :: after)) :
    ∃ links lruUsage highPriPoolUsage,
      shard.lruRemove e = some { shard with
        links := links, lruUsage := lruUsage, highPriPoolUsage := highPriPoolUsage } ∧
      Listed { shard with
        links := links, lruUsage := lruUsage, highPriPoolUsage := highPriPoolUsage }
        low (before ++ after) := by
  have ring := listed.ring
  have distinct := listed.distinct
  rw [← List.append_assoc] at ring distinct
  obtain ⟨handle, found, flag⟩ := listed.flagged e (by simp)
  have pooled : handle.inHighPriPool = true := flag.mpr (by simp)
  have usage := listed.lruUsage
  have poolUsage := listed.highPriPoolUsage
  simp only [listCharge_append, listCharge_cons, chargeAt_of_some found] at usage poolUsage
  have covered : handle.charge ≤ shard.highPriPoolUsage := by
    rw [UInt64.le_iff_toNat_le]
    omega
  have removed := lruRemove_eq ring.next_node ring.prev_node found (fun _ => covered)
  have elsewhere : shard.lruLowPri ≠ e := by
    rw [listed.lowest]
    have last : low.getLastD lru ∈ lru :: low := List.getLastD_mem_cons ..
    have within : e ∈ low ++ (before ++ e :: after) := by simp
    have notDummy := listed.ne_lru within
    grind
  simp only [pooled, if_true, elsewhere, if_false] at removed
  refine ⟨_, _, _, removed, ?_, listed.lowest, ?_, ?_, ?_⟩
  · rw [← List.append_assoc]
    exact ring.unlink
  · intro address within
    obtain ⟨other, foundOther, flagOther⟩ := listed.flagged address (by grind)
    exact ⟨other, foundOther, flagOther.trans (by grind)⟩
  · have coveredToo : handle.charge ≤ shard.lruUsage := by
      rw [UInt64.le_iff_toNat_le]
      omega
    simp only [UInt64.toNat_sub_of_le _ _ coveredToo, listCharge_append]
    omega
  · simp only [UInt64.toNat_sub_of_le _ _ covered, listCharge_append]
    omega

/-- `LRU_Remove` takes the entry out of whichever segment it is in. -/
theorem lruRemove_spec
    (listed : Listed shard low high)
    (place : low ++ high = before ++ e :: after) :
    ∃ links lruLowPri lruUsage highPriPoolUsage low' high',
      shard.lruRemove e = some { shard with
        links := links
        lruLowPri := lruLowPri
        lruUsage := lruUsage
        highPriPoolUsage := highPriPoolUsage } ∧
      Listed { shard with
        links := links
        lruLowPri := lruLowPri
        lruUsage := lruUsage
        highPriPoolUsage := highPriPoolUsage } low' high' ∧
      low' ++ high' = before ++ after ∧ high'.Sublist high := by
  have inHigh : ∀ earlier, before = low ++ earlier → high = earlier ++ e :: after →
      ∃ links lruLowPri lruUsage highPriPoolUsage low' high',
        shard.lruRemove e = some { shard with
          links := links
          lruLowPri := lruLowPri
          lruUsage := lruUsage
          highPriPoolUsage := highPriPoolUsage } ∧
        Listed { shard with
          links := links
          lruLowPri := lruLowPri
          lruUsage := lruUsage
          highPriPoolUsage := highPriPoolUsage } low' high' ∧
        low' ++ high' = before ++ after ∧ high'.Sublist high := by
    rintro earlier rfl rfl
    obtain ⟨links, lruUsage, highPriPoolUsage, removed, listed'⟩ := lruRemove_high listed
    exact ⟨links, shard.lruLowPri, lruUsage, highPriPoolUsage, low, earlier ++ after,
      removed, listed', (List.append_assoc ..).symm,
      List.Sublist.append_left (List.sublist_cons_self e after) earlier⟩
  rcases List.append_eq_append_iff.mp place with ⟨earlier, rfl, isHigh⟩ | ⟨rest, rfl, split⟩
  · exact inHigh earlier rfl isHigh
  · cases rest with
    | nil => exact inHigh [] (by simp) split.symm
    | cons head rest =>
        obtain ⟨rfl, rfl⟩ := List.cons.inj split
        obtain ⟨links, lruLowPri, lruUsage, removed, listed'⟩ := lruRemove_low listed
        exact ⟨links, lruLowPri, lruUsage, shard.highPriPoolUsage, before ++ rest, high,
          removed, listed', List.append_assoc .., List.Sublist.refl high⟩

/-- The same handles up to their pool flags. -/
def Reflags (heap heap' : Heap) : Prop :=
  ∀ address, ∃ flag, heap' address =
    (heap address).map (fun handle => { handle with inHighPriPool := flag })

namespace Reflags

variable {heap heap' heap'' : Heap}

theorem refl (heap : Heap) : Reflags heap heap := by
  intro address
  cases found : heap address with
  | none => exact ⟨false, rfl⟩
  | some handle => exact ⟨handle.inHighPriPool, rfl⟩

theorem trans (first : Reflags heap heap') (second : Reflags heap' heap'') :
    Reflags heap heap'' := by
  intro address
  obtain ⟨flag, isFirst⟩ := first address
  obtain ⟨flag', isSecond⟩ := second address
  exact ⟨flag', by rw [isSecond, isFirst, Option.map_map]; rfl⟩

/-- Setting the flag of one handle. -/
theorem update
    (found : heap e = some handle)
    (flag : Bool) :
    Reflags heap (Function.update heap e
      (some { handle with inHighPriPool := flag })) := by
  intro address
  by_cases here : address = e
  · subst here
    exact ⟨flag, by rw [Function.update_self, found]; rfl⟩
  · rw [Function.update_of_ne here]
    exact refl heap address

theorem chargeAt_eq (reflags : Reflags heap heap') (address : Address) :
    chargeAt heap' address = chargeAt heap address := by
  obtain ⟨flag, same⟩ := reflags address
  rw [chargeAt, chargeAt, same]
  cases heap address <;> rfl

theorem of_some
    (reflags : Reflags heap heap')
    (found : heap e = some handle) :
    ∃ flag, heap' e = some { handle with inHighPriPool := flag } := by
  obtain ⟨flag, same⟩ := reflags e
  exact ⟨flag, by rw [same, found]; rfl⟩

theorem of_some'
    (reflags : Reflags heap heap')
    (found : heap' e = some handle) :
    ∃ flag, heap e = some { handle with inHighPriPool := flag } := by
  obtain ⟨flag, same⟩ := reflags e
  rw [found] at same
  obtain ⟨handle', found', rfl⟩ := Option.map_eq_some_iff.mp same.symm
  exact ⟨handle'.inHighPriPool, found'⟩

end Reflags

/-- One entry overflows from the pool. -/
theorem Listed.overflow
    {rest : List Address}
    (listed : Listed shard low (e :: rest))
    (found : shard.heap e = some handle) :
    Listed { shard with
      lruLowPri := e
      heap := Function.update shard.heap e (some { handle with inHighPriPool := false })
      highPriPoolUsage := shard.highPriPoolUsage - handle.charge }
      (low ++ [e]) rest := by
  have reflags := Reflags.update found false
  have charges : ∀ addresses, listCharge
      (Function.update shard.heap e (some { handle with inHighPriPool := false }))
      addresses = listCharge shard.heap addresses :=
    fun addresses => listCharge_congr (fun address _ => reflags.chargeAt_eq address)
  have distinct := listed.distinct
  have same : low ++ [e] ++ rest = low ++ e :: rest := by simp
  refine ⟨?_, ?_, ?_, ?_, ?_⟩
  · rw [same]
    exact listed.ring
  · simp
  · intro address within
    rw [same] at within
    obtain ⟨other, foundOther, flag⟩ := listed.flagged address within
    by_cases here : address = e
    · subst here
      exact ⟨_, Function.update_self .., by grind⟩
    · exact ⟨other, (Function.update_of_ne here _ _).trans foundOther, by grind⟩
  · rw [charges, same]
    exact listed.lruUsage
  · have usage := listed.highPriPoolUsage
    rw [listCharge_cons, chargeAt_of_some found] at usage
    have covered : handle.charge ≤ shard.highPriPoolUsage := by
      rw [UInt64.le_iff_toNat_le]
      omega
    rw [charges, UInt64.toNat_sub_of_le _ _ covered]
    omega

/-- `MaintainPoolSize` moves the border of the segments until the pool fits. -/
theorem maintainPoolSize_spec
    (rounding : Rounding)
    {fuel : Nat}
    (listed : Listed shard low high)
    (nonneg : 0 ≤ shard.highPriPoolCapacity)
    (enough : high.length < fuel) :
    ∃ lruLowPri highPriPoolUsage heap moved rest,
      maintainPoolSize rounding fuel shard = some { shard with
        lruLowPri := lruLowPri
        highPriPoolUsage := highPriPoolUsage
        heap := heap } ∧
      Listed { shard with
        lruLowPri := lruLowPri
        highPriPoolUsage := highPriPoolUsage
        heap := heap } (low ++ moved) rest ∧
      high = moved ++ rest ∧ Reflags shard.heap heap ∧
      rounding.round highPriPoolUsage.toNat ≤ shard.highPriPoolCapacity := by
  induction fuel generalizing shard low high with
  | zero => omega
  | succ fuel inductionHypothesis =>
      by_cases fits : rounding.round shard.highPriPoolUsage.toNat ≤
          shard.highPriPoolCapacity
      · refine ⟨shard.lruLowPri, shard.highPriPoolUsage, shard.heap, [], high, ?_, ?_, rfl,
          Reflags.refl _, fits⟩
        · rw [maintainPoolSize, if_neg (not_lt.mpr fits)]
        · rwa [List.append_nil]
      · cases high with
        | nil =>
            -- An empty pool has usage zero, and no capacity is below that.
            have empty := listed.highPriPoolUsage
            rw [listCharge_nil] at empty
            rw [empty, Nat.cast_zero, rounding.round_zero] at fits
            exact absurd nonneg fits
        | cons e high =>
            obtain ⟨handle, found, -⟩ := listed.flagged e (by simp)
            have notDummy : e ≠ lru := by
              have within : e ∈ low ++ e :: high := by simp
              exact listed.ne_lru within
            have next : shard.links.next shard.lruLowPri = some e := by
              rw [listed.lowest]
              exact listed.ring.next_last
            obtain ⟨lruLowPri, highPriPoolUsage, heap, moved, rest, run, listed', split,
              reflags, maintained⟩ :=
              inductionHypothesis (listed.overflow found) nonneg (by simpa using enough)
            refine ⟨lruLowPri, highPriPoolUsage, heap, e :: moved, rest, ?_, ?_, ?_, ?_,
              maintained⟩
            · rw [maintainPoolSize, if_pos (not_le.mp fits)]
              simp only [next, Option.bind_eq_bind, Option.bind_some, ne_eq, notDummy,
                not_false_eq_true, guard_true, setInHighPriPool, modify, found,
                Function.update_self]
              exact run
            · rw [List.append_assoc] at listed'
              exact listed'
            · rw [split]
              rfl
            · exact (Reflags.update found false).trans reflags

/-- A charge may be added to the usage of the list before `MaintainPoolSize` or
after it. -/
theorem maintainPoolSize_lruUsage
    (rounding : Rounding)
    (fuel : Nat)
    (shard : LRUCacheShard)
    (charge : UInt64) :
    maintainPoolSize rounding fuel { shard with lruUsage := shard.lruUsage + charge } =
      (maintainPoolSize rounding fuel shard).map
        (fun shard => { shard with lruUsage := shard.lruUsage + charge }) := by
  induction fuel generalizing shard with
  | zero => rfl
  | succ fuel inductionHypothesis =>
      rw [maintainPoolSize, maintainPoolSize]
      by_cases overfull : rounding.round shard.highPriPoolUsage.toNat >
          shard.highPriPoolCapacity
      · rw [if_pos overfull, if_pos overfull]
        cases isNext : shard.links.next shard.lruLowPri with
        | none => simp
        | some next =>
            by_cases dummy : next = lru
            · simp [dummy]
            · cases found : shard.heap next with
              | none => simp [dummy, setInHighPriPool, modify, found]
              | some handle =>
                  simp only [Option.bind_eq_bind, Option.bind_some, ne_eq, dummy,
                    not_false_eq_true, guard_true, setInHighPriPool, modify, found,
                    Function.update_self, Option.pure_def]
                  exact inductionHypothesis { shard with
                    highPriPoolUsage := shard.highPriPoolUsage - handle.charge
                    lruLowPri := next
                    heap := Function.update shard.heap next
                      (some { handle with inHighPriPool := false }) }
      · rw [if_neg overfull, if_neg overfull, Option.map_some]

/-- An entry linked in at the newer end of the low-pri segment. -/
theorem Listed.append_low
    {next : Address}
    (listed : Listed shard low high)
    (found : shard.heap e = some handle)
    (notDummy : e ≠ lru)
    (isNew : e ∉ low ++ high)
    (isNext : shard.links.next shard.lruLowPri = some next)
    (room : listCharge shard.heap (low ++ high) + handle.charge.toNat < 2 ^ 64) :
    Listed { shard with
      links := shard.links.link shard.lruLowPri e next
      lruLowPri := e
      heap := Function.update shard.heap e (some { handle with inHighPriPool := false })
      lruUsage := shard.lruUsage + handle.charge }
      (low ++ [e]) high := by
  have reflags := Reflags.update found false
  have charges : ∀ addresses, listCharge
      (Function.update shard.heap e (some { handle with inHighPriPool := false }))
      addresses = listCharge shard.heap addresses :=
    fun addresses => listCharge_congr (fun address _ => reflags.chargeAt_eq address)
  have nextIs : next = high.headD lru := by
    rw [listed.lowest, listed.ring.next_last] at isNext
    exact (Option.some.inj isNext).symm
  have same : low ++ [e] ++ high = low ++ e :: high := by simp
  refine ⟨?_, ?_, ?_, ?_, ?_⟩
  · simp only [same, nextIs, listed.lowest]
    exact listed.ring.link (by simp [notDummy, List.mem_append.not.mp isNew])
  · simp
  · intro address within
    by_cases here : address = e
    · subst here
      exact ⟨_, Function.update_self .., by grind⟩
    · obtain ⟨other, foundOther, flag⟩ := listed.flagged address (by grind)
      exact ⟨other, (Function.update_of_ne here _ _).trans foundOther, flag⟩
  · rw [charges, same]
    simp only [listCharge_append, listCharge_cons, chargeAt_of_some found] at room ⊢
    have usage := listed.lruUsage
    rw [listCharge_append] at usage
    rw [UInt64.toNat_add, Nat.mod_eq_of_lt (by omega)]
    omega
  · rw [charges]
    exact listed.highPriPoolUsage

/-- An entry linked in at the newer end of the pool. -/
theorem Listed.append_high
    {newest : Address}
    (listed : Listed shard low high)
    (found : shard.heap e = some handle)
    (notDummy : e ≠ lru)
    (isNew : e ∉ low ++ high)
    (isNewest : shard.links.prev lru = some newest)
    (room : listCharge shard.heap (low ++ high) + handle.charge.toNat < 2 ^ 64) :
    Listed { shard with
      links := shard.links.link newest e lru
      heap := Function.update shard.heap e (some { handle with inHighPriPool := true })
      lruUsage := shard.lruUsage + handle.charge
      highPriPoolUsage := shard.highPriPoolUsage + handle.charge }
      low (high ++ [e]) := by
  have reflags := Reflags.update found true
  have charges : ∀ addresses, listCharge
      (Function.update shard.heap e (some { handle with inHighPriPool := true }))
      addresses = listCharge shard.heap addresses :=
    fun addresses => listCharge_congr (fun address _ => reflags.chargeAt_eq address)
  have newestIs : newest = (low ++ high).getLastD lru := by
    rw [listed.ring.prev_dummy] at isNewest
    exact (Option.some.inj isNewest).symm
  have usage := listed.lruUsage
  have poolUsage := listed.highPriPoolUsage
  rw [listCharge_append] at usage room
  refine ⟨?_, listed.lowest, ?_, ?_, ?_⟩
  · have ring := listed.ring
    rw [← List.append_nil (low ++ high)] at ring
    rw [← List.append_assoc, newestIs]
    exact ring.link (by simp [notDummy, List.mem_append.not.mp isNew])
  · intro address within
    by_cases here : address = e
    · subst here
      exact ⟨_, Function.update_self .., by simp⟩
    · obtain ⟨other, foundOther, flag⟩ := listed.flagged address (by grind)
      exact ⟨other, (Function.update_of_ne here _ _).trans foundOther, by grind⟩
  · rw [charges, UInt64.toNat_add, Nat.mod_eq_of_lt (by omega)]
    simp only [listCharge_append, listCharge_cons, chargeAt_of_some found, listCharge_nil]
    omega
  · rw [charges, UInt64.toNat_add, Nat.mod_eq_of_lt (by omega)]
    simp only [listCharge_append, listCharge_cons, chargeAt_of_some found, listCharge_nil]
    omega

/-- `LRU_Insert` appends to the low-pri segment, or to the pool, which may then
overflow. -/
theorem lruInsert_spec
    (rounding : Rounding)
    (listed : Listed shard low high)
    (nonneg : 0 ≤ shard.highPriPoolCapacity)
    (found : shard.heap e = some handle)
    (notDummy : e ≠ lru)
    (isNew : e ∉ low ++ high)
    (few : high.length < shard.fresh)
    (room : listCharge shard.heap (low ++ high) + handle.charge.toNat < 2 ^ 64) :
    ∃ links lruLowPri lruUsage highPriPoolUsage heap low' high',
      shard.lruInsert rounding e = some { shard with
        links := links
        lruLowPri := lruLowPri
        lruUsage := lruUsage
        highPriPoolUsage := highPriPoolUsage
        heap := heap } ∧
      Listed { shard with
        links := links
        lruLowPri := lruLowPri
        lruUsage := lruUsage
        highPriPoolUsage := highPriPoolUsage
        heap := heap } low' high' ∧
      Reflags shard.heap heap ∧
      (low' = low ++ [e] ∧ high' = high ∨
        0 < shard.highPriPoolRatio ∧ low' ++ high' = low ++ high ++ [e]) := by
  obtain ⟨nullNext, nullPrev⟩ :=
    listed.ring.null e (by simp [notDummy, List.mem_append.not.mp isNew])
  by_cases pooled : shard.highPriPoolRatio > 0 ∧ handle.isHighPri
  · have prev := listed.ring.prev_dummy
    have appended := listed.append_high found notDummy isNew prev room
    have enough : (high ++ [e]).length < shard.fresh + 1 := by
      simpa using few
    obtain ⟨lruLowPri, highPriPoolUsage, heap, moved, rest, run, listed', split, reflags,
      -⟩ := maintainPoolSize_spec rounding appended nonneg enough
    refine ⟨_, _, _, _, _, low ++ moved, rest, ?_, listed',
      (Reflags.update found true).trans reflags, Or.inr ⟨pooled.1, ?_⟩⟩
    · rw [maintainPoolSize_lruUsage rounding _ { shard with
        links := shard.links.link ((low ++ high).getLastD lru) e lru
        heap := Function.update shard.heap e (some { handle with inHighPriPool := true })
        highPriPoolUsage := shard.highPriPoolUsage + handle.charge }] at run
      simp only [lruInsert, nullNext, nullPrev, found, if_pos pooled, prev,
        setInHighPriPool, modify, Option.bind_eq_bind, Option.bind_some, guard_true,
        Option.pure_def]
      rw [Option.map_eq_bind] at run
      exact run
    · rw [List.append_assoc, ← split, List.append_assoc]
  · have next : shard.links.next shard.lruLowPri = some (high.headD lru) := by
      rw [listed.lowest]
      exact listed.ring.next_last
    refine ⟨_, _, _, shard.highPriPoolUsage, _, low ++ [e], high, ?_,
      listed.append_low found notDummy isNew next room, Reflags.update found false,
      Or.inl ⟨rfl, rfl⟩⟩
    simp [lruInsert, nullNext, nullPrev, found, pooled, next, setInHighPriPool, modify]

end LRUCacheShard
end Cache
end RocksUtil
