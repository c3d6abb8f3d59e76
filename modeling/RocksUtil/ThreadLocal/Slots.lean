import RocksUtil.ThreadLocal.StaticMeta

/-!
# What the operations do to the slots

A slot that a vector does not have reads as null.  In these terms `Reset`, `Swap` and
`CompareAndSwap` write one slot, and `Scrape` and `ReclaimId` one slot of every thread.
-/

namespace RocksUtil
namespace ThreadLocal
namespace StaticMeta

variable {Pointer Handler : Type} {static static' : StaticMeta Pointer Handler}

/-- The pointer in the slot of a thread; null where there is none. -/
def value
    (static : StaticMeta Pointer Handler)
    (thread : Nat)
    (id : UInt32) : Option Pointer :=
  ((static.entries thread).bind (fun entries => entries[id.toNat]?)).join

/-- A thread has a slot for an id. -/
def Covers (static : StaticMeta Pointer Handler) (thread : Nat) (id : UInt32) : Prop :=
  ∃ entries, static.entries thread = some entries ∧ id.toNat < entries.length

instance (static : StaticMeta Pointer Handler) (thread : Nat) (id : UInt32) :
    Decidable (Covers static thread id) :=
  decidable_of_iff
    ((static.entries thread).any (fun entries => decide (id.toNat < entries.length)) =
      true)
    (by simp [Covers, Option.any_eq_true])

theorem covers_of_entries
    {thread : Nat}
    (same : static'.entries thread = static.entries thread)
    (id : UInt32) :
    Covers static' thread id ↔ Covers static thread id := by
  rw [Covers, Covers, same]

/-- The chain holds the structures of the threads that have one. -/
structure Chains (static : StaticMeta Pointer Handler) (threads : List Nat) : Prop where
  ring : Ring.IsRing static.links head (threads.map some)
  mem_iff : ∀ thread, thread ∈ threads ↔ static.entries thread ≠ none
  length_le : threads.length ≤ static.created
  short : ∀ thread entries, static.entries thread = some entries →
    entries.length < 2 ^ 32

theorem chains_new : Chains (new : StaticMeta Pointer Handler) [] where
  ring := by
    refine ⟨⟨by simp [new], by simp [new]⟩, by simp, ?_⟩
    intro node outside
    have notHead : node ≠ head := fun same => outside (by simp [same])
    simp [new, notHead]
  mem_iff := by simp [new]
  length_le := Nat.zero_le _
  short := nofun

section Chain

variable {threads : List Nat}

theorem Chains.nodup (chains : Chains static threads) : threads.Nodup :=
  (List.nodup_cons.mp chains.ring.distinct).2.of_map _

theorem Chains.chained (chains : Chains static threads) : static.chained = threads := by
  have enough : (threads.map some).length < static.created + 1 := by
    rw [List.length_map]
    exact Nat.lt_succ_of_le chains.length_le
  rw [StaticMeta.chained, chains.ring.walk enough, List.filterMap_map]
  exact List.filterMap_some

/-- Only the links and the lengths of the vectors matter. -/
theorem Chains.of_lengths
    (chains : Chains static threads)
    (links : static'.links = static.links)
    (created : static'.created = static.created)
    (lengths : ∀ thread, (static'.entries thread).map List.length =
      (static.entries thread).map List.length) :
    Chains static' threads where
  ring := links ▸ chains.ring
  mem_iff := by
    intro thread
    have same := lengths thread
    rw [chains.mem_iff]
    cases before : static.entries thread <;> cases after : static'.entries thread <;>
      simp [before, after] at same ⊢
  length_le := created ▸ chains.length_le
  short := by
    intro thread entries found
    have same := lengths thread
    rw [found, Option.map_some] at same
    obtain ⟨before, isBefore, length⟩ := Option.map_eq_some_iff.mp same.symm
    rw [← length]
    exact chains.short thread before isBefore

theorem short_update
    (short : ∀ thread entries, static.entries thread = some entries →
      entries.length < 2 ^ 32)
    {thread : Nat}
    {entries : Option (List (Option Pointer))}
    (isShort : ∀ vector ∈ entries, vector.length < 2 ^ 32)
    (other : Nat)
    (vector : List (Option Pointer))
    (found : Function.update static.entries thread entries other = some vector) :
    vector.length < 2 ^ 32 := by
  by_cases same : other = thread
  · rw [same, Function.update_self] at found
    exact isShort vector found
  · rw [Function.update_of_ne same] at found
    exact short other vector found

/-- A thread gets its structure. -/
theorem Chains.addThreadData
    (chains : Chains static threads)
    {thread : Nat}
    (isNew : static.entries thread = none) :
    ∃ static', static.addThreadData thread = some static' ∧
      Chains static' (threads ++ [thread]) ∧
      static'.entries = Function.update static.entries thread (some []) ∧
      static'.handlerMap = static.handlerMap ∧
      static'.nextInstanceId = static.nextInstanceId ∧
      static'.freeInstanceIds = static.freeInstanceIds := by
  have notChained : thread ∉ threads := fun within =>
    (chains.mem_iff thread).mp within isNew
  have prev := chains.ring.prev_dummy
  have added : static.addThreadData thread = some { static with
      links := static.links.link ((threads.map some).getLastD head) (some thread) head
      created := static.created + 1
      entries := Function.update static.entries thread (some []) } := by
    rw [StaticMeta.addThreadData, prev]
    rfl
  refine ⟨_, added, ⟨?_, ?_, ?_, ?_⟩, rfl, rfl, rfl, rfl⟩
  · have ring := chains.ring
    rw [← List.append_nil (threads.map some)] at ring
    have isOther : some thread ∉ head :: (threads.map some ++ []) := by
      simpa [head] using notChained
    have linked := ring.link isOther
    rw [List.map_append]
    exact linked
  · intro other
    dsimp only
    by_cases same : other = thread
    · simp [same]
    · rw [Function.update_of_ne same, ← chains.mem_iff]
      simp [same]
  · rw [List.length_append, List.length_singleton]
    exact Nat.succ_le_succ chains.length_le
  · exact short_update chains.short (by simp)

/-- The structure of a thread is deleted. -/
theorem Chains.removeThreadData
    {before after : List Nat}
    {thread : Nat}
    (chains : Chains static (before ++ thread :: after)) :
    ∃ static', static.removeThreadData thread = some static' ∧
      Chains static' (before ++ after) ∧
      static'.entries = Function.update static.entries thread none ∧
      static'.handlerMap = static.handlerMap ∧
      static'.nextInstanceId = static.nextInstanceId ∧
      static'.freeInstanceIds = static.freeInstanceIds := by
  have ring := chains.ring
  have nodup := chains.nodup
  have lengths := chains.length_le
  rw [List.map_append, List.map_cons] at ring
  have removed : static.removeThreadData thread = some { static with
      links := static.links.unlink ((before.map some).getLastD head) (some thread)
        ((after.map some).headD head)
      entries := Function.update static.entries thread none } := by
    rw [StaticMeta.removeThreadData, ring.next_node, ring.prev_node]
    rfl
  refine ⟨_, removed, ⟨?_, ?_, ?_, ?_⟩, rfl, rfl, rfl, rfl⟩
  · rw [List.map_append]
    exact ring.unlink
  · intro other
    have isChained := chains.mem_iff other
    dsimp only
    by_cases same : other = thread
    · rw [same, Function.update_self]
      simp only [List.nodup_append, List.nodup_cons] at nodup
      simp
      grind
    · rw [Function.update_of_ne same, ← isChained]
      simp [same]
  · dsimp only
    rw [List.length_append, List.length_cons] at lengths
    rw [List.length_append]
    omega
  · exact short_update chains.short nofun

end Chain

/-! ## Slots of one thread -/

/-- The ids and the handlers are as before. -/
structure Frame (static static' : StaticMeta Pointer Handler) : Prop where
  handlerMap : static'.handlerMap = static.handlerMap
  nextInstanceId : static'.nextInstanceId = static.nextInstanceId
  freeInstanceIds : static'.freeInstanceIds = static.freeInstanceIds

theorem Frame.refl (static : StaticMeta Pointer Handler) : Frame static static :=
  ⟨rfl, rfl, rfl⟩

theorem Frame.trans
    {static'' : StaticMeta Pointer Handler}
    (first : Frame static static')
    (second : Frame static' static'') :
    Frame static static'' :=
  ⟨second.handlerMap.trans first.handlerMap,
    second.nextInstanceId.trans first.nextInstanceId,
    second.freeInstanceIds.trans first.freeInstanceIds⟩

theorem Frame.getHandler
    (frame : Frame static static')
    (id : UInt32) :
    static'.getHandler id = static.getHandler id := by
  rw [StaticMeta.getHandler, StaticMeta.getHandler, frame.handlerMap]

section Slots

variable {threads : List Nat}

theorem value_eq
    {thread : Nat}
    {entries : List (Option Pointer)}
    (found : static.entries thread = some entries)
    (id : UInt32) :
    static.value thread id = (entries[id.toNat]?).join := by
  rw [value, found]
  rfl

theorem value_of_entries
    {thread : Nat}
    (same : static'.entries thread = static.entries thread)
    (id : UInt32) :
    static'.value thread id = static.value thread id := by
  rw [value, value, same]

/-- After `GetThreadLocal` the thread has its structure. -/
theorem Chains.getThreadLocal
    (chains : Chains static threads)
    (thread : Nat) :
    ∃ static' threads' entries, static.getThreadLocal thread = some static' ∧
      Chains static' threads' ∧
      Frame static static' ∧
      static'.entries thread = some entries ∧
      (∀ other, other ≠ thread → static'.entries other = static.entries other) ∧
      ∀ id, (entries[id.toNat]?).join = static.value thread id := by
  unfold StaticMeta.getThreadLocal
  cases found : static.entries thread with
  | some entries =>
      exact ⟨static, threads, entries, rfl, chains, .refl static, found,
        fun _ _ => rfl, fun id => (value_eq found id).symm⟩
  | none =>
      obtain ⟨static', added, chains', entries, handlers, next, free⟩ :=
        chains.addThreadData found
      refine ⟨static', _, [], added, chains', ⟨handlers, next, free⟩, ?_, ?_, ?_⟩
      · rw [entries, Function.update_self]
      · intro other notThread
        rw [entries, Function.update_of_ne notThread]
      · intro id
        rw [value, found]
        rfl

theorem getElem?_resize
    (entries : List (Option Pointer))
    {size : Nat}
    (grows : entries.length ≤ size)
    (index : Nat) :
    ((resize entries size)[index]?).join = (entries[index]?).join := by
  unfold resize
  rw [List.take_of_length_le grows]
  by_cases within : index < entries.length
  · rw [List.getElem?_append_left within]
  · have beyond := Nat.le_of_not_lt within
    rw [List.getElem?_append_right beyond, List.getElem?_replicate,
      List.getElem?_eq_none beyond]
    split <;> rfl

theorem length_resize (entries : List (Option Pointer)) (size : Nat) :
    (resize entries size).length = size := by
  unfold resize
  rw [List.length_append, List.length_take, List.length_replicate]
  omega

/-- `Get` returns the pointer in the slot. -/
theorem Chains.get
    (chains : Chains static threads)
    (thread : Nat)
    (id : UInt32) :
    ∃ static' threads', static.get thread id = some (static.value thread id, static') ∧
      Chains static' threads' ∧
      Frame static static' ∧
      (∀ other, other ≠ thread → static'.entries other = static.entries other) ∧
      ∀ other id, static'.value other id = static.value other id := by
  obtain ⟨static', threads', entries, got, chains', frame, found, others, same⟩ :=
    chains.getThreadLocal thread
  refine ⟨static', threads', ?_, chains', frame, others, ?_⟩
  · rw [StaticMeta.get, got]
    simp only [Option.bind_eq_bind, Option.bind_some]
    rw [found, Option.bind_some, same]
  · intro other id
    by_cases isThread : other = thread
    · rw [isThread, value_eq found, same]
    · exact value_of_entries (others other isThread) id

/-- There is a slot for the id, with the pointer that it had. -/
theorem Chains.slot
    (chains : Chains static threads)
    (thread : Nat)
    {id : UInt32}
    (inRange : id.toNat + 1 < 2 ^ 32) :
    ∃ static' threads', static.slot thread id = some (static.value thread id, static') ∧
      Chains static' threads' ∧
      Frame static static' ∧
      Covers static' thread id ∧
      (∀ other, other ≠ thread → static'.entries other = static.entries other) ∧
      ∀ other id, static'.value other id = static.value other id := by
  obtain ⟨static', threads', entries, got, chains', frame, found, others, same⟩ :=
    chains.getThreadLocal thread
  have size : (id + 1).toNat = id.toNat + 1 := by
    rw [UInt32.toNat_add]
    exact Nat.mod_eq_of_lt inRange
  obtain ⟨resized, isResized, long, alike⟩ : ∃ resized,
      resized = (if id.toNat ≥ entries.length then resize entries (id + 1).toNat
        else entries) ∧
      id.toNat < resized.length ∧
      ∀ index, (resized[index]?).join = (entries[index]?).join := by
    refine ⟨_, rfl, ?_, ?_⟩
    · split
      · rw [length_resize, size]
        exact Nat.lt_succ_self _
      · omega
    · intro index
      split
      · rename_i short
        exact getElem?_resize entries (by omega) index
      · rfl
  have ptr : resized[id.toNat]? = some (static.value thread id) := by
    have joined := (alike id.toNat).trans (same id)
    rw [List.getElem?_eq_getElem long] at joined ⊢
    rw [← joined]
    rfl
  refine ⟨{ static' with
    entries := Function.update static'.entries thread (some resized) }, threads', ?_, ?_,
    ⟨frame.handlerMap, frame.nextInstanceId, frame.freeInstanceIds⟩,
    ⟨resized, Function.update_self .., long⟩, ?_, ?_⟩
  · rw [StaticMeta.slot, got]
    simp only [Option.bind_eq_bind, Option.bind_some]
    rw [found, Option.bind_some, ← isResized, ptr]
    rfl
  · refine { chains' with mem_iff := ?_, short := ?_ }
    · intro other
      rw [chains'.mem_iff]
      dsimp only
      by_cases isThread : other = thread
      · rw [isThread, Function.update_self, found]
        simp
      · rw [Function.update_of_ne isThread]
    · refine short_update chains'.short ?_
      intro vector isVector
      cases isVector
      rw [isResized]
      split
      · rw [length_resize, size]
        exact inRange
      · exact chains'.short thread entries found
  · intro other isOther
    dsimp only
    rw [Function.update_of_ne isOther]
    exact others other isOther
  · intro other id
    by_cases isThread : other = thread
    · rw [isThread, value_eq (Function.update_self ..), alike, same]
    · refine value_of_entries ?_ id
      dsimp only
      rw [Function.update_of_ne isThread]
      exact others other isThread

theorem value_store
    {thread : Nat}
    {id : UInt32}
    (covers : Covers static thread id)
    (ptr : Option Pointer)
    (other : Nat)
    (id' : UInt32) :
    (static.store thread id ptr).value other id' =
      if other = thread ∧ id' = id then ptr else static.value other id' := by
  obtain ⟨entries, found, within⟩ := covers
  by_cases isThread : other = thread
  · have stored : (static.store thread id ptr).entries thread =
        some (entries.set id.toNat ptr) := by
      rw [store, found]
      exact Function.update_self ..
    rw [isThread, value_eq stored, List.getElem?_set, value_eq found]
    by_cases isId : id' = id
    · rw [isId, if_pos rfl, if_pos within, if_pos ⟨rfl, rfl⟩]
      rfl
    · rw [if_neg (fun same => isId (UInt32.toNat_inj.mp same.symm)),
        if_neg (fun same => isId same.2)]
  · rw [if_neg (fun same => isThread same.1)]
    exact value_of_entries (Function.update_of_ne isThread _ _) id'

theorem length_store
    (static : StaticMeta Pointer Handler)
    (thread : Nat)
    (id : UInt32)
    (ptr : Option Pointer)
    (other : Nat) :
    ((static.store thread id ptr).entries other).map List.length =
      (static.entries other).map List.length := by
  by_cases isThread : other = thread
  · rw [isThread, store]
    dsimp only
    rw [Function.update_self, Option.map_map]
    congr 1
    funext entries
    exact List.length_set
  · have same : (static.store thread id ptr).entries other = static.entries other :=
      Function.update_of_ne isThread _ _
    rw [same]

theorem Chains.store
    (chains : Chains static threads)
    (thread : Nat)
    (id : UInt32)
    (ptr : Option Pointer) :
    Chains (static.store thread id ptr) threads :=
  chains.of_lengths rfl rfl (length_store static thread id ptr)

theorem frame_store
    (static : StaticMeta Pointer Handler)
    (thread : Nat)
    (id : UInt32)
    (ptr : Option Pointer) :
    Frame static (static.store thread id ptr) :=
  ⟨rfl, rfl, rfl⟩

end Slots

/-! ## Slots of all threads -/

section Scraping

variable {threads : List Nat}

/-- What a loop over some of the threads has done. -/
structure Exchanged
    (static : StaticMeta Pointer Handler)
    (threads : List Nat)
    (id : UInt32)
    (replacement : Option Pointer)
    (static' : StaticMeta Pointer Handler) : Prop where
  frame : Frame static static'
  links : static'.links = static.links
  created : static'.created = static.created
  others : ∀ thread, thread ∉ threads → static'.entries thread = static.entries thread
  lengths : ∀ thread, (static'.entries thread).map List.length =
    (static.entries thread).map List.length
  value_eq : ∀ thread id', static'.value thread id' =
    if thread ∈ threads ∧ id' = id ∧ Covers static thread id then replacement
    else static.value thread id'

theorem Exchanged.nil
    (static : StaticMeta Pointer Handler)
    (id : UInt32)
    (replacement : Option Pointer) :
    Exchanged static [] id replacement static where
  frame := .refl static
  links := rfl
  created := rfl
  others := fun _ _ => rfl
  lengths := fun _ => rfl
  value_eq := by simp

theorem Exchanged.entries_ne_none
    {id : UInt32}
    {replacement : Option Pointer}
    (exchanged : Exchanged static threads id replacement static')
    {thread : Nat}
    (found : static.entries thread ≠ none) :
    static'.entries thread ≠ none := by
  have same := exchanged.lengths thread
  intro missing
  rw [missing] at same
  exact found (Option.map_eq_none_iff.mp same.symm)

/-- One turn of the loop. -/
theorem exchange_spec
    {thread : Nat}
    (chained : static.entries thread ≠ none)
    (id : UInt32)
    (replacement : Option Pointer)
    (taken : List Pointer) :
    ∃ static', exchange id replacement (taken, static) thread =
        some (taken ++ (static.value thread id).toList, static') ∧
      Exchanged static [thread] id replacement static' := by
  obtain ⟨entries, found⟩ := Option.ne_none_iff_exists'.mp chained
  unfold exchange
  simp only [found, Option.bind_eq_bind, Option.bind_some]
  by_cases covered : id.toNat < entries.length
  · have covers : Covers static thread id := ⟨entries, found, covered⟩
    refine ⟨static.store thread id replacement, ?_, ?_⟩
    · rw [List.getElem?_eq_getElem covered, value_eq found,
        List.getElem?_eq_getElem covered]
      rfl
    · refine ⟨frame_store .., rfl, rfl, ?_, length_store static thread id replacement, ?_⟩
      · intro other isOther
        exact Function.update_of_ne (fun same => isOther (by simp [same])) _ _
      · intro other id'
        rw [value_store covers]
        by_cases same : other = thread ∧ id' = id
        · rw [if_pos same, if_pos ⟨by simp [same.1], same.2, same.1 ▸ covers⟩]
        · rw [if_neg same, if_neg]
          rintro ⟨isThread, isId, -⟩
          exact same ⟨List.mem_singleton.mp isThread, isId⟩
  · have uncovered : ¬Covers static thread id := by
      rintro ⟨entries', found', covered'⟩
      rw [found] at found'
      cases found'
      exact covered covered'
    have missing := List.getElem?_eq_none (Nat.le_of_not_lt covered)
    refine ⟨static, ?_, { Exchanged.nil static id replacement with
      others := fun _ _ => rfl, value_eq := ?_ }⟩
    · rw [missing, value_eq found, missing]
      simp
    · intro other id'
      rw [if_neg]
      rintro ⟨isThread, -, covers⟩
      rw [List.mem_singleton.mp isThread] at covers
      exact uncovered covers

theorem Exchanged.cons
    {static'' : StaticMeta Pointer Handler}
    {thread : Nat}
    {id : UInt32}
    {replacement : Option Pointer}
    (isNew : thread ∉ threads)
    (first : Exchanged static [thread] id replacement static')
    (rest : Exchanged static' threads id replacement static'') :
    Exchanged static (thread :: threads) id replacement static'' where
  frame := first.frame.trans rest.frame
  links := rest.links.trans first.links
  created := rest.created.trans first.created
  others := by
    intro other isOther
    rw [List.mem_cons, not_or] at isOther
    rw [rest.others other isOther.2,
      first.others other (fun same => isOther.1 (List.mem_singleton.mp same))]
  lengths := fun other => (rest.lengths other).trans (first.lengths other)
  value_eq := by
    intro other id'
    by_cases isThread : other = thread
    · have notRest : other ∉ threads := isThread ▸ isNew
      rw [rest.value_eq, if_neg (fun within => notRest within.1), first.value_eq]
      simp [isThread]
    · have same := first.others other (fun within =>
        isThread (List.mem_singleton.mp within))
      rw [rest.value_eq, value_of_entries same]
      simp only [covers_of_entries same, List.mem_cons, isThread, false_or]

theorem exchange_foldlM
    (id : UInt32)
    (replacement : Option Pointer)
    (nodup : threads.Nodup)
    (chained : ∀ thread ∈ threads, static.entries thread ≠ none)
    (taken : List Pointer) :
    ∃ static', threads.foldlM (exchange id replacement) (taken, static) =
        some (taken ++ threads.filterMap (fun thread => static.value thread id), static') ∧
      Exchanged static threads id replacement static' := by
  induction threads generalizing static taken with
  | nil => exact ⟨static, by simp, .nil static id replacement⟩
  | cons thread threads inductionHypothesis =>
      obtain ⟨isNew, nodup⟩ := List.nodup_cons.mp nodup
      obtain ⟨static', exchanged, first⟩ := exchange_spec
        (chained thread List.mem_cons_self) id replacement taken
      obtain ⟨static'', looped, rest⟩ := @inductionHypothesis static' nodup
        (fun other within => first.entries_ne_none
          (chained other (List.mem_cons_of_mem _ within)))
        (taken ++ (static.value thread id).toList)
      refine ⟨static'', ?_, first.cons isNew rest⟩
      have same : threads.filterMap (fun other => static'.value other id) =
          threads.filterMap (fun other => static.value other id) := by
        apply List.filterMap_congr
        intro other within
        refine value_of_entries (first.others other ?_) id
        rw [List.mem_singleton]
        rintro rfl
        exact isNew within
      rw [List.foldlM_cons, exchanged]
      refine looped.trans ?_
      rw [same, List.append_assoc, List.filterMap_cons]
      cases static.value thread id <;> rfl

/-- `Scrape` takes the pointers of all threads out of their slots. -/
theorem Chains.scrape
    (chains : Chains static threads)
    (id : UInt32)
    (replacement : Option Pointer) :
    ∃ static', static.scrape id replacement =
        some (threads.filterMap (fun thread => static.value thread id), static') ∧
      Chains static' threads ∧
      Exchanged static threads id replacement static' := by
  obtain ⟨static', scraped, exchanged⟩ := exchange_foldlM id replacement chains.nodup
    (fun thread within => (chains.mem_iff thread).mp within) []
  refine ⟨static', ?_, ?_, exchanged⟩
  · rw [StaticMeta.scrape, chains.chained]
    exact scraped
  · exact chains.of_lengths exchanged.links exchanged.created exchanged.lengths

/-- `ReclaimId` hands the pointers to the handler of the id, and forgets it. -/
theorem Chains.reclaimId
    (chains : Chains static threads)
    (id : UInt32) :
    ∃ static', static.reclaimId id =
        some ((static.getHandler id).toList.flatMap (fun unref =>
          (threads.filterMap (fun thread => static.value thread id)).map
            (fun ptr => (unref, ptr))), static') ∧
      Chains static' threads ∧
      (∀ thread, (static'.entries thread).map List.length =
        (static.entries thread).map List.length) ∧
      (∀ thread id', static'.value thread id' =
        if id' = id then none else static.value thread id') ∧
      (∀ id', static'.getHandler id' = if id' = id then none else static.getHandler id') ∧
      static'.nextInstanceId = static.nextInstanceId ∧
      static'.freeInstanceIds = static.freeInstanceIds ++ [id] := by
  obtain ⟨static', scraped, chains', exchanged⟩ := chains.scrape id none
  have frame := exchanged.frame
  refine ⟨{ static'.setHandler id none with
    freeInstanceIds := static'.freeInstanceIds ++ [id] }, ?_,
    chains'.of_lengths rfl rfl (fun _ => rfl), exchanged.lengths, ?_, ?_,
    frame.nextInstanceId, ?_⟩
  · rw [StaticMeta.reclaimId, scraped]
    rfl
  · intro thread id'
    have same : StaticMeta.value { static'.setHandler id none with
        freeInstanceIds := static'.freeInstanceIds ++ [id] } thread id' =
          static'.value thread id' := rfl
    rw [same, exchanged.value_eq]
    by_cases isId : id' = id
    · rw [if_pos isId]
      split
      · rfl
      · rename_i uncovered
        rw [value]
        cases found : static.entries thread with
        | none => rfl
        | some entries =>
            have chained : thread ∈ threads := by
              rw [chains.mem_iff, found]
              simp
            have short : entries.length ≤ id'.toNat := by
              by_contra long
              exact uncovered ⟨chained, isId, entries, found, isId ▸ by omega⟩
            rw [Option.bind_some, List.getElem?_eq_none short]
            rfl
    · rw [if_neg isId, if_neg (fun all => isId all.2.1)]
  · intro id'
    rw [StaticMeta.getHandler, StaticMeta.getHandler, ← frame.handlerMap]
    by_cases isId : id' = id
    · rw [isId, if_pos rfl, setHandler]
      simp
    · rw [if_neg isId, setHandler]
      simp [isId]
  · dsimp only [setHandler]
    rw [frame.freeInstanceIds]

end Scraping

/-! ## A thread exits -/

section Exit

variable {threads : List Nat}

/-- The call that is due for the slot of an id when the thread exits. -/
def dueCall
    (static : StaticMeta Pointer Handler)
    (thread : Nat)
    (id : UInt32) : Option (Handler × Pointer) := do
  let raw ← static.value thread id
  let unref ← static.getHandler id
  some (unref, raw)

theorem filterMap_perm
    {α β : Type}
    {left right : List α}
    {choose : α → Option β}
    (leftNodup : left.Nodup)
    (rightNodup : right.Nodup)
    (onlyLeft : ∀ item ∈ left, item ∉ right → choose item = none)
    (onlyRight : ∀ item ∈ right, item ∉ left → choose item = none) :
    (left.filterMap choose).Perm (right.filterMap choose) := by
  have chosen (items : List α) : items.filterMap choose =
      (items.filter (fun item => (choose item).isSome)).filterMap choose := by
    rw [List.filterMap_filter]
    apply List.filterMap_congr
    intro item _
    cases choose item <;> rfl
  rw [chosen left, chosen right]
  apply List.Perm.filterMap
  rw [List.perm_ext_iff_of_nodup (leftNodup.filter _) (rightNodup.filter _)]
  intro item
  simp only [List.mem_filter]
  grind

theorem nodup_ofNat
    {count : Nat}
    (short : count ≤ 2 ^ 32) :
    ((List.range count).map UInt32.ofNat).Nodup := by
  refine List.nodup_range.map_on ?_
  intro first isFirst second isSecond same
  have values := congrArg UInt32.toNat same
  rw [List.mem_range] at isFirst isSecond
  rwa [UInt32.toNat_ofNat', UInt32.toNat_ofNat', Nat.mod_eq_of_lt (by omega),
    Nat.mod_eq_of_lt (by omega)] at values

/-- `OnThreadExit` hands the pointers of the thread to the handlers of their ids. -/
theorem Chains.onThreadExit
    (chains : Chains static threads)
    (thread : Nat)
    {ids : List UInt32}
    (nodup : ids.Nodup)
    (unused : ∀ id, id ∉ ids → static.value thread id = none) :
    ∃ calls static' threads', static.onThreadExit thread = some (calls, static') ∧
      calls.Perm (ids.filterMap (static.dueCall thread)) ∧
      Chains static' threads' ∧
      Frame static static' ∧
      static'.entries = Function.update static.entries thread none := by
  unfold StaticMeta.onThreadExit
  cases found : static.entries thread with
  | none =>
      refine ⟨[], static, threads, rfl, ?_, chains, .refl static, ?_⟩
      · have nothing : ids.filterMap (static.dueCall thread) = [] := by
          rw [List.filterMap_eq_nil_iff]
          intro id _
          rw [dueCall, value, found]
          rfl
        rw [nothing]
      · rw [← found, Function.update_eq_self]
  | some entries =>
      have chained : thread ∈ threads := by
        rw [chains.mem_iff, found]
        simp
      have short := chains.short thread entries found
      obtain ⟨before, after, rfl⟩ := List.append_of_mem chained
      obtain ⟨static', removed, chains', entries', handlers, next, free⟩ :=
        chains.removeThreadData
      have frame : Frame static static' := ⟨handlers, next, free⟩
      refine ⟨entries.zipIdx.filterMap static'.unrefCall, static', _, ?_, ?_, chains',
        frame, entries'⟩
      · dsimp only
        rw [removed]
        rfl
      · have byIndex : entries.zipIdx.filterMap static'.unrefCall =
            ((List.range entries.length).map UInt32.ofNat).filterMap
              (static.dueCall thread) := by
          rw [List.range_eq_range', ← List.zipIdx_map_snd 0 entries, List.map_map,
            List.filterMap_map]
          apply List.filterMap_congr
          intro ⟨raw, index⟩ isEntry
          have isRaw := List.mem_zipIdx_iff_getElem?.mp isEntry
          dsimp only at isRaw
          have within := (List.getElem?_eq_some_iff.mp isRaw).1
          have toNat : (UInt32.ofNat index).toNat = index := by
            rw [UInt32.toNat_ofNat', Nat.mod_eq_of_lt (by omega)]
          rw [unrefCall, Function.comp_apply, Function.comp_apply, dueCall,
            value_eq found, toNat, isRaw, frame.getHandler]
          rfl
        rw [byIndex]
        refine filterMap_perm (nodup_ofNat (by omega)) nodup ?_ ?_
        · intro id _ isUnused
          rw [dueCall, unused id isUnused]
          rfl
        · intro id _ beyond
          have long : entries.length ≤ id.toNat := by
            by_contra within
            refine beyond (List.mem_map.mpr ⟨id.toNat, ?_, UInt32.ofNat_toNat⟩)
            exact List.mem_range.mpr (by omega)
          rw [dueCall, value_eq found, List.getElem?_eq_none long]
          rfl

end Exit

end StaticMeta
end ThreadLocal
end RocksUtil
