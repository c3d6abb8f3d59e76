import RocksUtil.Env.DirectIORead
import RocksUtil.Env.RandomAccessFile

/-!
# Reading at offsets by system calls

`PosixRandomAccessFile` and `PosixRandomRWFile` of the source, which both read by calls of
pread(2).  What the next of these do is part of the state: each transfers some of the bytes
that there are, is interrupted, or fails; behind the end of the schedule they transfer
everything.  At the end of the file pread(2) returns 0 and leaves `errno` alone.

The two loops differ there: the first looks at `errno` in any case, and never ends when it
finds `EINTR`.  It also takes a read of nothing for a failed one
(`PosixRandomAccessFile.read_exact_iff`).
-/

namespace RocksUtil

/-- What pread(2) does. -/
inductive SystemRead
  /-- It transfers `count` bytes, or all there are up to what it is asked for. -/
  | done (count : Nat)
  /-- `EINTR`. -/
  | interrupted
  /-- Any other error, with the text `strerror` has for it. -/
  | error (message : String)

namespace SystemRead

/-- It transfers something where there is something, if it does not fail. -/
def positive : SystemRead → Bool
  | .done count => 0 < count
  | _ => true

/-- And it does not fail. -/
def regular : SystemRead → Bool
  | .error _ => false
  | call => call.positive

theorem positive_of_regular {call : SystemRead} (isRegular : call.regular = true) :
    call.positive = true := by
  cases call with
  | error message => rfl
  | done count => exact isRegular
  | interrupted => rfl

end SystemRead

/-- A file open for reading. -/
structure Descriptor where
  /-- What the file holds. -/
  contents : Bytes
  /-- What the next calls of pread(2) do. -/
  schedule : List SystemRead
  /-- `errno`. -/
  errno : Errno

namespace Descriptor

/-- pread(2), for an offset that an `off_t` can hold: the bytes it transfers, or nothing
where it returns −1. -/
def pread (offset count : Nat) (fd : Descriptor) : Option Bytes × Descriptor :=
  let there := (fd.contents.drop offset).take count
  match fd.schedule with
  | [] => (some there, fd)
  | .done limit :: schedule => (some (there.take limit), { fd with schedule := schedule })
  | .interrupted :: schedule =>
      (none, { fd with schedule := schedule, errno := .eintr })
  | .error message :: schedule =>
      (none, { fd with schedule := schedule, errno := .other message })

end Descriptor

/-- The state of a `PosixRandomAccessFile`. -/
structure PosixRandomAccessFile where
  /-- `filename_`. -/
  filename : String
  /-- `fd_`. -/
  fd : Descriptor

namespace PosixRandomAccessFile

/-- The loop of `Read`, with what has been read so far; `failed` says that `r` is negative.
Nothing is returned when the loop does not end within `fuel` rounds. -/
def readLoop
    (offset n : Nat) :
    (fuel : Nat) → (failed : Bool) → (data : Bytes) → Descriptor →
      Option ((Bool × Bytes) × Descriptor)
  | 0, _, _, _ => none
  | fuel + 1, failed, data, fd =>
      if data.length < n then
        match fd.pread (offset + data.length) (n - data.length) with
        | (some (first :: rest), fd) =>
            readLoop offset n fuel false (data ++ first :: rest) fd
        | (more, fd) =>
            if fd.errno = .eintr then readLoop offset n fuel more.isNone data fd
            else some ((more.isNone, data), fd)
      else some ((failed, data), fd)

/-- `Read`. -/
def read
    (fuel offset n : Nat)
    (scratch : Bytes)
    (file : PosixRandomAccessFile) : Option (ReadReply × PosixRandomAccessFile) :=
  (readLoop offset n fuel true [] file.fd).map fun ((failed, data), fd) =>
    if failed then
      ({ status := .IOError (file.filename ++ ": " ++ fd.errno.strerror)
         data := []
         inScratch := true
         scratch := overwrite scratch 0 data
         pointed := fun _ => List.nil_prefix },
        { file with fd := fd })
    else
      ({ status := .OK
         data := data
         inScratch := true
         scratch := overwrite scratch 0 data
         pointed := fun _ => prefix_overwrite scratch data },
        { file with fd := fd })

/-- `PosixRandomAccessFile` as a `RandomAccessFile`. -/
def operations (fuel : Nat) : RandomAccessFile PosixRandomAccessFile where
  read := read fuel
  shouldForwardRawRequest := false
  enableReadAhead := id

end PosixRandomAccessFile

/-- The state of a `PosixRandomRWFile` that is read. -/
structure PosixRandomRWFile where
  /-- `filename_`. -/
  filename : String
  /-- `fd_`. -/
  fd : Descriptor

namespace PosixRandomRWFile

/-- The loop of `Read`, with what has been read so far and whether a call failed. -/
def readLoop
    (offset n : Nat) :
    (fuel : Nat) → (data : Bytes) → Descriptor → Option ((Bool × Bytes) × Descriptor)
  | 0, _, _ => none
  | fuel + 1, data, fd =>
      if data.length < n then
        match fd.pread (offset + data.length) (n - data.length) with
        | (none, fd) =>
            if fd.errno = .eintr then readLoop offset n fuel data fd
            else some ((true, data), fd)
        | (some [], fd) => some ((false, data), fd)
        | (some more, fd) => readLoop offset n fuel (data ++ more) fd
      else some ((false, data), fd)

/-- `Read`.  Where it fails, `*result` is left alone. -/
def read
    (fuel offset n : Nat)
    (scratch : Bytes)
    (file : PosixRandomRWFile) : Option (ReadReply × PosixRandomRWFile) :=
  (readLoop offset n fuel [] file.fd).map fun ((failed, data), fd) =>
    if failed then
      ({ status := .IOError (file.filename ++ ": " ++ fd.errno.strerror)
         data := []
         inScratch := false
         scratch := overwrite scratch 0 data
         pointed := nofun },
        { file with fd := fd })
    else
      ({ status := .OK
         data := data
         inScratch := true
         scratch := overwrite scratch 0 data
         pointed := fun _ => prefix_overwrite scratch data },
        { file with fd := fd })

end PosixRandomRWFile

/-! ## One call of pread(2) -/

/-- A call is interrupted before one finds the end of the file, `available` bytes ahead. -/
def interruptedBefore : List SystemRead → (available : Nat) → Bool
  | .done count :: schedule, available =>
      if available = 0 then false else interruptedBefore schedule (available - count)
  | .interrupted :: _, _ => true
  | _, _ => false

namespace Descriptor

variable {offset n : Nat} {data more : Bytes} {fd next : Descriptor}

/-- What a read that has got `data` may still get. -/
def ahead (offset n : Nat) (data : Bytes) (fd : Descriptor) : Bytes :=
  (fd.contents.drop (offset + data.length)).take (n - data.length)

/-- How much of the file is ahead of a read that has got `data`. -/
def available (offset : Nat) (data : Bytes) (fd : Descriptor) : Nat :=
  fd.contents.length - (offset + data.length)

/-- A bound of the calls that a read still needs before one transfers nothing. -/
def rounds (offset n : Nat) (data : Bytes) (fd : Descriptor) : Nat :=
  fd.schedule.length + min 1 (fd.ahead offset n data).length

theorem length_ahead (offset n : Nat) (data : Bytes) (fd : Descriptor) :
    (fd.ahead offset n data).length = min (n - data.length) (fd.available offset data) := by
  rw [ahead, List.length_take, List.length_drop, available]

theorem ahead_of_not_lt (full : ¬data.length < n) : fd.ahead offset n data = [] := by
  have none : n - data.length = 0 := by omega
  rw [ahead, none, List.take_zero]

theorem available_append (offset : Nat) (data more : Bytes) (fd : Descriptor) :
    fd.available offset (data ++ more) = fd.available offset data - more.length := by
  simp only [available, List.length_append]
  omega

theorem ahead_append (isNext : more <+: fd.ahead offset n data) :
    more ++ fd.ahead offset n (data ++ more) = fd.ahead offset n data := by
  obtain ⟨rest, isRest⟩ := isNext
  have isDrop : rest = (fd.ahead offset n data).drop more.length := by
    rw [← isRest, List.drop_left]
  have same : fd.ahead offset n (data ++ more) = rest := by
    rw [isDrop, ahead, ahead, List.drop_take, List.drop_drop, List.length_append]
    congr 1
    · omega
    · rw [Nat.add_assoc]
  rw [same, isRest]

/-- The call after which the descriptor is `next` has transferred `more`. -/
structure Transfers
    (offset n : Nat)
    (data more : Bytes)
    (fd next : Descriptor) : Prop where
  contents : next.contents = fd.contents
  errno : next.errno = fd.errno
  others : ∀ call ∈ next.schedule, call ∈ fd.schedule
  isNext : more <+: fd.ahead offset n data
  atEnd : more = [] → fd.ahead offset n data = []
  fewer : more ≠ [] → next.rounds offset n (data ++ more) < fd.rounds offset n data
  interrupted : fd.available offset data < n - data.length →
    (interruptedBefore fd.schedule (fd.available offset data) = true ↔
      more ≠ [] ∧
        interruptedBefore next.schedule (next.available offset (data ++ more)) = true)

/-- The call after which the descriptor is `next` has been interrupted. -/
structure Interrupts
    (offset n : Nat)
    (data : Bytes)
    (fd next : Descriptor) : Prop where
  contents : next.contents = fd.contents
  errno : next.errno = .eintr
  others : ∀ call ∈ next.schedule, call ∈ fd.schedule
  fewer : next.rounds offset n data < fd.rounds offset n data
  interrupted : interruptedBefore fd.schedule (fd.available offset data) = true

/-- The call after which the descriptor is `next` has failed. -/
structure Fails (fd next : Descriptor) : Prop where
  contents : next.contents = fd.contents
  errno : next.errno ≠ .eintr
  others : ∀ call ∈ next.schedule, call ∈ fd.schedule
  irregular : ∃ call ∈ fd.schedule, call.regular = false

/-- What the next call does. -/
theorem pread_cases
    (positive : ∀ call ∈ fd.schedule, call.positive = true)
    (offset n : Nat)
    (data : Bytes) :
    (∃ more next, fd.pread (offset + data.length) (n - data.length) = (some more, next) ∧
      Transfers offset n data more fd next) ∨
    (∃ next, fd.pread (offset + data.length) (n - data.length) = (none, next) ∧
      Interrupts offset n data fd next) ∨
    ∃ next, fd.pread (offset + data.length) (n - data.length) = (none, next) ∧
      Fails fd next := by
  have isLength := length_ahead offset n data fd
  cases isSchedule : fd.schedule with
  | nil =>
      refine .inl ⟨fd.ahead offset n data, fd, ?_, rfl, rfl, fun _ => id, List.prefix_rfl, id,
        fun some => ?_, fun _ => ?_⟩
      · rw [pread, isSchedule]
        rfl
      · have positive := List.length_pos_of_ne_nil some
        simp only [rounds, length_ahead, available_append, List.length_append]
        omega
      · rw [isSchedule]
        exact iff_of_false nofun fun both => nomatch both.2
  | cons call rest =>
      have others : ∀ call ∈ rest, call ∈ fd.schedule := by
        rw [isSchedule]
        exact fun call member => List.mem_cons_of_mem _ member
      have isNext : call ∈ fd.schedule := by
        rw [isSchedule]
        exact List.mem_cons_self
      cases call with
      | done limit =>
          have some : 0 < limit := of_decide_eq_true (positive _ isNext)
          have isTaken : ((fd.ahead offset n data).take limit).length =
              min limit (fd.ahead offset n data).length := List.length_take
          refine .inl ⟨(fd.ahead offset n data).take limit, { fd with schedule := rest }, ?_,
            rfl, rfl, others, List.take_prefix .., fun none => ?_, fun some => ?_,
            fun short => ?_⟩
          · rw [pread, isSchedule]
            rfl
          · exact (List.take_eq_nil_iff.mp none).resolve_left (by omega)
          · have isCount : (fd.ahead offset n data).length ≠ 0 := by
              intro none
              rw [List.eq_nil_of_length_eq_zero none, List.take_nil] at some
              exact some rfl
            rw [rounds, rounds, isSchedule, List.length_cons]
            change rest.length + min 1 _ < _
            omega
          · have isLeft : available offset (data ++ (fd.ahead offset n data).take limit)
                { fd with schedule := rest } =
                fd.available offset data - limit := by
              rw [available_append, isTaken, isLength]
              change fd.available offset data - _ = _
              omega
            rw [isSchedule, interruptedBefore]
            split
            · rename_i atEnd
              have none : (fd.ahead offset n data).take limit = [] := by
                apply List.eq_nil_of_length_eq_zero
                omega
              exact iff_of_false nofun fun both => both.1 none
            · rename_i notEnd
              have some : (fd.ahead offset n data).take limit ≠ [] := by
                apply List.ne_nil_of_length_pos
                omega
              rw [isLeft]
              exact (and_iff_right some).symm
      | interrupted =>
          refine .inr (.inl ⟨{ fd with schedule := rest, errno := .eintr }, ?_, rfl, rfl, others,
            ?_, ?_⟩)
          · rw [pread, isSchedule]
          · rw [rounds, rounds, isSchedule]
            exact Nat.add_lt_add_right (Nat.lt_succ_self _) _
          · rw [isSchedule]
            rfl
      | error message =>
          refine .inr (.inr ⟨{ fd with schedule := rest, errno := .other message }, ?_, rfl,
            nofun, others, _, isNext, rfl⟩)
          rw [pread, isSchedule]

/-- What the next call does, where none fails. -/
theorem pread_regular
    (regular : ∀ call ∈ fd.schedule, call.regular = true)
    (offset n : Nat)
    (data : Bytes) :
    (∃ more next, fd.pread (offset + data.length) (n - data.length) = (some more, next) ∧
      Transfers offset n data more fd next ∧
        ∀ call ∈ next.schedule, call.regular = true) ∨
    ∃ next, fd.pread (offset + data.length) (n - data.length) = (none, next) ∧
      Interrupts offset n data fd next ∧ ∀ call ∈ next.schedule, call.regular = true := by
  have positive : ∀ call ∈ fd.schedule, call.positive = true :=
    fun call member => SystemRead.positive_of_regular (regular call member)
  obtain ⟨more, next, isRead, transfers⟩ | ⟨next, isRead, interrupts⟩ |
    ⟨next, isRead, fails⟩ := pread_cases positive offset n data
  · exact .inl ⟨more, next, isRead, transfers,
      fun call member => regular call (transfers.others call member)⟩
  · exact .inr ⟨next, isRead, interrupts,
      fun call member => regular call (interrupts.others call member)⟩
  · obtain ⟨call, member, isIrregular⟩ := fails.irregular
    rw [regular call member] at isIrregular
    cases isIrregular

end Descriptor

/-! ## The two loops -/

section

variable {offset n fuel : Nat} {data : Bytes} {fd : Descriptor}

/-- What has been got, with what is still ahead, after a call that has transferred
something. -/
theorem Descriptor.Transfers.ahead
    {more : Bytes}
    {next : Descriptor}
    (transfers : Transfers offset n data more fd next) :
    data ++ more ++ next.ahead offset n (data ++ more) = data ++ fd.ahead offset n data := by
  have same : next.ahead offset n (data ++ more) = fd.ahead offset n (data ++ more) := by
    rw [Descriptor.ahead, Descriptor.ahead, transfers.contents]
  rw [same, List.append_assoc, ahead_append transfers.isNext]

/-- After a call that has been interrupted the same is ahead. -/
theorem Descriptor.Interrupts.ahead
    {next : Descriptor}
    (interrupts : Interrupts offset n data fd next) :
    next.ahead offset n data = fd.ahead offset n data := by
  rw [Descriptor.ahead, Descriptor.ahead, interrupts.contents]

/-- The loop of `PosixRandomRWFile::Read` gets everything. -/
theorem PosixRandomRWFile.readLoop_spec
    (regular : ∀ call ∈ fd.schedule, call.regular = true)
    (enough : fd.rounds offset n data < fuel) :
    ∃ final, readLoop offset n fuel data fd =
      some ((false, data ++ fd.ahead offset n data), final) := by
  induction fuel generalizing fd data with
  | zero => cases enough
  | succ fuel inductionHypothesis =>
      unfold readLoop
      by_cases short : data.length < n
      · rw [if_pos short]
        obtain ⟨more, next, isRead, transfers, regular'⟩ | ⟨next, isRead, interrupts, regular'⟩ :=
          Descriptor.pread_regular regular offset n data
        · rw [isRead]
          cases more with
          | nil => exact ⟨next, by rw [transfers.atEnd rfl, List.append_nil]⟩
          | cons first rest =>
              have fewer := transfers.fewer (List.cons_ne_nil first rest)
              obtain ⟨final, isResult⟩ :=
                @inductionHypothesis (data ++ first :: rest) next regular' (by omega)
              rw [transfers.ahead] at isResult
              exact ⟨final, isResult⟩
        · have fewer := interrupts.fewer
          obtain ⟨final, isResult⟩ := @inductionHypothesis data next regular' (by omega)
          rw [interrupts.ahead] at isResult
          rw [isRead]
          dsimp only
          rw [if_pos interrupts.errno]
          exact ⟨final, isResult⟩
      · rw [if_neg short, Descriptor.ahead_of_not_lt short, List.append_nil]
        exact ⟨fd, rfl⟩

/-- The read finds the end of the file, and `errno` is `EINTR` by then. -/
def Descriptor.Spins (offset n : Nat) (data : Bytes) (fd : Descriptor) : Prop :=
  fd.available offset data < n - data.length ∧
    (fd.errno = .eintr ∨
      interruptedBefore fd.schedule (fd.available offset data) = true)

instance : Decidable (fd.Spins offset n data) :=
  inferInstanceAs (Decidable (_ ∧ _))

theorem Descriptor.Transfers.spins
    {more : Bytes}
    {next : Descriptor}
    (transfers : Transfers offset n data more fd next)
    (some : more ≠ []) :
    next.Spins offset n (data ++ more) ↔ fd.Spins offset n data := by
  have isMore : more.length ≤ (fd.ahead offset n data).length := transfers.isNext.length_le
  rw [length_ahead] at isMore
  have isLeft : next.available offset (data ++ more) =
      fd.available offset data - more.length := by
    rw [← available_append, available, available, transfers.contents]
  have sizes : next.available offset (data ++ more) < n - (data ++ more).length ↔
      fd.available offset data < n - data.length := by
    rw [isLeft, List.length_append]
    omega
  unfold Spins
  rw [sizes, transfers.errno]
  apply and_congr_right
  intro short
  rw [transfers.interrupted short, and_iff_right some]

/-- The loop of `PosixRandomAccessFile::Read`, where it does not spin. -/
theorem PosixRandomAccessFile.readLoop_of_moves
    {failed : Bool}
    (regular : ∀ call ∈ fd.schedule, call.regular = true)
    (entered : failed = false ∨ data.length < n)
    (moves : ¬fd.Spins offset n data)
    (enough : fd.rounds offset n data < fuel) :
    ∃ final, readLoop offset n fuel failed data fd =
      some ((false, data ++ fd.ahead offset n data), final) := by
  induction fuel generalizing fd data failed with
  | zero => cases enough
  | succ fuel inductionHypothesis =>
      unfold readLoop
      by_cases short : data.length < n
      · rw [if_pos short]
        obtain ⟨more, next, isRead, transfers, regular'⟩ | ⟨next, isRead, interrupts, regular'⟩ :=
          Descriptor.pread_regular regular offset n data
        · rw [isRead]
          cases more with
          | nil =>
              have nothing := transfers.atEnd rfl
              have isLength := fd.length_ahead offset n data
              rw [nothing, List.length_nil] at isLength
              have uninterrupted : next.errno ≠ .eintr := by
                intro interrupted
                rw [transfers.errno] at interrupted
                exact moves ⟨by omega, .inl interrupted⟩
              dsimp only
              rw [if_neg uninterrupted, nothing, List.append_nil]
              exact ⟨next, rfl⟩
          | cons first rest =>
              have some := List.cons_ne_nil first rest
              have fewer := transfers.fewer some
              obtain ⟨final, isResult⟩ :=
                @inductionHypothesis (data ++ first :: rest) next false regular' (.inl rfl)
                (fun spins => moves ((transfers.spins some).mp spins)) (by omega)
              rw [transfers.ahead] at isResult
              exact ⟨final, isResult⟩
        · have fewer := interrupts.fewer
          have moves' : ¬next.Spins offset n data := by
            intro spins
            have isEnd := spins.1
            rw [Descriptor.available, interrupts.contents] at isEnd
            exact moves ⟨isEnd, .inr interrupts.interrupted⟩
          obtain ⟨final, isResult⟩ :=
            @inductionHypothesis data next true regular' (.inr short) moves' (by omega)
          rw [interrupts.ahead] at isResult
          rw [isRead]
          dsimp only
          rw [if_pos interrupts.errno]
          exact ⟨final, isResult⟩
      · rw [if_neg short, entered.resolve_right short, Descriptor.ahead_of_not_lt short,
          List.append_nil]
        exact ⟨fd, rfl⟩

/-- The loop of `PosixRandomAccessFile::Read`, where it spins. -/
theorem PosixRandomAccessFile.readLoop_of_spins
    {failed : Bool}
    (regular : ∀ call ∈ fd.schedule, call.regular = true)
    (spins : fd.Spins offset n data) :
    readLoop offset n fuel failed data fd = none := by
  induction fuel generalizing fd data failed with
  | zero => rfl
  | succ fuel inductionHypothesis =>
      have short : data.length < n := by
        have isEnd := spins.1
        omega
      unfold readLoop
      rw [if_pos short]
      obtain ⟨more, next, isRead, transfers, regular'⟩ | ⟨next, isRead, interrupts, regular'⟩ :=
        Descriptor.pread_regular regular offset n data
      · rw [isRead]
        cases more with
        | nil =>
            have interrupted : next.errno = .eintr := by
              rw [transfers.errno]
              refine spins.2.resolve_right fun interrupted => ?_
              exact ((transfers.interrupted spins.1).mp interrupted).1 rfl
            have spins' : next.Spins offset n data := by
              have isEnd := spins.1
              rw [Descriptor.available, ← transfers.contents] at isEnd
              exact ⟨isEnd, .inl interrupted⟩
            dsimp only
            rw [if_pos interrupted]
            exact inductionHypothesis regular' spins'
        | cons first rest =>
            exact inductionHypothesis regular'
              ((transfers.spins (List.cons_ne_nil first rest)).mpr spins)
      · have spins' : next.Spins offset n data := by
          have isEnd := spins.1
          rw [Descriptor.available, ← interrupts.contents] at isEnd
          exact ⟨isEnd, .inl interrupts.errno⟩
        rw [isRead]
        dsimp only
        rw [if_pos interrupts.errno]
        exact inductionHypothesis regular' spins'

/-- The loop of `PosixRandomAccessFile::Read`, where calls may fail: what it has got is the
first part of what there is, and all of it unless the last call has failed. -/
theorem PosixRandomAccessFile.readLoop_got
    {failed isFailed : Bool}
    {got : Bytes}
    {final : Descriptor}
    (positive : ∀ call ∈ fd.schedule, call.positive = true)
    (ends : readLoop offset n fuel failed data fd = some ((isFailed, got), final)) :
    got <+: data ++ fd.ahead offset n data ∧
      (isFailed = false → got = data ++ fd.ahead offset n data) ∧
        final.contents = fd.contents ∧ ∀ call ∈ final.schedule, call ∈ fd.schedule := by
  induction fuel generalizing fd data failed with
  | zero => cases ends
  | succ fuel inductionHypothesis =>
      unfold readLoop at ends
      by_cases short : data.length < n
      · rw [if_pos short] at ends
        obtain ⟨more, next, isRead, transfers⟩ | ⟨next, isRead, interrupts⟩ |
          ⟨next, isRead, fails⟩ := Descriptor.pread_cases positive offset n data
        · rw [isRead] at ends
          have positive' : ∀ call ∈ next.schedule, call.positive = true :=
            fun call member => positive call (transfers.others call member)
          have rest {failed : Bool}
              (ends : readLoop offset n fuel failed (data ++ more) next =
                some ((isFailed, got), final)) :
              got <+: data ++ fd.ahead offset n data ∧
                (isFailed = false → got = data ++ fd.ahead offset n data) ∧
                  final.contents = fd.contents ∧
                    ∀ call ∈ final.schedule, call ∈ fd.schedule := by
            obtain ⟨isPart, isAll, sameContents, others⟩ := inductionHypothesis positive' ends
            rw [transfers.ahead] at isPart isAll
            exact ⟨isPart, isAll, sameContents.trans transfers.contents,
              fun call member => transfers.others call (others call member)⟩
          cases more with
          | nil =>
              dsimp only at ends
              split at ends
              · rw [List.append_nil] at rest
                exact rest ends
              · have isAll : data = data ++ fd.ahead offset n data := by
                  rw [transfers.atEnd rfl, List.append_nil]
                cases ends
                exact ⟨List.prefix_append .., fun _ => isAll, transfers.contents,
                  transfers.others⟩
          | cons first more => exact rest ends
        · have positive' : ∀ call ∈ next.schedule, call.positive = true :=
            fun call member => positive call (interrupts.others call member)
          rw [isRead] at ends
          dsimp only at ends
          rw [if_pos interrupts.errno] at ends
          obtain ⟨isPart, isAll, sameContents, others⟩ := inductionHypothesis positive' ends
          rw [interrupts.ahead] at isPart isAll
          exact ⟨isPart, isAll, sameContents.trans interrupts.contents,
            fun call member => interrupts.others call (others call member)⟩
        · rw [isRead] at ends
          dsimp only at ends
          rw [if_neg fails.errno] at ends
          cases ends
          exact ⟨List.prefix_append .., nofun, fails.contents, fails.others⟩
      · rw [if_neg short] at ends
        have isAll : data = data ++ fd.ahead offset n data := by
          rw [Descriptor.ahead_of_not_lt short, List.append_nil]
        cases ends
        exact ⟨List.prefix_append .., fun _ => isAll, rfl, fun _ => id⟩

end

/-! ## What the reads return -/

/-- `PosixRandomRWFile::Read` gets everything. -/
theorem PosixRandomRWFile.read_exact
    {file : PosixRandomRWFile}
    (regular : ∀ call ∈ file.fd.schedule, call.regular = true)
    {fuel offset n : Nat}
    (enough : file.fd.rounds offset n [] < fuel)
    (scratch : Bytes) :
    (file.read fuel offset n scratch).map (fun result => result.1.outcome) =
      some (.OK, (file.fd.contents.drop offset).take n) := by
  obtain ⟨final, isResult⟩ := readLoop_spec regular enough
  rw [read, isResult]
  rfl

namespace PosixRandomAccessFile

/-- `PosixRandomAccessFile::Read` gets everything if it asks for something and does not
spin. -/
theorem read_exact
    {file : PosixRandomAccessFile}
    (regular : ∀ call ∈ file.fd.schedule, call.regular = true)
    {fuel offset n : Nat}
    (positive : 0 < n)
    (moves : ¬file.fd.Spins offset n [])
    (enough : file.fd.rounds offset n [] < fuel)
    (scratch : Bytes) :
    (file.read fuel offset n scratch).map (fun result => result.1.outcome) =
      some (.OK, (file.fd.contents.drop offset).take n) := by
  obtain ⟨final, isResult⟩ :=
    @readLoop_of_moves offset n fuel [] file.fd true regular (.inr positive) moves enough
  rw [read, isResult]
  rfl

/-- What the readers of a `PosixRandomAccessFile` rely on. -/
theorem static (fuel : Nat) (contents : Bytes) :
    (operations fuel).Static contents fun file =>
      file.fd.contents = contents ∧ ∀ call ∈ file.fd.schedule, call.positive = true where
  enableReadAhead := fun _ => id
  read := by
    rintro offset n scratch file reply next ⟨isContents, positive⟩ room isRead
    change read fuel offset n scratch file = some (reply, next) at isRead
    unfold read at isRead
    obtain ⟨⟨⟨failed, got⟩, final⟩, ends, isReply⟩ := Option.map_eq_some_iff.mp isRead
    obtain ⟨isPart, isAll, sameContents, others⟩ := readLoop_got positive ends
    rw [List.nil_append] at isPart isAll
    have inScratch : 0 + got.length ≤ scratch.length := by
      have isLength := file.fd.length_ahead offset n []
      have part := isPart.length_le
      rw [List.length_nil] at isLength
      omega
    have valid : final.contents = contents ∧ ∀ call ∈ final.schedule, call.positive = true :=
      ⟨sameContents.trans isContents, fun call member => positive call (others call member)⟩
    cases failed with
    | true =>
        cases isReply
        exact ⟨nofun, length_overwrite inScratch, valid⟩
    | false =>
        cases isReply
        refine ⟨fun _ => ?_, length_overwrite inScratch, valid⟩
        rw [← isContents]
        exact isAll rfl

/-- A read of nothing fails. -/
theorem read_zero
    (fuel offset : Nat)
    (scratch : Bytes)
    (file : PosixRandomAccessFile) :
    (file.read (fuel + 1) offset 0 scratch).map (fun result => result.1.outcome) =
      some (.IOError (file.filename ++ ": " ++ file.fd.errno.strerror), []) := rfl

/-- `PosixRandomAccessFile::Read` returns OK and what the file holds, as
`PosixRandomRWFile::Read` does, if and only if it asks for something and does not find the
end of the file with `errno` being `EINTR`. -/
theorem read_exact_iff
    (file : PosixRandomAccessFile)
    (regular : ∀ call ∈ file.fd.schedule, call.regular = true)
    (offset n : Nat)
    (scratch : Bytes) :
    (∃ enough, ∀ fuel, enough ≤ fuel →
      let result := (file.read fuel offset n scratch).map fun result => result.1.outcome
      result = some (.OK, (file.fd.contents.drop offset).take n) ∧
        result = (PosixRandomRWFile.read fuel offset n scratch
          ⟨file.filename, file.fd⟩).map fun result => result.1.outcome) ↔
      0 < n ∧ ¬file.fd.Spins offset n [] := by
  constructor
  · intro ⟨enough, returns⟩
    constructor
    · apply Nat.pos_of_ne_zero
      intro none
      have succeeds := (returns (enough + 1) (Nat.le_succ enough)).1
      rw [none, read_zero] at succeeds
      cases succeeds
    · intro spins
      have succeeds := (returns enough (Nat.le_refl enough)).1
      rw [read, readLoop_of_spins regular spins] at succeeds
      cases succeeds
  · intro ⟨positive, moves⟩
    refine ⟨file.fd.rounds offset n [] + 1, fun fuel enough => ?_⟩
    have isResult := read_exact regular positive moves enough scratch
    have isOther :=
      @PosixRandomRWFile.read_exact ⟨file.filename, file.fd⟩ regular _ _ _ enough scratch
    exact ⟨isResult, isResult.trans isOther.symm⟩

/-- Three bytes by two calls with an interrupted one between them, in a longer file. -/
theorem read_exact_iff_three :
    ∃ enough, ∀ fuel, enough ≤ fuel →
      let file : PosixRandomAccessFile :=
        ⟨"f", ⟨[1, 2, 3, 4], [.done 2, .interrupted], .other ""⟩⟩
      let result := (file.read fuel 1 3 [0, 0, 0]).map fun result => result.1.outcome
      result = some (.OK, [2, 3, 4]) ∧
        result = (PosixRandomRWFile.read fuel 1 3 [0, 0, 0]
          ⟨"f", file.fd⟩).map fun result => result.1.outcome :=
  (read_exact_iff ⟨"f", ⟨[1, 2, 3, 4], [.done 2, .interrupted], .other ""⟩⟩ (by decide)
    1 3 [0, 0, 0]).mpr (by decide)

/-- One byte past the end of the file and an interrupted call, and the read does not end;
and a read of nothing fails. -/
theorem read_never_ends :
    ∃ file : PosixRandomAccessFile, (∀ call ∈ file.fd.schedule, call.regular = true) ∧
      (∀ fuel, file.read fuel 0 4 [0, 0, 0, 0] = none) ∧
        ∀ fuel, (file.read (fuel + 1) 0 0 []).map (fun result => result.1.outcome) =
          some (.IOError "f: Success", []) := by
  refine ⟨⟨"f", ⟨[1, 2, 3], [.interrupted], .other "Success"⟩⟩, by decide, fun fuel => ?_,
    fun fuel => read_zero fuel 0 [] _⟩
  rw [read, readLoop_of_spins (by decide) (by decide)]
  rfl

end PosixRandomAccessFile
end RocksUtil
