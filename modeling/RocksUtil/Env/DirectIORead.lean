import RocksUtil.Env.PosixWritableFile

/-!
# Reading by direct I/O

`DirectIORead` and the functions it is made of.  pread(2) transfers everything that is
asked for up to the end of the file, and fails only for an offset that does not fit into
an `off_t`.  The loop of `ReadAligned` also looks at `errno` when nothing is left to read,
where pread(2) has not set it, so it is a value of the caller.

A read from an offset inside of a sector returns as many bytes as have been read from the
start of the sector on.  So it delivers too much at the end of the file
(`directIORead_eq_iff`).
-/

namespace RocksUtil

/-- The values of `errno`. -/
inductive Errno
  /-- `EINTR`. -/
  | eintr
  /-- Any other value, with the text `strerror` has for it. -/
  | other (message : String)
  deriving DecidableEq

namespace Errno

/-- `strerror`. -/
def strerror : Errno → String
  | .eintr => "Interrupted system call"
  | .other message => message

/-- `EINVAL`. -/
def einval : Errno := .other "Invalid argument"

end Errno

namespace DirectIO

open PosixWritableFile (kSectorSize isSectorAligned)

/-- The bound of the values of an `off_t`. -/
def offsetBound : Nat := 2 ^ 63

/-- pread(2): what it transfers, or nothing where it fails with `EINVAL`. -/
def pread (contents : Bytes) (offset count : Nat) : Option Bytes :=
  if offset < offsetBound then some ((contents.drop offset).take count) else none

/-- `Upper`. -/
def upper (size fac : Nat) : Nat :=
  if size % fac = 0 then size else size + (fac - size % fac)

/-- `Lower`. -/
def lower (size fac : Nat) : Nat :=
  if size % fac = 0 then size else size - size % fac

/-- The loop of `ReadAligned`, with what has been read so far; `failed` says that `status`
is negative.  Nothing is returned when the loop does not end within `fuel` rounds. -/
def readAlignedLoop
    (contents : Bytes)
    (offset size : Nat) :
    (fuel : Nat) → (failed : Bool) → (errno : Errno) → (data : Bytes) →
      Option (Status × Bytes)
  | 0, _, _, _ => none
  | fuel + 1, failed, errno, data =>
      if data.length < size then
        match pread contents (offset + data.length) (size - data.length) with
        | none => some (.IOError Errno.einval.strerror, data)
        | some [] =>
            if errno = .eintr then readAlignedLoop contents offset size fuel false errno data
            else some (.OK, data)
        | some more =>
            if more.length % kSectorSize ≠ 0 then some (.OK, data ++ more)
            else readAlignedLoop contents offset size fuel false errno (data ++ more)
      else some (if failed then .IOError errno.strerror else .OK, data)

/-- `ReadAligned`. -/
def readAligned
    (fuel : Nat)
    (contents : Bytes)
    (errno : Errno)
    (offset size : Nat) : Option (Status × Bytes) :=
  readAlignedLoop contents offset size fuel true errno []

/-- `ReadUnaligned`, which reads whole sectors into memory of its own; `memory` is what
that holds before.  The sizes do not wrap around, as there is room for `size` bytes. -/
def readUnaligned
    (fuel : Nat)
    (contents : Bytes)
    (errno : Errno)
    (memory : Nat → UInt8)
    (offset size : Nat) : Option (Status × Bytes) :=
  let alignedOff := lower offset kSectorSize
  let alignedSize := upper (size + (offset - alignedOff)) kSectorSize
  (readAligned fuel contents errno alignedOff alignedSize).map fun result =>
    let alignedScratch :=
      result.2 ++ ((List.range alignedSize).map memory).drop result.2.length
    (result.1,
      (alignedScratch.drop (offset % kSectorSize)).take (min size result.2.length))

/-- `DirectIORead`; `aligned` says that `scratch` starts at a page. -/
def directIORead
    (fuel : Nat)
    (contents : Bytes)
    (errno : Errno)
    (aligned : Bool)
    (memory : Nat → UInt8)
    (off n : Nat) : Option (Status × Bytes) :=
  if isSectorAligned off && isSectorAligned n && aligned then
    readAligned fuel contents errno off n
  else readUnaligned fuel contents errno memory off n

/-! ## Sectors -/

theorem lower_eq (size fac : Nat) : lower size fac = size - size % fac := by
  unfold lower
  split
  · rename_i aligned
    rw [aligned, Nat.sub_zero]
  · rfl

theorem lower_le (size fac : Nat) : lower size fac ≤ size := by
  rw [lower_eq]
  exact Nat.sub_le ..

theorem lower_add_mod (size fac : Nat) : lower size fac + size % fac = size := by
  rw [lower_eq]
  exact Nat.sub_add_cancel (Nat.mod_le ..)

theorem le_upper (size fac : Nat) : size ≤ upper size fac := by
  unfold upper
  split
  · exact Nat.le_refl size
  · exact Nat.le_add_right ..

/-! ## Aligned reads -/

variable {contents data : Bytes} {errno : Errno} {offset size : Nat}

/-- The loop of `ReadAligned` finds the end of the file, without having read a part of a
sector, and takes that for an interrupted call. -/
def Stalls (contents : Bytes) (errno : Errno) (offset size : Nat) : Prop :=
  errno = .eintr ∧ 0 < size ∧ contents.length < offset + size ∧ offset < offsetBound ∧
    (contents.length ≤ offset ∨ (contents.length - offset) % kSectorSize = 0)

instance : Decidable (Stalls contents errno offset size) :=
  inferInstanceAs (Decidable (_ ∧ _ ∧ _ ∧ _ ∧ _))

/-- Nothing is left to read. -/
theorem readAlignedLoop_end
    (fuel : Nat)
    (failed : Bool)
    (isAll : data.length < size → contents.length ≤ offset + data.length)
    (ends : errno = .eintr → data.length < size → offsetBound ≤ offset + data.length) :
    ∃ status, readAlignedLoop contents offset size (fuel + 1) failed errno data =
      some (status, data) := by
  unfold readAlignedLoop
  by_cases short : data.length < size
  · rw [if_pos short]
    unfold pread
    by_cases fits : offset + data.length < offsetBound
    · have uninterrupted : errno ≠ .eintr := by
        intro interrupted
        have past := ends interrupted short
        omega
      rw [if_pos fits, List.drop_eq_nil_of_le (isAll short), List.take_nil]
      exact ⟨.OK, if_neg uninterrupted⟩
    · rw [if_neg fits]
      exact ⟨_, rfl⟩
  · rw [if_neg short]
    exact ⟨_, rfl⟩

/-- The end of the file is taken for an interrupted call again and again. -/
theorem readAlignedLoop_spins
    (fuel : Nat)
    (failed : Bool)
    (short : data.length < size)
    (isAll : contents.length ≤ offset + data.length)
    (fits : offset + data.length < offsetBound) :
    readAlignedLoop contents offset size fuel failed .eintr data = none := by
  induction fuel generalizing failed with
  | zero => rfl
  | succ fuel inductionHypothesis =>
      unfold readAlignedLoop pread
      rw [if_pos short, if_pos fits, List.drop_eq_nil_of_le isAll, List.take_nil]
      exact inductionHypothesis false

/-- The first round, where there is something to read. -/
theorem readAlignedLoop_first
    (fuel : Nat)
    (errno : Errno)
    (fits : contents.length < offsetBound)
    (inFile : offset < contents.length)
    (positive : 0 < size) :
    let more := (contents.drop offset).take size
    readAlignedLoop contents offset size (fuel + 1) true errno [] =
      if more.length % kSectorSize ≠ 0 then some (.OK, more)
      else readAlignedLoop contents offset size fuel false errno more := by
  intro more
  have nonempty : more ≠ [] := by
    apply List.ne_nil_of_length_pos
    rw [List.length_take, List.length_drop]
    omega
  rw [readAlignedLoop, List.length_nil, if_pos positive, pread,
    if_pos (show offset + 0 < offsetBound by omega)]
  change (match Option.some more with
    | none => _
    | some [] => _
    | some more => _) = _
  clear_value more
  cases more with
  | nil => exact absurd rfl nonempty
  | cons first rest => rfl

theorem readAligned_eq
    (fuel : Nat)
    (fits : contents.length < offsetBound)
    (moves : ¬Stalls contents errno offset size) :
    ∃ status, readAligned (fuel + 2) contents errno offset size =
      some (status, (contents.drop offset).take size) := by
  unfold readAligned
  by_cases left : offset < contents.length ∧ 0 < size
  · obtain ⟨inFile, positive⟩ := left
    rw [readAlignedLoop_first _ _ fits inFile positive]
    have isMore : ((contents.drop offset).take size).length =
        min size (contents.length - offset) := by
      rw [List.length_take, List.length_drop]
    generalize (contents.drop offset).take size = more at isMore
    split
    · exact ⟨.OK, rfl⟩
    · rename_i whole
      apply readAlignedLoop_end
      · omega
      · intro interrupted short
        refine absurd ⟨interrupted, positive, ?_, ?_, .inr ?_⟩ moves
        · omega
        · omega
        · rw [show contents.length - offset = more.length by omega]
          exact Decidable.not_not.mp whole
  · have nothing : (contents.drop offset).take size = [] := by
      rw [← List.length_eq_zero_iff, List.length_take, List.length_drop]
      omega
    rw [nothing]
    apply readAlignedLoop_end
    · intro some
      rw [List.length_nil] at some ⊢
      omega
    · intro interrupted some
      rw [List.length_nil] at some ⊢
      by_contra inBounds
      refine moves ⟨interrupted, some, ?_, ?_, .inl ?_⟩ <;> omega

theorem readAligned_of_stalls
    (fuel : Nat)
    (fits : contents.length < offsetBound)
    (stalls : Stalls contents errno offset size) :
    readAligned fuel contents errno offset size = none := by
  obtain ⟨rfl, positive, short, inBounds, isEnd⟩ := stalls
  unfold readAligned
  by_cases inFile : offset < contents.length
  · cases fuel with
    | zero => rfl
    | succ fuel =>
        rw [readAlignedLoop_first _ _ fits inFile positive]
        have isMore : ((contents.drop offset).take size).length = contents.length - offset := by
          rw [List.length_take, List.length_drop]
          omega
        generalize (contents.drop offset).take size = more at isMore
        have whole := isEnd.resolve_left (Nat.not_le.mpr inFile)
        rw [← isMore] at whole
        rw [if_neg (not_not.mpr whole)]
        apply readAlignedLoop_spins <;> omega
  · apply readAlignedLoop_spins
    · exact positive
    · exact Nat.not_lt.mp inFile
    · exact inBounds

/-! ## All reads -/

variable {off n : Nat}

/-- The read stays in the file, starts at a sector, or finds the file ending in front of
the sector it starts in. -/
def Exact (contents : Bytes) (off n : Nat) : Prop :=
  off % kSectorSize = 0 ∨ n = 0 ∨ off + n ≤ contents.length ∨
    contents.length ≤ lower off kSectorSize

instance : Decidable (Exact contents off n) :=
  inferInstanceAs (Decidable (_ ∨ _ ∨ _ ∨ _))

/-- The sectors that a read looks at, from the one it starts in on. -/
abbrev alignedSize (off n : Nat) : Nat :=
  upper (n + (off - lower off kSectorSize)) kSectorSize

theorem sectors_of_aligned
    (atSector : off % kSectorSize = 0)
    (whole : n % kSectorSize = 0) :
    lower off kSectorSize = off ∧ alignedSize off n = n := by
  have isStart : lower off kSectorSize = off := if_pos atSector
  refine ⟨isStart, ?_⟩
  unfold alignedSize
  rw [isStart, Nat.sub_self, Nat.add_zero]
  exact if_pos whole

/-- What is copied out of the sectors of an unaligned read. -/
theorem copied_eq_iff
    (contents memory : Bytes)
    (off n : Nat)
    (room : memory.length = alignedSize off n) :
    let data := (contents.drop (lower off kSectorSize)).take (alignedSize off n)
    ((data ++ memory.drop data.length).drop (off % kSectorSize)).take
        (min n data.length) = (contents.drop off).take n ↔
      Exact contents off n := by
  have split := lower_add_mod off kSectorSize
  have enough : n + (off - lower off kSectorSize) ≤ alignedSize off n := le_upper ..
  unfold Exact
  generalize alignedSize off n = size at room enough ⊢
  generalize lower off kSectorSize = start at split enough ⊢
  generalize off % kSectorSize = within at split ⊢
  subst split
  intro data
  have isLength : data.length = min size (contents.length - start) := by
    rw [List.length_take, List.length_drop]
  constructor
  · intro same
    have lengths := congrArg List.length same
    simp only [List.length_take, List.length_drop, List.length_append, room] at lengths
    omega
  · intro exact
    have inData : min n data.length ≤ (data.drop within).length := by
      rw [List.length_drop]
      omega
    by_cases none : min n data.length = 0
    · rw [none, List.take_zero]
      apply Eq.symm
      apply List.eq_nil_of_length_eq_zero
      rw [List.length_take, List.length_drop]
      omega
    · rw [List.drop_append_of_le_length (by omega), List.take_append_of_le_length inData,
        List.drop_take, List.take_take, List.drop_drop]
      apply List.take_eq_take_iff.mpr
      rw [List.length_drop]
      omega

/-- A read that ends delivers what the file holds from `off` on if and only if it is
exact. -/
theorem directIORead_eq_iff
    (fuel : Nat)
    (fits : contents.length < offsetBound)
    (aligned : Bool)
    (memory : Nat → UInt8)
    (moves : ¬Stalls contents errno (lower off kSectorSize) (alignedSize off n)) :
    ∃ status data,
      directIORead (fuel + 2) contents errno aligned memory off n = some (status, data) ∧
        (data = (contents.drop off).take n ↔ Exact contents off n) := by
  unfold directIORead
  split
  · rename_i sectors
    simp only [isSectorAligned, Bool.and_eq_true, beq_iff_eq] at sectors
    obtain ⟨⟨atSector, whole⟩, -⟩ := sectors
    obtain ⟨isStart, isSize⟩ := sectors_of_aligned atSector whole
    rw [isStart, isSize] at moves
    obtain ⟨status, isRead⟩ := readAligned_eq fuel fits moves
    exact ⟨status, _, isRead, iff_of_true rfl (.inl atSector)⟩
  · obtain ⟨status, isRead⟩ := readAligned_eq fuel fits moves
    unfold readUnaligned
    dsimp only
    rw [isRead]
    refine ⟨status, _, rfl, copied_eq_iff contents _ off n ?_⟩
    rw [List.length_map, List.length_range]

/-- A read that stalls does not end. -/
theorem directIORead_of_stalls
    (fuel : Nat)
    (fits : contents.length < offsetBound)
    (aligned : Bool)
    (memory : Nat → UInt8)
    (stalls : Stalls contents errno (lower off kSectorSize) (alignedSize off n)) :
    directIORead fuel contents errno aligned memory off n = none := by
  unfold directIORead
  split
  · rename_i sectors
    simp only [isSectorAligned, Bool.and_eq_true, beq_iff_eq] at sectors
    obtain ⟨⟨atSector, whole⟩, -⟩ := sectors
    obtain ⟨isStart, isSize⟩ := sectors_of_aligned atSector whole
    rw [isStart, isSize] at stalls
    exact readAligned_of_stalls fuel fits stalls
  · unfold readUnaligned
    dsimp only
    rw [readAligned_of_stalls fuel fits stalls, Option.map_none]

/-! ## The status of a read -/

/-- The loop of `ReadAligned` fails only if it is not entered at all, or behind the last
offset there is. -/
theorem readAlignedLoop_status
    {fuel : Nat}
    {failed : Bool}
    {status : Status}
    {result : Bytes}
    (fits : contents.length < offsetBound)
    (inBounds : offset + data.length < offsetBound)
    (entered : failed = false ∨ data.length < size)
    (ends : readAlignedLoop contents offset size fuel failed errno data =
      some (status, result)) : status = .OK := by
  induction fuel generalizing failed data with
  | zero => cases ends
  | succ fuel inductionHypothesis =>
      unfold readAlignedLoop pread at ends
      by_cases short : data.length < size
      · rw [if_pos short, if_pos inBounds] at ends
        have isMore : ((contents.drop (offset + data.length)).take
            (size - data.length)).length ≤ contents.length - (offset + data.length) := by
          rw [List.length_take, List.length_drop]
          omega
        generalize (contents.drop (offset + data.length)).take (size - data.length) = more
          at ends isMore
        cases more with
        | nil =>
            dsimp only at ends
            split at ends
            · exact inductionHypothesis inBounds (.inl rfl) ends
            · cases ends
              rfl
        | cons first rest =>
            dsimp only at ends
            split at ends
            · cases ends
              rfl
            · have stays : offset + (data ++ first :: rest).length < offsetBound := by
                rw [List.length_cons] at isMore
                rw [List.length_append, List.length_cons]
                omega
              exact inductionHypothesis stays (.inl rfl) ends
      · rw [if_neg short, entered.resolve_right short] at ends
        cases ends
        rfl

theorem readAligned_status
    {fuel : Nat}
    {status : Status}
    {result : Bytes}
    (fits : contents.length < offsetBound)
    (inBounds : offset < offsetBound)
    (positive : 0 < size)
    (ends : readAligned fuel contents errno offset size = some (status, result)) :
    status = .OK :=
  readAlignedLoop_status fits inBounds (.inr positive) ends

/-- A read of something at an offset that there is returns OK, if it ends. -/
theorem directIORead_status
    {fuel : Nat}
    {aligned : Bool}
    {memory : Nat → UInt8}
    {status : Status}
    {result : Bytes}
    (fits : contents.length < offsetBound)
    (inBounds : off < offsetBound)
    (positive : 0 < n)
    (ends : directIORead fuel contents errno aligned memory off n = some (status, result)) :
    status = .OK := by
  unfold directIORead at ends
  split at ends
  · exact readAligned_status fits inBounds positive ends
  · unfold readUnaligned at ends
    obtain ⟨⟨isStatus, data⟩, isRead, isResult⟩ := Option.map_eq_some_iff.mp ends
    cases isResult
    have start := lower_le off kSectorSize
    have enough : n + (off - lower off kSectorSize) ≤ alignedSize off n := le_upper ..
    exact readAligned_status fits (by omega) (Nat.lt_of_lt_of_le (by omega) enough) isRead

/-- `DirectIORead` returns OK and what the file holds from `off` on if and only if it does
not stall and is exact. -/
theorem directIORead_exact_iff
    (contents : Bytes)
    (errno : Errno)
    (aligned : Bool)
    (memory : Nat → UInt8)
    (off n : Nat)
    (fits : contents.length < offsetBound)
    (inBounds : off < offsetBound)
    (positive : 0 < n) :
    (∃ enough, ∀ fuel, enough ≤ fuel →
      directIORead fuel contents errno aligned memory off n =
        some (.OK, (contents.drop off).take n)) ↔
      ¬Stalls contents errno (lower off kSectorSize) (alignedSize off n) ∧
        Exact contents off n := by
  constructor
  · intro ⟨enough, returns⟩
    have moves : ¬Stalls contents errno (lower off kSectorSize) (alignedSize off n) := by
      intro stalls
      have isNone := directIORead_of_stalls enough fits aligned memory stalls
      rw [returns enough (Nat.le_refl enough)] at isNone
      cases isNone
    refine ⟨moves, ?_⟩
    obtain ⟨status, data, isRead, exact⟩ := directIORead_eq_iff enough fits aligned memory moves
    rw [returns (enough + 2) (Nat.le_add_right ..)] at isRead
    cases isRead
    exact exact.mp rfl
  · intro ⟨moves, exact⟩
    refine ⟨2, fun fuel isEnough => ?_⟩
    obtain ⟨status, data, isRead, isExact⟩ :=
      directIORead_eq_iff (fuel - 2) fits aligned memory moves
    rw [Nat.sub_add_cancel isEnough] at isRead
    rw [isRead, isExact.mpr exact, directIORead_status fits inBounds positive isRead]

/-- The second and third of three bytes. -/
theorem directIORead_exact_iff_three :
    ∃ enough, ∀ fuel, enough ≤ fuel →
      directIORead fuel [1, 2, 3] (.other "") false (fun _ => 0) 1 2 = some (.OK, [2, 3]) :=
  (directIORead_exact_iff [1, 2, 3] (.other "") false (fun _ => 0) 1 2
    (by decide) (by decide) (by decide)).mpr (by decide)

set_option maxRecDepth 4000 in
/-- A read from the second of three bytes on returns a byte behind the end of the file. -/
theorem directIORead_past_end :
    ∃ (contents : Bytes) (off n : Nat), 0 < n ∧ (contents.drop off).take n = [2, 3] ∧
      ∀ fuel, directIORead (fuel + 1) contents (.other "") false (fun _ => 0) off n =
        some (.OK, [2, 3, 0]) :=
  ⟨[1, 2, 3], 1, 4, by decide, rfl, fun _ => rfl⟩

end DirectIO
end RocksUtil
