import RocksUtil.Env.PosixRandomAccessFile

/-!
# Reading ahead

`ReadaheadRandomAccessFile` of the source, which keeps the bytes of its last read of the
underlying file and serves the next ones from there.  Its buffer is the scratch space of
that read, so what a failing read has written there is taken for what was cached before.

`Caches` is what holds between two calls.  Every call keeps it if the underlying file does
not fail (`serves`), and otherwise exactly if a failing read spares the cached bytes
(`read_window_iff`).
-/

namespace RocksUtil

/-- The state of a `ReadaheadRandomAccessFile`. -/
structure ReadaheadRandomAccessFile (φ : Type) where
  /-- `file_`. -/
  file : φ
  /-- `readahead_size_`. -/
  readaheadSize : Nat
  /-- `forward_calls_`. -/
  forwardCalls : Bool
  /-- `buffer_`, which is not there if calls are forwarded. -/
  buffer : Bytes
  /-- `buffer_offset_`. -/
  bufferOffset : Nat
  /-- `buffer_len_`. -/
  bufferLen : Nat

namespace ReadaheadRandomAccessFile

variable {φ : Type}

/-- The constructor; `memory` is what the buffer holds when it is allocated. -/
def new
    (F : RandomAccessFile φ)
    (readaheadSize : Nat)
    (memory : Nat → UInt8)
    (file : φ) : ReadaheadRandomAccessFile φ where
  file :=
    if F.shouldForwardRawRequest && decide (0 < readaheadSize) then F.enableReadAhead file
    else file
  readaheadSize := readaheadSize
  forwardCalls := F.shouldForwardRawRequest
  buffer :=
    if F.shouldForwardRawRequest then [] else (List.range readaheadSize).map memory
  bufferOffset := 0
  bufferLen := 0

/-- The first byte asked for is in the buffer. -/
def hits (offset : Nat) (file : ReadaheadRandomAccessFile φ) : Bool :=
  file.bufferOffset ≤ offset && decide (offset < file.bufferLen + file.bufferOffset)

/-- `copied`, once the buffer has been looked at. -/
def copied (offset n : Nat) (file : ReadaheadRandomAccessFile φ) : Nat :=
  if file.hits offset then min (file.bufferLen - (offset - file.bufferOffset)) n else 0

/-- What is copied out of the buffer. -/
def slice (offset n : Nat) (file : ReadaheadRandomAccessFile φ) : Bytes :=
  (file.buffer.drop (offset - file.bufferOffset)).take (file.copied offset n)

/-- Everything that is asked for is in the buffer. -/
def fullyCached (offset n : Nat) (file : ReadaheadRandomAccessFile φ) : Bool :=
  file.hits offset && file.copied offset n == n

/-- `Read`.  The sums of offsets and lengths do not wrap around: the first is taken of a
part of the file that is in the buffer, the second moves to the end of that part. -/
def read
    (F : RandomAccessFile φ)
    (offset n : Nat)
    (scratch : Bytes)
    (file : ReadaheadRandomAccessFile φ) :
    Option (ReadReply × ReadaheadRandomAccessFile φ) :=
  if file.readaheadSize ≤ n || file.forwardCalls then
    (F.read offset n scratch file.file).map fun (reply, next) =>
      (reply, { file with file := next })
  else
    let copied := file.copied offset n
    let scratch := overwrite scratch 0 (file.slice offset n)
    if file.fullyCached offset n then
      some (⟨.OK, scratch.take n, true, scratch, fun _ => List.take_prefix ..⟩, file)
    else
      (F.read (offset + copied) file.readaheadSize file.buffer file.file).map
        fun (readahead, next) =>
          if readahead.status.ok then
            let leftToCopy := min readahead.data.length (n - copied)
            let scratch := overwrite scratch copied (readahead.data.take leftToCopy)
            (⟨.OK, scratch.take (copied + leftToCopy), true, scratch,
                fun _ => List.take_prefix ..⟩,
              if readahead.inScratch then
                { file with
                  file := next
                  buffer := readahead.scratch
                  bufferOffset := offset + copied
                  bufferLen := readahead.data.length }
              else
                { file with file := next, buffer := readahead.scratch, bufferLen := 0 })
          else
            -- The description of the buffer stays, whatever the read has done to it.
            (⟨readahead.status, [], false, scratch, nofun⟩,
              { file with file := next, buffer := readahead.scratch })

/-- `ReadaheadRandomAccessFile` as a `RandomAccessFile`. -/
def operations (F : RandomAccessFile φ) :
    RandomAccessFile (ReadaheadRandomAccessFile φ) where
  read := read F
  shouldForwardRawRequest := false
  enableReadAhead := id

/-! ## The buffer -/

variable {offset n : Nat} {contents : Bytes} {file : ReadaheadRandomAccessFile φ}

/-- The buffer has the size it is read into with, and what is described is in it. -/
structure Fits (file : ReadaheadRandomAccessFile φ) : Prop where
  room : file.forwardCalls = false → file.buffer.length = file.readaheadSize
  inBuffer : file.bufferLen ≤ file.buffer.length

/-- What is described as cached is what the file holds. -/
def Window (contents : Bytes) (file : ReadaheadRandomAccessFile φ) : Prop :=
  file.buffer.take file.bufferLen = (contents.drop file.bufferOffset).take file.bufferLen

theorem copied_le (offset n : Nat) (file : ReadaheadRandomAccessFile φ) :
    file.copied offset n ≤ n := by
  unfold copied
  split
  · exact Nat.min_le_right ..
  · exact Nat.zero_le n

theorem length_slice (fits : file.Fits) : (file.slice offset n).length = file.copied offset n := by
  have inBuffer := fits.inBuffer
  rw [slice, List.length_take, List.length_drop]
  unfold copied
  split
  · omega
  · exact Nat.zero_min _

theorem slice_exact (window : file.Window contents) :
    file.slice offset n = (contents.drop offset).take (file.copied offset n) := by
  unfold slice copied
  split
  · rename_i hits
    simp only [ReadaheadRandomAccessFile.hits, Bool.and_eq_true, decide_eq_true_eq] at hits
    generalize isWithin : offset - file.bufferOffset = within
    have isOffset : file.bufferOffset + within = offset := by omega
    have both := congrArg (List.drop within) window
    rw [List.drop_take, List.drop_take, List.drop_drop, isOffset] at both
    have shorter := congrArg (List.take (min (file.bufferLen - within) n)) both
    rw [List.take_take, List.take_take, Nat.min_eq_left (Nat.min_le_left ..)] at shorter
    exact shorter
  · rfl

/-- What the scratch space holds once its first bytes have been written, up to the end of
some more bytes behind them. -/
theorem take_overwrite_overwrite
    (scratch first second : Bytes) :
    (overwrite (overwrite scratch 0 first) first.length second).take
        (first.length + second.length) = first ++ second := by
  rw [← Nat.zero_add first.length, PosixWritableFile.overwrite_overwrite, Nat.zero_add,
    ← List.length_append]
  exact List.prefix_iff_eq_take.mp (prefix_overwrite scratch (first ++ second)) |>.symm

/-- The bytes out of the buffer, with those of the read that goes on behind them. -/
theorem stitch
    (contents : Bytes)
    (offset : Nat)
    {copied n size : Nat}
    (atMost : copied ≤ n)
    (small : n ≤ size) :
    let fresh := (contents.drop (offset + copied)).take size
    (contents.drop offset).take copied ++ fresh.take (min fresh.length (n - copied)) =
      (contents.drop offset).take n := by
  intro fresh
  have isFresh : fresh.take (min fresh.length (n - copied)) =
      (contents.drop (offset + copied)).take (n - copied) := by
    rw [Nat.min_comm, ← List.take_take, List.take_length, List.take_take,
      Nat.min_eq_left (by omega)]
  rw [isFresh, ← List.drop_drop, ← List.take_add, Nat.add_sub_cancel' atMost]

/-! ## One read -/

/-- The call reads the underlying file into the buffer. -/
def refills (offset n : Nat) (file : ReadaheadRandomAccessFile φ) : Bool :=
  !(file.readaheadSize ≤ n || file.forwardCalls) && !file.fullyCached offset n

/-- The read that the call makes into the buffer, if it makes one and that fails, leaves
what is described as cached. -/
def Spares
    (F : RandomAccessFile φ)
    (offset n : Nat)
    (file : ReadaheadRandomAccessFile φ) : Prop :=
  file.refills offset n = true → ∀ reply next,
    F.read (offset + file.copied offset n) file.readaheadSize file.buffer file.file =
        some (reply, next) →
      reply.status.ok = false →
        reply.scratch.take file.bufferLen = file.buffer.take file.bufferLen

/-- What one `Read` does to the buffer, and what its reply is worth. -/
structure Keeps
    (F : RandomAccessFile φ)
    (contents : Bytes)
    (valid : φ → Prop)
    (offset n : Nat)
    (scratch : Bytes)
    (file : ReadaheadRandomAccessFile φ)
    (reply : ReadReply)
    (next : ReadaheadRandomAccessFile φ) : Prop where
  exact : reply.status.ok = true → reply.data = (contents.drop offset).take n
  length : reply.scratch.length = scratch.length
  fits : next.Fits
  isValid : valid next.file
  window : next.Window contents ↔ file.Spares F offset n

/-- A `Read` of a file that is read correctly where it is read without errors. -/
theorem read_spec
    {F : RandomAccessFile φ}
    {valid : φ → Prop}
    (static : F.Static contents valid)
    {scratch : Bytes}
    {reply : ReadReply}
    {next : ReadaheadRandomAccessFile φ}
    (fits : file.Fits)
    (window : file.Window contents)
    (isValid : valid file.file)
    (room : n ≤ scratch.length)
    (isRead : read F offset n scratch file = some (reply, next)) :
    Keeps F contents valid offset n scratch file reply next := by
  unfold read at isRead
  by_cases forwards : (file.readaheadSize ≤ n || file.forwardCalls) = true
  · rw [if_pos forwards] at isRead
    obtain ⟨⟨inner, after⟩, isInner, isReply⟩ := Option.map_eq_some_iff.mp isRead
    cases isReply
    obtain ⟨exact, sameLength, isValid'⟩ :=
      static.read offset n scratch file.file reply after isValid room isInner
    have noRefill : file.refills offset n = false := by
      rw [refills, forwards]
      rfl
    refine ⟨exact, sameLength, ⟨fits.room, fits.inBuffer⟩, isValid', iff_of_true window ?_⟩
    intro refills
    rw [noRefill] at refills
    cases refills
  · have notForwarded : file.forwardCalls = false ∧ n < file.readaheadSize := by
      simpa [and_comm] using forwards
    have atMost := file.copied_le offset n
    have isLength := @length_slice _ offset n file fits
    have isSlice := @slice_exact _ offset n contents file window
    have inScratch : (file.slice offset n).length ≤ scratch.length := by omega
    rw [if_neg forwards] at isRead
    dsimp only at isRead
    by_cases cached : file.fullyCached offset n = true
    · rw [if_pos cached] at isRead
      cases isRead
      have noRefill : file.refills offset n = false := by
        rw [refills, cached, Bool.not_true, Bool.and_false]
      have isAll : file.copied offset n = n := by
        simp only [fullyCached, Bool.and_eq_true, beq_iff_eq] at cached
        exact cached.2
      refine ⟨fun _ => ?_, length_overwrite (by omega), fits, isValid, iff_of_true window ?_⟩
      · have isFront := List.prefix_iff_eq_take.mp
          (prefix_overwrite scratch (file.slice offset n))
        rw [isLength, isAll] at isFront
        rw [isAll] at isSlice
        exact isFront.symm.trans isSlice
      · intro refills
        rw [noRefill] at refills
        cases refills
    · rw [if_neg cached] at isRead
      have refills : file.refills offset n = true := by
        simp [ReadaheadRandomAccessFile.refills, forwards, cached]
      obtain ⟨⟨inner, after⟩, isInner, isReply⟩ := Option.map_eq_some_iff.mp isRead
      have isRoom := fits.room notForwarded.1
      obtain ⟨exact, sameLength, isValid'⟩ := static.read _ _ _ _ inner after isValid
        (Nat.le_of_eq isRoom.symm) isInner
      dsimp only at isReply
      by_cases succeeds : inner.status.ok = true
      · rw [if_pos succeeds] at isReply
        have spares : file.Spares F offset n := by
          intro _ reply' next' isInner' fails
          rw [isInner] at isInner'
          cases isInner'
          rw [succeeds] at fails
          cases fails
        have isMore : (inner.data.take (min inner.data.length
            (n - file.copied offset n))).length =
              min inner.data.length (n - file.copied offset n) := by
          rw [List.length_take]
          omega
        have isData := take_overwrite_overwrite scratch (file.slice offset n)
          (inner.data.take (min inner.data.length (n - file.copied offset n)))
        have isExact := stitch contents offset atMost (Nat.le_of_lt notForwarded.2)
        rw [← exact succeeds, ← isSlice] at isExact
        rw [isLength, isMore, isExact] at isData
        have isScratch : (overwrite (overwrite scratch 0 (file.slice offset n))
            (file.copied offset n) (inner.data.take (min inner.data.length
              (n - file.copied offset n)))).length = scratch.length := by
          have first : (overwrite scratch 0 (file.slice offset n)).length = scratch.length :=
            length_overwrite (by omega)
          rw [length_overwrite (by omega), first]
        cases isReply
        have isBuffer : inner.scratch.length = file.readaheadSize := sameLength.trans isRoom
        by_cases pointed : inner.inScratch = true
        · rw [if_pos pointed]
          have isPrefix := inner.pointed pointed
          refine ⟨fun _ => isData, isScratch, ⟨fun _ => isBuffer, isPrefix.length_le⟩, isValid',
            iff_of_true ?_ spares⟩
          have isWindow := List.prefix_iff_eq_take.mp isPrefix
          have isFront := List.prefix_iff_eq_take.mp (List.take_prefix file.readaheadSize
            (contents.drop (offset + file.copied offset n)))
          rw [← exact succeeds] at isFront
          exact isWindow.symm.trans isFront
        · rw [if_neg pointed]
          exact ⟨fun _ => isData, isScratch, ⟨fun _ => isBuffer, Nat.zero_le _⟩, isValid',
            iff_of_true rfl spares⟩
      · rw [if_neg succeeds] at isReply
        cases isReply
        refine ⟨fun absurd => (succeeds absurd).elim, length_overwrite (by omega),
          ⟨fun _ => sameLength.trans isRoom, ?_⟩, isValid', ?_⟩
        · exact Nat.le_trans fits.inBuffer (Nat.le_of_eq sameLength.symm)
        · constructor
          · intro window' _ reply' next' isInner' _
            rw [isInner] at isInner'
            cases isInner'
            exact window'.trans window.symm
          · intro spares
            exact (spares refills inner after isInner (Bool.not_eq_true _ ▸ succeeds)).trans
              window

/-- A `Read` returns if the ones of the underlying file do, and returns OK with these. -/
theorem read_returns
    {F : RandomAccessFile φ}
    {valid : φ → Prop}
    (serves : F.Serves contents valid)
    (fits : file.Fits)
    (isValid : valid file.file)
    {scratch : Bytes}
    (room : n ≤ scratch.length) :
    ∃ reply next, read F offset n scratch file = some (reply, next) ∧
      reply.status.ok = true := by
  unfold read
  by_cases forwards : (file.readaheadSize ≤ n || file.forwardCalls) = true
  · rw [if_pos forwards]
    obtain ⟨reply, next, isRead, succeeds, -⟩ := serves.read offset n scratch _ isValid room
    rw [isRead]
    exact ⟨reply, { file with file := next }, rfl, succeeds⟩
  · rw [if_neg forwards]
    have notForwarded : file.forwardCalls = false ∧ n < file.readaheadSize := by
      simpa [and_comm] using forwards
    dsimp only
    split
    · exact ⟨_, _, rfl, rfl⟩
    · obtain ⟨reply, next, isRead, succeeds, -⟩ := serves.read
        (offset + file.copied offset n) _ file.buffer _ isValid
        (Nat.le_of_eq (fits.room notForwarded.1).symm)
      rw [isRead, Option.map_some]
      dsimp only
      rw [if_pos succeeds]
      exact ⟨_, _, rfl, rfl⟩

/-! ## Runs -/

/-- A file that is read ahead of serves its reads as the file itself does. -/
theorem serves
    {F : RandomAccessFile φ}
    {valid : φ → Prop}
    (serves : F.Serves contents valid) :
    (operations F).Serves contents fun file =>
      file.Fits ∧ file.Window contents ∧ valid file.file where
  enableReadAhead := fun _ => id
  read := by
    rintro offset n scratch file ⟨fits, window, isValid⟩ room
    obtain ⟨reply, next, isRead, succeeds⟩ := read_returns serves fits isValid room
    have keeps := read_spec (serves.static) fits window isValid room isRead
    have spares : file.Spares F offset n := by
      intro refills inner after isInner fails
      simp only [ReadaheadRandomAccessFile.refills, Bool.and_eq_true, Bool.not_eq_true',
        Bool.or_eq_false_iff] at refills
      obtain ⟨inner', after', isInner', succeeds', -⟩ := serves.read
        (offset + file.copied offset n) _ file.buffer _ isValid
        (Nat.le_of_eq (fits.room refills.1.2).symm)
      rw [isInner] at isInner'
      cases isInner'
      rw [fails] at succeeds'
      cases succeeds'
    exact ⟨reply, next, isRead, succeeds, keeps.exact succeeds, keeps.length, keeps.fits,
      keeps.window.mpr spares, keeps.isValid⟩

theorem fits_new
    (F : RandomAccessFile φ)
    (readaheadSize : Nat)
    (memory : Nat → UInt8)
    (inner : φ) : (new F readaheadSize memory inner).Fits where
  inBuffer := Nat.zero_le _
  room := by
    intro notForwarded
    change F.shouldForwardRawRequest = false at notForwarded
    simp [new, notForwarded]

theorem window_new
    (F : RandomAccessFile φ)
    (contents : Bytes)
    (readaheadSize : Nat)
    (memory : Nat → UInt8)
    (inner : φ) : (new F readaheadSize memory inner).Window contents := rfl

theorem valid_new
    {F : RandomAccessFile φ}
    {valid : φ → Prop}
    (enableReadAhead : ∀ file, valid file → valid (F.enableReadAhead file))
    (readaheadSize : Nat)
    (memory : Nat → UInt8)
    {inner : φ}
    (isValid : valid inner) : valid (new F readaheadSize memory inner).file := by
  unfold new
  dsimp only
  split
  · exact enableReadAhead inner isValid
  · exact isValid

/-- Reading ahead is transparent: a run through the buffer delivers what a run on the file
itself does, which is what the file holds. -/
theorem readahead_transparent
    {F : RandomAccessFile φ}
    {contents : Bytes}
    {valid : φ → Prop}
    (fileServes : F.Serves contents valid)
    {inner : φ}
    (isValid : valid inner)
    (readaheadSize : Nat)
    (memory : Nat → UInt8)
    (calls : List ReadCall) :
    ∃ replies final direct finalDirect,
      (operations F).run calls (new F readaheadSize memory inner) = some (replies, final) ∧
        F.run calls inner = some (direct, finalDirect) ∧
          replies.map (fun reply => (reply.status.ok, reply.data)) =
            direct.map (fun reply => (reply.status.ok, reply.data)) ∧
              replies.map (fun reply => (reply.status.ok, reply.data)) =
                calls.map fun call => (true, call.asked contents) := by
  obtain ⟨replies, final, runs, -, exact⟩ := (serves fileServes).run calls
    ⟨fits_new F readaheadSize memory inner, window_new F contents readaheadSize memory inner,
      valid_new fileServes.enableReadAhead readaheadSize memory isValid⟩
  obtain ⟨direct, finalDirect, runsDirect, -, exactDirect⟩ := fileServes.run calls isValid
  exact ⟨replies, final, direct, finalDirect, runs, runsDirect,
    exact.trans exactDirect.symm, exact⟩

/-- Two reads of three bytes, ahead by two. -/
theorem readahead_transparent_inTurn :
    ∃ replies final direct finalDirect,
      (operations (.inTurn [1, 2, 3])).run [⟨0, 1, [0], by decide⟩, ⟨1, 1, [0], by decide⟩]
          (new (.inTurn [1, 2, 3]) 2 (fun _ => 0) true) = some (replies, final) ∧
        (RandomAccessFile.inTurn [1, 2, 3]).run
            [⟨0, 1, [0], by decide⟩, ⟨1, 1, [0], by decide⟩] true =
          some (direct, finalDirect) ∧
            replies.map (fun reply => (reply.status.ok, reply.data)) =
              direct.map (fun reply => (reply.status.ok, reply.data)) ∧
                replies.map (fun reply => (reply.status.ok, reply.data)) =
                  [(true, [1]), (true, [2])] :=
  readahead_transparent (RandomAccessFile.inTurn_serves [1, 2, 3]) trivial 2 (fun _ => 0)
    [⟨0, 1, [0], by decide⟩, ⟨1, 1, [0], by decide⟩]

/-- A call that does not return has not spoiled anything. -/
theorem spares_of_hangs
    {F : RandomAccessFile φ}
    {scratch : Bytes}
    (hangs : read F offset n scratch file = none) : file.Spares F offset n := by
  intro refills reply next isRead
  simp only [ReadaheadRandomAccessFile.refills, Bool.and_eq_true, Bool.not_eq_true'] at refills
  rw [read, if_neg (by rw [refills.1]; exact Bool.false_ne_true)] at hangs
  dsimp only at hangs
  rw [if_neg (by rw [refills.2]; exact Bool.false_ne_true), isRead] at hangs
  cases hangs

/-- The cached bytes are those of the file after a call of a run. -/
def WindowAfter
    (F : RandomAccessFile φ)
    (contents : Bytes)
    (call : ReadCall)
    (file : ReadaheadRandomAccessFile φ) : Prop :=
  ∀ reply next, read F call.offset call.n call.scratch file = some (reply, next) →
    next.Window contents

/-- They are if and only if a read that fails spares them. -/
theorem windowAfter_iff
    {F : RandomAccessFile φ}
    {valid : φ → Prop}
    (static : F.Static contents valid)
    (call : ReadCall)
    (fits : file.Fits)
    (window : file.Window contents)
    (isValid : valid file.file) :
    WindowAfter F contents call file ↔ file.Spares F call.offset call.n := by
  constructor
  · intro windows
    cases isRead : read F call.offset call.n call.scratch file with
    | none => exact spares_of_hangs isRead
    | some result =>
        exact (read_spec static fits window isValid call.room isRead).window.mp
          (windows result.1 result.2 isRead)
  · intro spares reply next isRead
    exact (read_spec static fits window isValid call.room isRead).window.mpr spares

/-- In every state of a run the cached bytes are those of the file if and only if the reads
that fail spare them. -/
theorem window_along_iff
    {F : RandomAccessFile φ}
    {valid : φ → Prop}
    (static : F.Static contents valid)
    (calls : List ReadCall)
    {file : ReadaheadRandomAccessFile φ}
    (fits : file.Fits)
    (window : file.Window contents)
    (isValid : valid file.file) :
    (operations F).Along (WindowAfter F contents) calls file ↔
      (operations F).Along (fun call file => file.Spares F call.offset call.n) calls file := by
  induction calls generalizing file with
  | nil => exact Iff.rfl
  | cons call calls inductionHypothesis =>
      unfold RandomAccessFile.Along
      rw [windowAfter_iff static call fits window isValid]
      apply and_congr_right
      intro spares
      apply forall₃_congr
      intro reply next isRead
      have keeps := read_spec static fits window isValid call.room isRead
      exact inductionHypothesis keeps.fits (keeps.window.mpr spares) keeps.isValid

/-- A run whose failing reads spare what is cached. -/
theorem run_exact
    {F : RandomAccessFile φ}
    {valid : φ → Prop}
    (static : F.Static contents valid)
    {calls : List ReadCall}
    {file final : ReadaheadRandomAccessFile φ}
    {replies : List ReadReply}
    (fits : file.Fits)
    (window : file.Window contents)
    (isValid : valid file.file)
    (spared : (operations F).Along
      (fun call file => file.Spares F call.offset call.n) calls file)
    (runs : (operations F).run calls file = some (replies, final)) :
    ∀ pair ∈ calls.zip replies, pair.2.status.ok = true →
      pair.2.data = pair.1.asked contents := by
  induction calls generalizing file replies with
  | nil => exact nofun
  | cons call calls inductionHypothesis =>
      obtain ⟨reply, next, others, isRead, isRest, rfl⟩ := RandomAccessFile.run_cons runs
      have keeps := read_spec static fits window isValid call.room isRead
      intro pair member
      rw [List.zip_cons_cons, List.mem_cons] at member
      obtain rfl | member := member
      · exact keeps.exact
      · exact inductionHypothesis keeps.fits (keeps.window.mpr spared.1) keeps.isValid
          (spared.2 reply next isRead) isRest pair member

/-- A failed read does not spoil what is cached if and only if it spares that.  In a run
whose failing reads all do, every read that returns OK delivers what the file holds. -/
theorem cache_unspoiled_iff
    {F : RandomAccessFile φ}
    {contents : Bytes}
    {valid : φ → Prop}
    (static : F.Static contents valid)
    {inner : φ}
    (isValid : valid inner)
    (readaheadSize : Nat)
    (memory : Nat → UInt8)
    (calls : List ReadCall) :
    let start := new F readaheadSize memory inner
    let spared := (operations F).Along
      (fun call file => file.Spares F call.offset call.n) calls start
    ((operations F).Along (WindowAfter F contents) calls start ↔ spared) ∧
      (spared → ∀ replies final, (operations F).run calls start = some (replies, final) →
        ∀ pair ∈ calls.zip replies, pair.2.status.ok = true →
          pair.2.data = pair.1.asked contents) := by
  have fits := fits_new F readaheadSize memory inner
  have window := window_new F contents readaheadSize memory inner
  have isValid' := valid_new static.enableReadAhead readaheadSize memory isValid
  exact ⟨window_along_iff static calls fits window isValid', fun spared _ _ =>
    run_exact static fits window isValid' spared⟩

/-- A first read that fails half-way, and another one. -/
theorem cache_unspoiled_iff_first :
    let F := PosixRandomAccessFile.operations 4
    let inner : PosixRandomAccessFile :=
      ⟨"f", ⟨[1, 2, 3], [.done 1, .error "Input/output error"], .other ""⟩⟩
    let calls : List ReadCall := [⟨0, 1, [0], by decide⟩, ⟨1, 1, [0], by decide⟩]
    let start := new F 2 (fun _ => 0) inner
    let spared := (operations F).Along
      (fun call file => file.Spares F call.offset call.n) calls start
    ((operations F).Along (WindowAfter F [1, 2, 3]) calls start ↔ spared) ∧
      (spared → ∀ replies final, (operations F).run calls start = some (replies, final) →
        ∀ pair ∈ calls.zip replies, pair.2.status.ok = true →
          pair.2.data = pair.1.asked [1, 2, 3]) :=
  cache_unspoiled_iff (PosixRandomAccessFile.static 4 [1, 2, 3]) ⟨rfl, by decide⟩ 2
    (fun _ => 0) _

/-- A file of eight bytes whose third call of pread(2) fails, read ahead by four. -/
def failingRead : ReadaheadRandomAccessFile PosixRandomAccessFile :=
  new (PosixRandomAccessFile.operations 4) 4 (fun _ => 0)
    ⟨"f", ⟨[1, 2, 3, 4, 5, 6, 7, 8], [.done 4, .done 2, .error "Input/output error"],
      .other ""⟩⟩

/-- One byte that is read again when a read elsewhere has failed in between. -/
theorem cache_spoiled :
    ∃ calls : List ReadCall,
      ((operations (PosixRandomAccessFile.operations 4)).run calls failingRead).map
          (fun result => result.1.map ReadReply.outcome) =
        some [(.OK, [1]), (.IOError "f: Input/output error", []), (.OK, [5])] ∧
      calls.map (fun call => call.asked failingRead.file.fd.contents) = [[1], [5], [1]] :=
  ⟨[⟨0, 1, [0], by decide⟩, ⟨4, 1, [0], by decide⟩, ⟨0, 1, [0], by decide⟩],
    by decide⟩

end ReadaheadRandomAccessFile
end RocksUtil
