import RocksUtil.File.Buffered
import RocksUtil.File.Calls

/-!
# Accounting in buffered mode

In buffered mode the file followed by the buffer holds the data of the `Append`s that
have returned OK, whatever fails, as long as a failing `Append` of the underlying file
has no effect on it (`holds_appended`).  If it has written a part of its data, that part
stays: the bytes a run leaks in this way are counted (`leaked`), and without a leak the
account is exact.
-/

namespace RocksUtil
namespace WritableFileWriter

variable {ω : Type} {F : WritableFile ω} {contents : ω → Bytes} {valid : ω → Prop}
  {leak : Bytes → ω → Nat} {writer middle after : WritableFileWriter ω} {data : Bytes}

/-- What a part of a call does: it accepts `more`, and leaks some bytes. -/
structure Accepts
    (contents : ω → Bytes)
    (valid : ω → Prop)
    (writer : WritableFileWriter ω)
    (more : Bytes)
    (leaked : Nat)
    (after : WritableFileWriter ω) : Prop where
  buffered : after.useOSBuffer = true
  isValid : valid after.writableFile
  length_eq : (accepted contents after).length =
    (accepted contents writer).length + more.length + leaked
  accepted_eq : leaked = 0 → accepted contents after = accepted contents writer ++ more

theorem Accepts.of_eq
    (buffered : after.useOSBuffer = true)
    (isValid : valid after.writableFile)
    {more : Bytes}
    (same : accepted contents after = accepted contents writer ++ more) :
    Accepts contents valid writer more 0 after :=
  ⟨buffered, isValid, by rw [same, List.length_append, Nat.add_zero], fun _ => same⟩

theorem Accepts.trans
    {first second : Bytes}
    {leaked leaked' : Nat}
    (one : Accepts contents valid writer first leaked middle)
    (two : Accepts contents valid middle second leaked' after) :
    Accepts contents valid writer (first ++ second) (leaked + leaked') after := by
  refine ⟨two.buffered, two.isValid, ?_, fun none => ?_⟩
  · rw [two.length_eq, one.length_eq, List.length_append]
    omega
  · rw [two.accepted_eq (by omega), one.accepted_eq (by omega), List.append_assoc]

/-! ## Flushing -/

/-- The bytes that a flush leaks. -/
def flushLeak (leak : Bytes → ω → Nat) (writer : WritableFileWriter ω) : Nat :=
  if 0 < writer.buf.currentSize then leak writer.buf.bytes writer.writableFile else 0

/-- Writing past the buffer, or out of it: the buffer holds `held` of the data. -/
theorem writeBuffered_accepts
    (leaks : F.Leaks contents valid leak)
    (buffered : writer.useOSBuffer = true)
    (isValid : valid writer.writableFile)
    (some : 0 < data.length) :
    let result := writer.writeBuffered F data
    let file := (F.append data writer.writableFile).2
    result.2.useOSBuffer = true ∧ result.2.writableFile = file ∧ valid file ∧
      (result.1.ok = true → result.2.buf.bytes = [] ∧
        leak data writer.writableFile = 0 ∧
          contents file = contents writer.writableFile ++ data) ∧
      (result.1.ok = false → result.2.buf = writer.buf ∧
        leak data writer.writableFile ≤ data.length ∧
          contents file = contents writer.writableFile ++
            data.take (leak data writer.writableFile)) := by
  unfold writeBuffered
  simp only [if_pos some]
  cases succeeds : (F.append data writer.writableFile).1.ok with
  | true =>
      obtain ⟨none, isValid', grown⟩ := leaks.append_ok data _ isValid succeeds
      simp [succeeds, buffered, none, isValid', grown, AlignedBuffer.size]
  | false =>
      obtain ⟨atMost, isValid', grown⟩ := leaks.append_failed data _ isValid succeeds
      simp [succeeds, buffered, atMost, isValid', grown]

theorem writeOut_accepts
    (leaks : F.Leaks contents valid leak)
    (buffered : writer.useOSBuffer = true)
    (isValid : valid writer.writableFile) :
    Accepts contents valid writer [] (flushLeak leak writer) (writer.writeOut F).2 := by
  unfold writeOut flushLeak
  by_cases some : 0 < writer.buf.currentSize
  · simp only [if_pos some, if_pos buffered]
    obtain ⟨mode, file, isValid', written, failed⟩ :=
      writeBuffered_accepts leaks buffered isValid some
    cases succeeds : (writer.writeBuffered F writer.buf.bytes).1.ok with
    | true =>
        obtain ⟨empty, none, grown⟩ := written succeeds
        rw [none]
        refine .of_eq mode (file ▸ isValid') ?_
        rw [accepted, file, grown, empty, List.append_nil, List.append_nil, accepted]
    | false =>
        obtain ⟨kept, atMost, grown⟩ := failed succeeds
        refine ⟨mode, file ▸ isValid', ?_, fun none => ?_⟩
        · simp only [accepted, file, grown, kept, List.length_append, List.length_nil,
            List.length_take_of_le atMost]
          omega
        · rw [accepted, file, grown, kept, none, List.take_zero, List.append_nil,
            List.append_nil, accepted]
  · simp only [if_neg some]
    exact .of_eq buffered isValid (List.append_nil _).symm

/-- A flush moves bytes from the buffer to the file. -/
theorem flush_accepts
    (leaks : F.Leaks contents valid leak)
    (buffered : writer.useOSBuffer = true)
    (isValid : valid writer.writableFile) :
    Accepts contents valid writer [] (flushLeak leak writer) (writer.flush F).2 := by
  have written := writeOut_accepts leaks buffered isValid
  obtain ⟨flushed, same⟩ := leaks.flush _ written.isValid
  have account {file : ω} (isFile : WritableFile.Same contents valid
      (writer.writeOut F).2.writableFile file) {last : Nat} :
      Accepts contents valid writer [] (flushLeak leak writer)
        { (writer.writeOut F).2 with writableFile := file, lastSyncSize := last } := by
    have unchanged : accepted contents { (writer.writeOut F).2 with
        writableFile := file, lastSyncSize := last } =
          accepted contents (writer.writeOut F).2 :=
      congrArg (· ++ _) isFile.2
    refine ⟨written.buffered, isFile.1, ?_, fun none => ?_⟩
    · rw [unchanged]
      exact written.length_eq
    · rw [unchanged]
      exact written.accepted_eq none
  unfold flush syncBehind
  simp only
  split
  · split
    · split
      · obtain ⟨synced, same'⟩ := leaks.rangeSync _ _ _ flushed
        exact account ⟨synced, same'.trans same⟩
      · exact account ⟨flushed, same⟩
    · exact account ⟨flushed, same⟩
  · exact written

/-! ## Appending -/

/-- `Append` has to flush before it places the data. -/
def mustFlush (writer : WritableFileWriter ω) (left : Nat) : Prop :=
  writer.buf.capacity - writer.buf.currentSize < left ∧ 0 < writer.buf.currentSize

instance (writer : WritableFileWriter ω) (left : Nat) :
    Decidable (writer.mustFlush left) :=
  inferInstanceAs (Decidable (_ ∧ _))

/-- `grow` is called with an empty buffer only. -/
theorem accepted_grow
    (empty : writer.buf.bytes = []) :
    accepted contents writer.grow = accepted contents writer := by
  rw [accepted, accepted, writableFile_grow, bytes_grow empty, empty]

/-- Making room accepts nothing; if it succeeds the data fits in the buffer, or the
buffer is empty. -/
theorem makeRoom_accepts
    (leaks : F.Leaks contents valid leak)
    (buffered : writer.useOSBuffer = true)
    (isValid : valid writer.writableFile)
    (left : Nat) :
    let room := writer.makeRoom F left
    Accepts contents valid writer []
        (if writer.mustFlush left then flushLeak leak writer else 0) room.2 ∧
      (room.1.ok = true →
        room.2.buf.currentSize + left ≤ room.2.buf.capacity ∨
          room.2.buf.bytes = []) := by
  have inCapacity := writer.currentSize_le
  intro room
  by_cases full : writer.buf.capacity - writer.buf.currentSize < left
  · by_cases some : 0 < writer.buf.currentSize
    · have flushed := flush_accepts leaks buffered isValid
      rw [if_pos ⟨full, some⟩]
      cases succeeds : (writer.flush F).1.ok with
      | true =>
          have isRoom : room = ((writer.flush F).1, (writer.flush F).2.grow) := by
            simp [room, makeRoom, buffered, full, some, succeeds]
          have empty := bytes_flush (.inl buffered) succeeds
          rw [isRoom]
          refine ⟨⟨(useOSBuffer_grow _).trans flushed.buffered, ?_, ?_, ?_⟩,
            fun _ => .inr (bytes_grow empty)⟩
          · rw [writableFile_grow]
            exact flushed.isValid
          · rw [accepted_grow empty]
            exact flushed.length_eq
          · rw [accepted_grow empty]
            exact flushed.accepted_eq
      | false =>
          have isRoom : room = writer.flush F := by
            simp [room, makeRoom, buffered, full, some, succeeds]
          rw [isRoom]
          refine ⟨flushed, fun ok => ?_⟩
          rw [ok] at succeeds
          cases succeeds
    · have empty : writer.buf.bytes = [] :=
        List.eq_nil_of_length_eq_zero (Nat.eq_zero_of_not_pos some)
      have isRoom : room = (.OK, writer.grow) := by
        simp [room, makeRoom, buffered, full, some]
      rw [isRoom, if_neg fun must => some must.2]
      refine ⟨.of_eq ((useOSBuffer_grow _).trans buffered) ?_ ?_,
        fun _ => .inr (bytes_grow empty)⟩
      · rw [writableFile_grow]
        exact isValid
      · rw [accepted_grow empty, List.append_nil]
  · have isRoom : room = (.OK, writer) := by
      simp [room, makeRoom, full]
    rw [isRoom, if_neg fun must => full must.1]
    refine ⟨.of_eq buffered isValid (List.append_nil _).symm, fun _ => .inl ?_⟩
    change writer.buf.currentSize + left ≤ writer.buf.capacity
    omega

/-- Placing the data accepts all of it or nothing. -/
theorem place_accepts
    (leaks : F.Leaks contents valid leak)
    (buffered : writer.useOSBuffer = true)
    (isValid : valid writer.writableFile)
    {s : Status}
    (succeeds : s.ok = true)
    (room : writer.buf.currentSize + data.length ≤ writer.buf.capacity ∨
      writer.buf.bytes = []) :
    let placed := writer.place F s data
    Accepts contents valid writer (if placed.1.ok then data else [])
      (if data.length ≤ writer.buf.capacity then 0 else leak data writer.writableFile)
      placed.2 := by
  intro placed
  by_cases fits : data.length ≤ writer.buf.capacity
  · have inBuffer : writer.buf.currentSize + data.length ≤ writer.buf.capacity := by
      rcases room with inBuffer | empty
      · exact inBuffer
      · rw [AlignedBuffer.currentSize, empty, List.length_nil]
        omega
    obtain ⟨status, mode, file, -, bytes⟩ :=
      @appendLoop_of_room ω F writer data s inBuffer
    have isPlaced : placed = writer.appendLoop F s data := by
      simp [placed, place, fits]
    rw [isPlaced, if_pos fits, status, if_pos succeeds]
    refine .of_eq (mode.trans buffered) (file ▸ isValid) ?_
    rw [accepted, file, bytes, ← List.append_assoc, ← accepted]
  · have empty : writer.buf.bytes = [] := by
      rcases room with inBuffer | empty
      · omega
      · exact empty
    have isPlaced : placed = writer.writeBuffered F data := by
      simp [placed, place, fits, buffered]
    obtain ⟨mode, file, isValid', written, failed⟩ :=
      @writeBuffered_accepts ω F contents valid leak writer data leaks buffered isValid
        (by omega)
    rw [isPlaced, if_neg fits]
    cases result : (writer.writeBuffered F data).1.ok with
    | true =>
        obtain ⟨left, none, grown⟩ := written result
        rw [none]
        refine .of_eq mode (file ▸ isValid') ?_
        simp [accepted, file, grown, left, empty]
    | false =>
        obtain ⟨kept, atMost, grown⟩ := failed result
        refine ⟨mode, file ▸ isValid', ?_, fun none => ?_⟩
        · simp [accepted, file, grown, kept, empty, List.length_take_of_le atMost]
        · simp [accepted, file, grown, kept, none]

/-- The bytes that an `Append` leaks: those of the flush that makes room, and those of
a write past the buffer. -/
def appendLeak
    (F : WritableFile ω)
    (leak : Bytes → ω → Nat)
    (writer : WritableFileWriter ω)
    (data : Bytes) : Nat :=
  let prepared := writer.prepare F data.length
  let room := prepared.makeRoom F data.length
  (if prepared.mustFlush data.length then flushLeak leak prepared else 0) +
    (if room.1.ok = true ∧ room.2.buf.capacity < data.length then
      leak data room.2.writableFile
    else 0)

/-- `Append` accepts all of its data, if it returns OK, and else nothing. -/
theorem append_accepts
    (leaks : F.Leaks contents valid leak)
    (buffered : writer.useOSBuffer = true)
    (isValid : valid writer.writableFile)
    (data : Bytes) :
    let result := append F data writer
    Accepts contents valid writer (if result.1.ok then data else [])
      (appendLeak F leak writer data) result.2 := by
  intro result
  obtain ⟨prepared, same⟩ := leaks.prepareWrite writer.filesize data.length
    writer.writableFile isValid
  have before : accepted contents (writer.prepare F data.length) =
      accepted contents writer ++ [] := by
    rw [List.append_nil]
    exact congrArg (· ++ writer.buf.bytes) same
  have start : Accepts contents valid writer [] 0 (writer.prepare F data.length) :=
    @Accepts.of_eq ω contents valid writer (writer.prepare F data.length) buffered
      prepared [] before
  obtain ⟨made, free⟩ := makeRoom_accepts leaks start.buffered start.isValid data.length
  have roomy := start.trans made
  rw [List.nil_append, Nat.zero_add] at roomy
  unfold appendLeak
  cases succeeds : ((writer.prepare F data.length).makeRoom F data.length).1.ok with
  | true =>
      have placed := place_accepts leaks roomy.buffered roomy.isValid succeeds
        (free succeeds)
      have both := roomy.trans placed
      rw [List.nil_append] at both
      simp only [result, append, succeeds, true_and, if_true]
      generalize (writer.prepare F data.length).makeRoom F data.length = room at *
      have sameLeak : (if data.length ≤ room.2.buf.capacity then 0
          else leak data room.2.writableFile) =
            if room.2.buf.capacity < data.length then leak data room.2.writableFile
            else 0 := by
        by_cases fits : data.length ≤ room.2.buf.capacity
        · rw [if_pos fits, if_neg (by omega)]
        · rw [if_neg fits, if_pos (by omega)]
      rw [sameLeak] at both
      unfold store
      cases ok : (room.2.place F room.1 data).1.ok with
      | true =>
          simp only [ok, if_true] at both ⊢
          exact ⟨both.buffered, both.isValid, both.length_eq, both.accepted_eq⟩
      | false =>
          simp only [ok, Bool.false_eq_true, if_false] at both ⊢
          exact both
  | false =>
      have isResult : result =
          (writer.prepare F data.length).makeRoom F data.length := by
        simp [result, append, succeeds]
      rw [isResult]
      simp only [succeeds, Bool.false_eq_true, if_false, false_and, Nat.add_zero]
      exact roomy

/-! ## Calls -/

/-- The bytes that a call leaks. -/
def callLeak
    (F : WritableFile ω)
    (leak : Bytes → ω → Nat)
    (writer : WritableFileWriter ω) : Call → Nat
  | .append data => appendLeak F leak writer data
  | _ => flushLeak leak writer

/-- The bytes that a sequence of calls leaks. -/
def leaked
    (F : WritableFile ω)
    (leak : Bytes → ω → Nat)
    (writer : WritableFileWriter ω) : List Call → Nat
  | [] => 0
  | next :: calls =>
      callLeak F leak writer next + leaked F leak (writer.call F next).2 calls

/-- Each call accepts its data or nothing. -/
theorem call_accepts
    (leaks : F.Leaks contents valid leak)
    (buffered : writer.useOSBuffer = true)
    (isValid : valid writer.writableFile)
    (next : Call) :
    let result := writer.call F next
    Accepts contents valid writer (added (next, result.1)) (callLeak F leak writer next)
      result.2 := by
  cases next with
  | append data => exact append_accepts leaks buffered isValid data
  | flush => exact flush_accepts leaks buffered isValid
  | sync useFsync =>
      have flushed := flush_accepts leaks buffered isValid
      obtain ⟨file, pending, isResult, isFile⟩ := sync_cases F useFsync writer
      have unchanged : WritableFile.Same contents valid
          (writer.flush F).2.writableFile file := by
        rcases isFile with rfl | rfl | rfl
        · exact ⟨flushed.isValid, rfl⟩
        · exact leaks.sync _ flushed.isValid
        · exact leaks.fsync _ flushed.isValid
      have same : accepted contents { (writer.flush F).2 with
          writableFile := file, pendingSync := pending } =
            accepted contents (writer.flush F).2 :=
        congrArg (· ++ _) unchanged.2
      change Accepts contents valid writer [] _ (writer.sync F useFsync).2
      rw [isResult]
      refine ⟨flushed.buffered, unchanged.1, ?_, fun none => ?_⟩
      · rw [same]
        exact flushed.length_eq
      · rw [same]
        exact flushed.accepted_eq none

/-- The account over any sequence of calls. -/
theorem run_accepts
    (leaks : F.Leaks contents valid leak)
    (calls : List Call)
    {writer : WritableFileWriter ω}
    (buffered : writer.useOSBuffer = true)
    (isValid : valid writer.writableFile) :
    let ran := writer.run F calls
    Accepts contents valid writer (appended ran.1) (leaked F leak writer calls)
      ran.2 := by
  induction calls generalizing writer with
  | nil => exact .of_eq buffered isValid (List.append_nil _).symm
  | cons next calls inductionHypothesis =>
      have called := call_accepts leaks buffered isValid next
      exact called.trans (inductionHypothesis called.buffered called.isValid)

/-- What the file holds behind a flush that succeeds. -/
theorem contents_of_flush
    (buffered : writer.useOSBuffer = true)
    (succeeds : (writer.flush F).1.ok = true) :
    contents (writer.flush F).2.writableFile = accepted contents (writer.flush F).2 := by
  rw [accepted, bytes_flush (.inl buffered) succeeds, List.append_nil]

/-! ## The size -/

theorem filesize_appendLoop
    (F : WritableFile ω)
    (s : Status)
    (writer : WritableFileWriter ω)
    (data : Bytes) :
    (writer.appendLoop F s data).2.filesize = writer.filesize := by
  fun_induction appendLoop F s writer data with
  | case1 s writer src some more flushes inductionHypothesis =>
      rw [inductionHypothesis, filesize_grow, filesize_flush]
      rfl
  | case2 s writer src some more failed => exact filesize_flush F (writer.fill src)
  | case3 s writer src some all => rfl
  | case4 s writer src none => rfl

theorem filesize_makeRoom
    (F : WritableFile ω)
    (writer : WritableFileWriter ω)
    (left : Nat) :
    (writer.makeRoom F left).2.filesize = writer.filesize :=
  makeRoom_preserves (fun room => room.filesize = writer.filesize) left rfl
    (filesize_flush F writer) (fun {room} same => (filesize_grow room).trans same)

/-- Only the data of an `Append` that returns OK is counted. -/
theorem filesize_append
    (F : WritableFile ω)
    (data : Bytes)
    (writer : WritableFileWriter ω) :
    (append F data writer).2.filesize =
      writer.filesize + (added (.append data, (append F data writer).1)).length := by
  have prepared := filesize_makeRoom F (writer.prepare F data.length) data.length
  unfold append store
  simp only
  generalize (writer.prepare F data.length).makeRoom F data.length = room at *
  cases made : room.1.ok with
  | true =>
      have placed : (room.2.place F room.1 data).2.filesize = room.2.filesize := by
        unfold place
        split
        · exact filesize_appendLoop F room.1 room.2 data
        · exact (SameSettings.writeBuffered F room.2 data).filesize
      cases ok : (room.2.place F room.1 data).1.ok with
      | true =>
          simp only [if_true, ok, added, placed, prepared]
          rfl
      | false =>
          simp only [if_true, Bool.false_eq_true, if_false, ok, added, placed, prepared]
          rfl
  | false =>
      simp only [Bool.false_eq_true, if_false, made, added, prepared]
      rfl

theorem filesize_call
    (F : WritableFile ω)
    (writer : WritableFileWriter ω)
    (next : Call) :
    (writer.call F next).2.filesize =
      writer.filesize + (added (next, (writer.call F next).1)).length := by
  cases next with
  | append data => exact filesize_append F data writer
  | flush => exact filesize_flush F writer
  | sync useFsync =>
      obtain ⟨file, pending, isResult, -⟩ := sync_cases F useFsync writer
      change (writer.sync F useFsync).2.filesize = _
      rw [isResult]
      exact filesize_flush F writer

theorem filesize_run
    (F : WritableFile ω)
    (calls : List Call)
    (writer : WritableFileWriter ω) :
    (writer.run F calls).2.filesize =
      writer.filesize + (appended (writer.run F calls).1).length := by
  induction calls generalizing writer with
  | nil => rfl
  | cons next calls inductionHypothesis =>
      change ((writer.call F next).2.run F calls).2.filesize = _
      rw [inductionHypothesis, filesize_call]
      simp [run, Nat.add_assoc]

/-! ## Files that leak nothing -/

theorem leaked_zero
    (F : WritableFile ω)
    (writer : WritableFileWriter ω)
    (calls : List Call) :
    leaked F (fun _ _ => 0) writer calls = 0 := by
  induction calls generalizing writer with
  | nil => rfl
  | cons next calls inductionHypothesis =>
      rw [leaked, inductionHypothesis]
      cases next <;> simp [callLeak, appendLeak, flushLeak]

/-- Behind a `Close` that returns OK the file holds all that was accepted. -/
theorem contents_close
    (keeps : F.KeepsOnClose contents)
    (buffered : writer.useOSBuffer = true)
    (counted : writer.filesize = (accepted contents writer).length)
    (succeeds : (writer.close F).1.ok = true) :
    contents (writer.close F).2 = accepted contents writer := by
  have flushed := contents_flush keeps.toKeeps buffered (ok_close succeeds)
  have size : (writer.flush F).2.filesize =
      (contents (writer.flush F).2.writableFile).length := by
    rw [filesize_flush, counted, flushed]
  rw [← flushed, close]
  simp only
  rw [keeps.close, size, keeps.truncate]

/-- A writer in buffered mode, of any buffer size, over a new file, and any sequence of
calls, of which any may fail: file and buffer together hold exactly the data of the
`Append`s that have returned OK, `filesize_` is its length, and after a `Flush` or a
`Close` that returns OK the file holds all of it. -/
theorem holds_appended
    (keeps : F.KeepsOnClose contents)
    (buffered : F.useOSBuffer = true)
    {file : ω}
    (fresh : contents file = [])
    (maxBufferSize bytesPerSync : Nat)
    (calls : List Call) :
    let ran := (new F file maxBufferSize bytesPerSync).run F calls
    contents ran.2.writableFile ++ ran.2.buf.bytes = appended ran.1 ∧
      ran.2.filesize = (appended ran.1).length ∧
      ((ran.2.flush F).1.ok = true →
        contents (ran.2.flush F).2.writableFile = appended ran.1) ∧
      ((ran.2.close F).1.ok = true →
        contents (ran.2.close F).2 = appended ran.1) := by
  have empty : accepted contents (new F file maxBufferSize bytesPerSync) = [] :=
    congrArg (· ++ []) fresh
  have account := @run_accepts ω F contents _ _ keeps.leaks calls
    (new F file maxBufferSize bytesPerSync) buffered trivial
  have size := filesize_run F calls (new F file maxBufferSize bytesPerSync)
  have same := account.accepted_eq (leaked_zero F _ calls)
  rw [empty, List.nil_append] at same
  intro ran
  have counted : ran.2.filesize = (appended ran.1).length := size.trans (Nat.zero_add _)
  refine ⟨same, counted, fun succeeds => ?_, fun succeeds => ?_⟩
  · rw [← same]
    exact contents_flush keeps.toKeeps account.buffered succeeds
  · rw [← same] at counted ⊢
    exact contents_close keeps account.buffered counted succeeds

/-- The first write fails, and the next call of `Flush` or `Sync` makes it again. -/
theorem holds_appended_retry :
    ∃ ran, ran = (new FaultyFile.Traits.default.writableFile ⟨[], [.IOError ""]⟩ 65536
        0).run FaultyFile.Traits.default.writableFile
          [.append [1, 2], .flush, .append [3], .sync true] ∧
      ran.1.map (·.2.ok) = [true, false, true, true] ∧
      ran.2.writableFile.contents ++ ran.2.buf.bytes = [1, 2, 3] := by
  have holds := (holds_appended FaultyFile.Traits.default.keepsOnClose rfl
    (rfl : FaultyFile.contents ⟨[], [.IOError ""]⟩ = []) 65536 0
    [.append [1, 2], .flush, .append [3], .sync true]).1
  refine ⟨_, rfl, ?_⟩
  generalize isRan : (new FaultyFile.Traits.default.writableFile ⟨[], [.IOError ""]⟩
    65536 0).run _ _ = ran at holds ⊢
  have history : ran.1 = [(.append [1, 2], .OK), (.flush, .IOError ""),
      (.append [3], .OK), (.sync true, .OK)] := by
    rw [← isRan]
    simp [run, call, new, append, prepare, makeRoom, store, place, appendLoop,
      fill, flush, sync, syncInternal, writeOut, writeBuffered, syncBehind, syncDue,
      AlignedBuffer.allocate, AlignedBuffer.append, AlignedBuffer.currentSize, roundup,
      FaultyFile.Traits.writableFile, FaultyFile.Traits.default, FaultyFile.append,
      FaultyFile.flush, FaultyFile.outcome]
  rw [holds, history]
  exact ⟨rfl, rfl⟩

end WritableFileWriter
end RocksUtil
