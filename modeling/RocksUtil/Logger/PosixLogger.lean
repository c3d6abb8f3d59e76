import RocksUtil.Library.Directory
import RocksUtil.Status

/-!
# The logger of the environment

`PosixLogger`, and the calls of `PosixEnv` that loggers make.  A line is a stamp of the
time and of the thread, the text that `vsnprintf` makes of the message, and a newline if
the text does not end in one.  It is built in a buffer, first a small one, then a large
one that cuts the text off (`PosixLogger.logv_spec`).

What is written to the stream of a file counts as contents of the file, flushed or not.
The clock may show anything.
-/

namespace RocksUtil

/-- What a logger gets from the outside. -/
structure Outside where
  /-- The microseconds that a reading of the clock yields. -/
  clock : Nat → UInt64
  /-- Microseconds as seconds, by a multiplication of floating-point numbers. -/
  seconds : UInt64 → UInt64
  /-- The stamp in front of a line: the local time and the id of the thread. -/
  stamp : UInt64 → Bytes
  /-- Seven integers of eleven characters at most, an id of sixteen, and what stands
  between them. -/
  stamp_le : ∀ micros, (stamp micros).length ≤ 101
  /-- Whether a call of `fopen` succeeds. -/
  opens : Nat → Bool

/-- The files, and how often the outside has been asked. -/
structure PosixEnv where
  directory : Directory String UInt8
  /-- The number of readings of the clock so far. -/
  readings : Nat
  /-- The number of calls of `NewLogger` so far. -/
  calls : Nat

namespace PosixEnv

/-- `NowMicros`, or `gettimeofday`. -/
def nowMicros (outside : Outside) (env : PosixEnv) : UInt64 × PosixEnv :=
  (outside.clock env.readings, { env with readings := env.readings + 1 })

/-- `FileExists`: whether it says `OK`. -/
def fileExists (env : PosixEnv) (fname : String) : Bool :=
  (env.directory.names fname).isSome

/-- `RenameFile`, the status of which is ignored by its callers. -/
def renameFile (env : PosixEnv) (src target : String) : PosixEnv :=
  { env with directory := env.directory.rename src target }

end PosixEnv

/-- `class PosixLogger`. -/
structure PosixLogger where
  /-- `file_`. -/
  file : Nat
  /-- `log_size_`. -/
  logSize : UInt64
  /-- `last_flush_micros_`. -/
  lastFlushMicros : UInt64
  /-- `flush_pending_`. -/
  flushPending : Bool
  /-- `flush_every_seconds_`. -/
  flushEverySeconds : UInt64

/-- `NewLogger`: the status, and the logger, which is null after a failure. -/
def PosixEnv.newLogger
    (outside : Outside)
    (env : PosixEnv)
    (fname : String)
    (flushEverySeconds : UInt64) : Status × Option PosixLogger × PosixEnv :=
  if outside.opens env.calls then
    let (file, directory) := env.directory.openAnew fname
    (.OK, some ⟨file, 0, 0, false, flushEverySeconds⟩,
      { env with directory := directory, calls := env.calls + 1 })
  else
    (.IOError fname, none, { env with calls := env.calls + 1 })

namespace PosixLogger

/-- `'\n'`. -/
def newline : UInt8 := 10

/-- Add a newline if necessary. -/
def endLine (text : Bytes) : Bytes :=
  if text.getLast? = some newline then text else text ++ [newline]

/-- `sizeof(buffer)`. -/
def smallBuffer : Nat := 500

/-- The size of the buffer for long lines. -/
def largeBuffer : Nat := 65536

/-- A line without its newline, and the time it was stamped with.  The first buffer is
too small for some, the second one cuts what does not fit. -/
def format
    (outside : Outside)
    (env : PosixEnv)
    (message : Bytes) : Bytes × UInt64 × PosixEnv :=
  let (now, env) := env.nowMicros outside
  let text := outside.stamp now ++ message
  if text.length < smallBuffer then (text, now, env)
  else
    let (now, env) := env.nowMicros outside
    let text := outside.stamp now ++ message
    if text.length < largeBuffer then (text, now, env)
    else (text.take (largeBuffer - 1), now, env)

/-- `Flush`. -/
def flush
    (outside : Outside)
    (logger : PosixLogger)
    (env : PosixEnv) : PosixLogger × PosixEnv :=
  let logger := if logger.flushPending then { logger with flushPending := false } else logger
  if logger.flushEverySeconds ≠ 0 then
    let (now, env) := env.nowMicros outside
    ({ logger with lastFlushMicros := now }, env)
  else (logger, env)

/-- `Logv`, of a message that `vsnprintf` has formatted. -/
def logv
    (outside : Outside)
    (logger : PosixLogger)
    (env : PosixEnv)
    (message : Bytes) : PosixLogger × PosixEnv :=
  let (text, nowMicros, env) := format outside env message
  let line := endLine text
  let env := { env with directory := env.directory.append logger.file line }
  let logger :=
    { logger with
      flushPending := true
      logSize := logger.logSize + UInt64.ofNat line.length }
  if logger.flushEverySeconds = 0 then logger.flush outside env
  else if logger.flushEverySeconds * 1000000 ≤ nowMicros - logger.lastFlushMicros then
    logger.flush outside env
  else (logger, env)

/-! ## What a logger writes -/

/-- The line for a message, as it is stamped at some time. -/
def IsLine (outside : Outside) (message line : Bytes) : Prop :=
  ∃ micros, line = endLine ((outside.stamp micros ++ message).take (largeBuffer - 1))

section Lines

variable (outside : Outside)

theorem format_spec (env : PosixEnv) (message : Bytes) :
    (∃ micros, (format outside env message).1 =
        (outside.stamp micros ++ message).take (largeBuffer - 1)) ∧
      (format outside env message).2.2.directory = env.directory ∧
      (format outside env message).2.2.calls = env.calls := by
  unfold format
  dsimp only
  split
  · rename_i short
    refine ⟨⟨_, (List.take_of_length_le ?_).symm⟩, rfl, rfl⟩
    exact Nat.le_of_lt (Nat.lt_trans short (by decide))
  · split
    · rename_i fits
      exact ⟨⟨_, (List.take_of_length_le (Nat.le_sub_one_of_lt fits)).symm⟩, rfl, rfl⟩
    · exact ⟨⟨_, rfl⟩, rfl, rfl⟩

/-- A flush writes nothing. -/
theorem flush_spec (logger : PosixLogger) (env : PosixEnv) :
    (logger.flush outside env).1.file = logger.file ∧
      (logger.flush outside env).2.directory = env.directory ∧
      (logger.flush outside env).2.calls = env.calls := by
  unfold flush
  dsimp only
  split <;> split <;> exact ⟨rfl, rfl, rfl⟩

/-- A message goes to the end of the file, as one line. -/
theorem logv_spec (logger : PosixLogger) (env : PosixEnv) (message : Bytes) :
    (∃ line, IsLine outside message line ∧
        (logger.logv outside env message).2.directory =
          env.directory.append logger.file line) ∧
      (logger.logv outside env message).1.file = logger.file ∧
      (logger.logv outside env message).2.calls = env.calls := by
  obtain ⟨⟨micros, isText⟩, directory, calls⟩ := format_spec outside env message
  unfold logv
  dsimp only
  have written : IsLine outside message (endLine (format outside env message).1) :=
    ⟨micros, congrArg endLine isText⟩
  rw [directory]
  split
  · obtain ⟨file, same, sameCalls⟩ := flush_spec outside _ _
    rw [file, same, sameCalls]
    exact ⟨⟨_, written, rfl⟩, rfl, calls⟩
  · split
    · obtain ⟨file, same, sameCalls⟩ := flush_spec outside _ _
      rw [file, same, sameCalls]
      exact ⟨⟨_, written, rfl⟩, rfl, calls⟩
    · exact ⟨⟨_, written, rfl⟩, rfl, calls⟩

end Lines

/-- A short message is not cut. -/
theorem IsLine.whole
    {outside : Outside}
    {message line : Bytes}
    (isLine : IsLine outside message line)
    (short : message.length ≤ 1023) :
    ∃ micros, line = endLine (outside.stamp micros ++ message) := by
  obtain ⟨micros, rfl⟩ := isLine
  refine ⟨micros, ?_⟩
  rw [List.take_of_length_le]
  have stamped := outside.stamp_le micros
  rw [List.length_append]
  exact (Nat.add_le_add stamped short).trans (by decide)

end PosixLogger

end RocksUtil
