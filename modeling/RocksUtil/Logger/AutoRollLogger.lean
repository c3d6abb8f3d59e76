import Mathlib.Algebra.Group.Nat.Defs
import RocksUtil.Library.Machine
import RocksUtil.Logger.PosixLogger

/-!
# The logger that rolls its file

`AutoRollLogger`: when the file `LOG` is too large or too old, it is renamed, a new one
is opened, and all headers are written to it.  A call does not return where a null
`logger_` is used, or where the search for a free name goes on for ever, which it does
only if all names are taken (`search_spec`).
-/

namespace RocksUtil

/-- `InfoLogFileName`. -/
def infoLogFileName (logPath : String) : String := logPath ++ "/LOG"

/-- `OldInfoLogFileName`. -/
def oldInfoLogFileName (logPath : String) (ts : UInt64) : String :=
  logPath ++ "/LOG.old." ++ ts.toNat.repr

/-- The members of `AutoRollLogger` that are set once. -/
structure RollSettings where
  /-- `log_path_`. -/
  logPath : String
  /-- `kMaxLogFileSize`. -/
  kMaxLogFileSize : UInt64
  /-- `kLogFileTimeToRoll`. -/
  kLogFileTimeToRoll : UInt64
  /-- `flush_every_seconds_`. -/
  flushEverySeconds : UInt64
  deriving DecidableEq, Repr

/-- `log_fname_`. -/
def RollSettings.logFname (settings : RollSettings) : String :=
  infoLogFileName settings.logPath

/-- `class AutoRollLogger`. -/
structure AutoRollLogger where
  settings : RollSettings
  /-- `env_`. -/
  env : PosixEnv
  /-- `logger_`. -/
  logger : Option PosixLogger
  /-- `status_`. -/
  status : Status
  /-- `headers_`. -/
  headers : List Bytes
  /-- `cached_now`. -/
  cachedNow : UInt64
  /-- `ctime_`. -/
  ctime : UInt64
  /-- `cached_now_access_count`. -/
  cachedNowAccessCount : UInt64
  /-- `call_NowMicros_every_N_records_`. -/
  callNowMicrosEveryNRecords : UInt64

namespace AutoRollLogger

/-- Why a call does not return. -/
inductive Fault
  /-- A null pointer is dereferenced. -/
  | nullLogger
  /-- A loop goes on for ever. -/
  | endless
  deriving DecidableEq, Repr

/-- `kDoNotSupportGetLogFileSize`. -/
def kDoNotSupportGetLogFileSize : UInt64 := 0xffffffffffffffff

/-- `MAXBUFFERSIZE` of `ValistToString`. -/
def maxBufferSize : Nat := 1024

/-- What a pointer to characters denotes: all in front of the first NUL. -/
def cString (buffer : Bytes) : Bytes := buffer.takeWhile (· ≠ 0)

/-- `ValistToString`. -/
def valistToString (message : Bytes) : Bytes :=
  cString (message.take (maxBufferSize - 1))

section Methods

variable (outside : Outside)

/-- The time in seconds. -/
def readSeconds (self : AutoRollLogger) : UInt64 × AutoRollLogger :=
  let (micros, env) := self.env.nowMicros outside
  (outside.seconds micros, { self with env := env })

/-- `ResetLogger`: the status that it returns is `status_`. -/
def resetLogger (self : AutoRollLogger) : Except Fault AutoRollLogger := do
  let (status, logger, env) :=
    self.env.newLogger outside self.settings.logFname self.settings.flushEverySeconds
  let self := { self with status := status, logger := logger, env := env }
  if !self.status.ok then return self
  let some logger := self.logger | throw .nullLogger
  let self :=
    if logger.logSize = kDoNotSupportGetLogFileSize then
      { self with
        status := .NotSupported "The underlying logger doesn't support GetLogFileSize()" }
    else self
  if self.status.ok then
    let (now, self) := self.readSeconds outside
    return { self with cachedNow := now, ctime := now, cachedNowAccessCount := 0 }
  else return self

/-- The loop of `RollLogFile`.  There are no more names than there is fuel. -/
def search (env : PosixEnv) (logPath : String) : Nat → UInt64 → Except Fault String
  | 0, _ => throw .endless
  | fuel + 1, now =>
      let oldFname := oldInfoLogFileName logPath now
      if env.fileExists oldFname then search env logPath fuel (now + 1)
      else return oldFname

/-- `RollLogFile`. -/
def rollLogFile (self : AutoRollLogger) : Except Fault AutoRollLogger := do
  let (now, env) := self.env.nowMicros outside
  let oldFname ← search env self.settings.logPath (2 ^ 64) now
  return { self with env := env.renameFile self.settings.logFname oldFname }

/-- `logger_->Logv`, as in `LogInternal`. -/
def logInternal (self : AutoRollLogger) (message : Bytes) :
    Except Fault AutoRollLogger := do
  let some logger := self.logger | throw .nullLogger
  let (logger, env) := logger.logv outside self.env message
  return { self with logger := some logger, env := env }

/-- `WriteHeaderInfo`. -/
def writeHeaderInfo (self : AutoRollLogger) : Except Fault AutoRollLogger :=
  self.headers.foldlM (fun self header => self.logInternal outside (cString header)) self

/-- `LogExpired`. -/
def logExpired (self : AutoRollLogger) : Bool × AutoRollLogger :=
  let self :=
    if self.callNowMicrosEveryNRecords ≤ self.cachedNowAccessCount then
      let (now, self) := self.readSeconds outside
      { self with cachedNow := now, cachedNowAccessCount := 0 }
    else self
  let self := { self with cachedNowAccessCount := self.cachedNowAccessCount + 1 }
  (decide (self.ctime + self.settings.kLogFileTimeToRoll ≤ self.cachedNow), self)

/-- `GetLogFileSize`. -/
def getLogFileSize (self : AutoRollLogger) : Except Fault UInt64 := do
  let some logger := self.logger | throw .nullLogger
  return logger.logSize

/-- The second half of the condition of `Logv`. -/
def isTooLarge (self : AutoRollLogger) : Except Fault Bool := do
  if 0 < self.settings.kMaxLogFileSize then
    let size ← self.getLogFileSize
    return decide (self.settings.kMaxLogFileSize ≤ size)
  else return false

/-- The condition of `Logv`: whether it is time to roll. -/
def isDue (self : AutoRollLogger) : Except Fault (Bool × AutoRollLogger) := do
  let (expired, self) :=
    if 0 < self.settings.kLogFileTimeToRoll then self.logExpired outside else (false, self)
  if expired then return (true, self)
  else
    let large ← self.isTooLarge
    return (large, self)

/-- The branch of `Logv` that rolls, and what follows it. -/
def rollAndLog (self : AutoRollLogger) (message : Bytes) : Except Fault AutoRollLogger := do
  let self ← self.rollLogFile outside
  let self ← self.resetLogger outside
  -- The error cannot really be logged if creating a new file failed.
  if !self.status.ok then return self
  let self ← self.writeHeaderInfo outside
  self.logInternal outside message

/-- `Logv`, of a message that `vsnprintf` has formatted.  Assertions are off. -/
def logv (self : AutoRollLogger) (message : Bytes) : Except Fault AutoRollLogger := do
  let (due, self) ← self.isDue outside
  if due then self.rollAndLog outside message else self.logInternal outside message

/-- `LogHeader`, of a message that `vsnprintf` has formatted. -/
def logHeader (self : AutoRollLogger) (message : Bytes) : Except Fault AutoRollLogger :=
  let self := { self with headers := self.headers ++ [valistToString message] }
  self.logInternal outside message

/-- `Flush`. -/
def flush (self : AutoRollLogger) : AutoRollLogger :=
  match self.logger with
  | none => self
  | some logger =>
      let (logger, env) := logger.flush outside self.env
      { self with logger := some logger, env := env }

/-- The constructor. -/
def construct (settings : RollSettings) (env : PosixEnv) : Except Fault AutoRollLogger := do
  let (micros, env) := env.nowMicros outside
  let now := outside.seconds micros
  let self : AutoRollLogger := ⟨settings, env, none, .OK, [], now, now, 0, 100⟩
  let self ← self.rollLogFile outside
  self.resetLogger outside

/-- A call of a method. -/
inductive Op
  | logv (message : Bytes)
  | logHeader (message : Bytes)
  | getLogFileSize
  | flush
  | setCallNowMicrosEveryNRecords (records : UInt64)
  deriving DecidableEq, Repr

/-- Make a call. -/
def step (self : AutoRollLogger) : Op → Except Fault AutoRollLogger
  | .logv message => self.logv outside message
  | .logHeader message => self.logHeader outside message
  | .getLogFileSize => do
      let _ ← self.getLogFileSize
      return self
  | .flush => return self.flush outside
  | .setCallNowMicrosEveryNRecords records =>
      return { self with callNowMicrosEveryNRecords := records }

/-- What a call leads to, if it returns. -/
def next (self : AutoRollLogger) (op : Op) : Option AutoRollLogger :=
  (self.step outside op).toOption

end Methods

theorem toOption_eq_some_iff {result : Except Fault AutoRollLogger} {after : AutoRollLogger} :
    result.toOption = some after ↔ result = .ok after := by
  cases result with
  | error fault => exact ⟨nofun, nofun⟩
  | ok final => exact ⟨fun same => Option.some.inj same ▸ rfl, fun same => same ▸ rfl⟩

theorem next_eq_some_iff
    {outside : Outside}
    {self after : AutoRollLogger}
    {op : Op} :
    self.next outside op = some after ↔ self.step outside op = .ok after :=
  toOption_eq_some_iff

end AutoRollLogger

end RocksUtil
