import Mathlib.Data.List.Forall2
import RocksUtil.Logger.AutoRollLogger

/-!
# Calls of the logger that rolls its file

What each method does to the files and to the members that outlast it.  A call of
`Logv` writes to the file, or moves it away and writes to a new one, or fails to
(`logv_outcome`).
-/

namespace RocksUtil

open PosixLogger (IsLine)

/-! ## Names -/

theorem oldInfoLogFileName_injective (logPath : String) :
    Function.Injective (oldInfoLogFileName logPath) := by
  intro first second same
  have digits := congrArg String.toList same
  simp only [oldInfoLogFileName, String.toList_append, List.append_cancel_left_eq,
    Nat.toList_repr] at digits
  have numbers := congrArg (Nat.ofDigitChars 10 · 0) digits
  rw [Nat.ofDigitChars_ten_toDigits, Nat.ofDigitChars_ten_toDigits] at numbers
  exact UInt64.toNat_inj.mp numbers

theorem oldInfoLogFileName_ne (logPath : String) (ts : UInt64) :
    oldInfoLogFileName logPath ts ≠ infoLogFileName logPath := by
  intro same
  have lengths := congrArg String.length same
  unfold oldInfoLogFileName infoLogFileName at lengths
  simp only [String.length_append] at lengths
  have longer : "/LOG".length < "/LOG.old.".length := by decide
  omega

namespace AutoRollLogger

variable {outside : Outside} {self after : AutoRollLogger}

/-- All names for old files are taken. -/
def Full (logPath : String) (directory : Directory String UInt8) : Prop :=
  ∀ ts, directory.names (oldInfoLogFileName logPath ts) ≠ none

/-- The search finds a name that is free, if there is one within reach. -/
theorem search_spec (env : PosixEnv) (logPath : String) (fuel : Nat) (now : UInt64) :
    (∃ ts, search env logPath fuel now = .ok (oldInfoLogFileName logPath ts) ∧
        env.directory.names (oldInfoLogFileName logPath ts) = none) ∨
      search env logPath fuel now = .error .endless ∧
        ∀ offset < fuel,
          env.directory.names (oldInfoLogFileName logPath (now + UInt64.ofNat offset)) ≠
            none := by
  induction fuel generalizing now with
  | zero => exact .inr ⟨rfl, nofun⟩
  | succ fuel inductionHypothesis =>
      rw [search]
      cases isTaken : env.fileExists (oldInfoLogFileName logPath now) with
      | false =>
          rw [PosixEnv.fileExists, Option.isSome_eq_false_iff, Option.isNone_iff_eq_none]
            at isTaken
          exact .inl ⟨now, rfl, isTaken⟩
      | true =>
          rw [PosixEnv.fileExists, Option.isSome_iff_ne_none] at isTaken
          rcases inductionHypothesis (now + 1) with found | ⟨endless, taken⟩
          · exact .inl found
          · refine .inr ⟨endless, fun offset bound => ?_⟩
            cases offset with
            | zero =>
                have same : now + UInt64.ofNat 0 = now := UInt64.add_zero now
                rwa [same]
            | succ offset =>
                have later := taken offset (Nat.lt_of_succ_lt_succ bound)
                rwa [UInt64.add_assoc, UInt64.add_comm 1, ← UInt64.ofNat_one,
                  ← UInt64.ofNat_add] at later

/-- The search goes on for ever only if all names are taken. -/
theorem search_all (env : PosixEnv) (logPath : String) (now : UInt64) :
    (∃ ts, search env logPath (2 ^ 64) now = .ok (oldInfoLogFileName logPath ts) ∧
        env.directory.names (oldInfoLogFileName logPath ts) = none) ∨
      search env logPath (2 ^ 64) now = .error .endless ∧ Full logPath env.directory := by
  rcases search_spec env logPath (2 ^ 64) now with found | ⟨endless, taken⟩
  · exact .inl found
  · refine .inr ⟨endless, fun ts => ?_⟩
    have reached := taken (ts - now).toNat (ts - now).toNat_lt
    rwa [UInt64.ofNat_toNat, UInt64.add_comm, UInt64.sub_add_cancel] at reached

/-! ## Parts of calls -/

/-- Only the clock has been read. -/
structure Rereads (before after : AutoRollLogger) : Prop where
  settings : after.settings = before.settings
  directory : after.env.directory = before.env.directory
  calls : after.env.calls = before.env.calls
  logger : after.logger = before.logger
  headers : after.headers = before.headers
  status : after.status = before.status

theorem Rereads.refl (current : AutoRollLogger) : Rereads current current :=
  ⟨rfl, rfl, rfl, rfl, rfl, rfl⟩

/-- The file is too old. -/
def expires (outside : Outside) (self : AutoRollLogger) : Bool :=
  decide (0 < self.settings.kLogFileTimeToRoll) && (self.logExpired outside).1

section Parts

variable (outside : Outside) (self : AutoRollLogger)

theorem rereads_logExpired : Rereads self (self.logExpired outside).2 := by
  unfold logExpired
  dsimp only
  split <;> exact ⟨rfl, rfl, rfl, rfl, rfl, rfl⟩

theorem isTooLarge_spec :
    self.isTooLarge = .error .nullLogger ∧ self.logger = none ∨
      ∃ large, self.isTooLarge = .ok large ∧ (self.logger = none → large = false) := by
  unfold isTooLarge getLogFileSize
  split
  · cases self.logger with
    | none => exact .inl ⟨rfl, rfl⟩
    | some logger => exact .inr ⟨_, rfl, nofun⟩
  · exact .inr ⟨false, rfl, fun _ => rfl⟩

/-- A null pointer is used where a size has to be known, and else it is only the age that
makes a roll due. -/
theorem isDue_spec :
    ∃ reread, Rereads self reread ∧
      (self.isDue outside = .error .nullLogger ∧ self.logger = none ∧
          self.expires outside = false ∨
        ∃ due, self.isDue outside = .ok (due, reread) ∧
          (self.logger = none → due = self.expires outside)) := by
  have young (reread : AutoRollLogger) (rereads : Rereads self reread) :
      ((reread.isTooLarge.bind fun large => .ok (large, reread)) = .error .nullLogger ∧
          self.logger = none ∧ false = false) ∨
        ∃ due, (reread.isTooLarge.bind fun large => .ok (large, reread)) =
            .ok (due, reread) ∧ (self.logger = none → due = false) := by
    rw [← rereads.logger]
    rcases reread.isTooLarge_spec with ⟨fails, isNull⟩ | ⟨large, returns, small⟩
    · exact .inl ⟨by rw [fails]; rfl, isNull, rfl⟩
    · exact .inr ⟨large, by rw [returns]; rfl, small⟩
  have expired := rereads_logExpired outside self
  unfold isDue expires
  by_cases limited : 0 < self.settings.kLogFileTimeToRoll
  · rw [if_pos limited, decide_eq_true limited, Bool.true_and]
    generalize self.logExpired outside = answer at expired ⊢
    obtain ⟨old, reread⟩ := answer
    cases old with
    | true => exact ⟨reread, expired, .inr ⟨true, rfl, fun _ => rfl⟩⟩
    | false => exact ⟨reread, expired, young reread expired⟩
  · rw [if_neg limited, decide_eq_false limited, Bool.false_and]
    exact ⟨self, .refl self, young self (.refl self)⟩

/-- The file is moved to a free name, if there is one. -/
theorem rollLogFile_spec :
    (∃ ts rolled, self.rollLogFile outside = .ok rolled ∧
        self.env.directory.names (oldInfoLogFileName self.settings.logPath ts) = none ∧
        rolled.env.directory = self.env.directory.rename self.settings.logFname
          (oldInfoLogFileName self.settings.logPath ts) ∧
        rolled.env.calls = self.env.calls ∧
        rolled.settings = self.settings ∧ rolled.headers = self.headers) ∨
      self.rollLogFile outside = .error .endless ∧
        Full self.settings.logPath self.env.directory := by
  unfold rollLogFile
  rcases search_all (self.env.nowMicros outside).2 self.settings.logPath
    (self.env.nowMicros outside).1 with ⟨ts, found, free⟩ | ⟨endless, full⟩
  · refine .inl ⟨ts, ?_⟩
    dsimp only
    rw [found]
    exact ⟨_, rfl, free, rfl, rfl, rfl, rfl⟩
  · refine .inr ⟨?_, full⟩
    dsimp only
    rw [endless]
    rfl

/-- A new logger, or none. -/
theorem resetLogger_spec :
    ∃ reset, self.resetLogger outside = .ok reset ∧
      reset.settings = self.settings ∧ reset.headers = self.headers ∧
      (outside.opens self.env.calls = true ∧ reset.status.ok = true ∧
          reset.env.directory =
            (self.env.directory.openAnew self.settings.logFname).2 ∧
          (∃ logger, reset.logger = some logger ∧
            logger.file = (self.env.directory.openAnew self.settings.logFname).1) ∨
        outside.opens self.env.calls = false ∧ reset.status.ok = false ∧
          reset.env.directory = self.env.directory ∧ reset.logger = none) := by
  unfold resetLogger PosixEnv.newLogger
  cases opened : outside.opens self.env.calls with
  | true => exact ⟨_, rfl, rfl, rfl, .inl ⟨rfl, rfl, rfl, _, rfl, rfl⟩⟩
  | false => exact ⟨_, rfl, rfl, rfl, .inr ⟨rfl, rfl, rfl, rfl⟩⟩

/-- The file makes room for a new one, if there is a free name, and a new one is opened,
if that does not fail. -/
theorem reopens_spec :
    (∃ rolled reset, self.rollLogFile outside = .ok rolled ∧
        rolled.resetLogger outside = .ok reset ∧
        reset.settings = self.settings ∧ reset.headers = self.headers ∧
        (outside.opens self.env.calls = true ∧ reset.status.ok = true ∧
            (∃ ts, Directory.Rolled self.settings.logFname
              (oldInfoLogFileName self.settings.logPath ts) [] self.env.directory
              reset.env.directory) ∧
            (∃ logger, reset.logger = some logger ∧
              logger.file = self.env.directory.fresh) ∨
          outside.opens self.env.calls = false ∧ reset.status.ok = false ∧
            reset.logger = none)) ∨
      self.rollLogFile outside = .error .endless ∧
        Full self.settings.logPath self.env.directory := by
  rcases self.rollLogFile_spec outside with
    ⟨ts, rolled, rolls, free, moved, calls, settings, headers⟩ | endless
  · obtain ⟨reset, resets, resetSettings, resetHeaders, opened⟩ :=
      rolled.resetLogger_spec outside
    refine .inl ⟨rolled, reset, rolls, resets, resetSettings.trans settings,
      resetHeaders.trans headers, ?_⟩
    rw [calls, settings, moved] at opened
    have differ : oldInfoLogFileName self.settings.logPath ts ≠ self.settings.logFname :=
      oldInfoLogFileName_ne self.settings.logPath ts
    obtain ⟨isFresh, isRolled⟩ := Directory.rolled_openAnew differ free
    rcases opened with ⟨isOpen, ok, directory, logger, isLogger, file⟩ |
      ⟨isClosed, failed, -, isNull⟩
    · refine .inl ⟨isOpen, ok, ⟨ts, ?_⟩, logger, isLogger, file.trans isFresh⟩
      rw [directory]
      exact isRolled
    · exact .inr ⟨isClosed, failed, isNull⟩
  · exact .inr endless

end Parts

/-- The constructor rolls, and opens a file. -/
theorem construct_eq (outside : Outside) (settings : RollSettings) (env : PosixEnv) :
    ∃ unopened : AutoRollLogger,
      unopened.settings = settings ∧ unopened.headers = [] ∧
      unopened.env.directory = env.directory ∧
      construct outside settings env =
        (unopened.rollLogFile outside >>= fun rolled => rolled.resetLogger outside) :=
  ⟨_, rfl, rfl, rfl, rfl⟩

/-! ## Writing -/

/-- Messages go to the end of a file, one line each. -/
structure Writes
    (outside : Outside)
    (messages : List Bytes)
    (file : Nat)
    (before after : AutoRollLogger) : Prop where
  lines : ∃ lines, List.Forall₂ (IsLine outside) messages lines ∧
    after.env.directory = before.env.directory.append file lines.flatten
  logger : ∃ logger, after.logger = some logger ∧ logger.file = file
  settings : after.settings = before.settings
  headers : after.headers = before.headers
  status : after.status = before.status

theorem Writes.trans
    {first second : List Bytes}
    {file : Nat}
    {between : AutoRollLogger}
    (front : Writes outside first file self between)
    (back : Writes outside second file between after) :
    Writes outside (first ++ second) file self after := by
  obtain ⟨firstLines, areFirst, isBetween⟩ := front.lines
  obtain ⟨secondLines, areSecond, isAfter⟩ := back.lines
  refine ⟨⟨firstLines ++ secondLines, List.rel_append areFirst areSecond, ?_⟩, back.logger,
    back.settings.trans front.settings, back.headers.trans front.headers,
    back.status.trans front.status⟩
  rw [isAfter, isBetween, Directory.append_append, List.flatten_append]

/-- Writing changes no names. -/
theorem Writes.names
    {messages : List Bytes}
    {file : Nat}
    (writes : Writes outside messages file self after) :
    after.env.directory.names = self.env.directory.names := by
  obtain ⟨lines, -, written⟩ := writes.lines
  rw [written, Directory.names_append]

/-- A logger that has written to a file goes on with it. -/
theorem Writes.attached
    {messages : List Bytes}
    {file : Nat}
    {name : String}
    (writes : Writes outside messages file self after)
    (named : self.env.directory.names name = some file) :
    ∃ logger, after.logger = some logger ∧
      after.env.directory.names name = some logger.file := by
  obtain ⟨logger, isLogger, sameFile⟩ := writes.logger
  exact ⟨logger, isLogger, by rw [writes.names, named, sameFile]⟩

/-- A logger that is not null writes one line. -/
theorem logInternal_spec
    (outside : Outside)
    {logger : PosixLogger}
    (isLogger : self.logger = some logger)
    (message : Bytes) :
    ∃ after, self.logInternal outside message = .ok after ∧
      Writes outside [message] logger.file self after := by
  obtain ⟨⟨line, isLine, written⟩, file, -⟩ := logger.logv_spec outside self.env message
  unfold logInternal
  rw [isLogger]
  refine ⟨_, rfl, ⟨[line], .cons isLine .nil, ?_⟩, ⟨_, rfl, file⟩, rfl, rfl, rfl⟩
  rw [List.flatten_cons, List.flatten_nil, List.append_nil]
  exact written

theorem logInternal_null (isNull : self.logger = none) (message : Bytes) :
    self.logInternal outside message = .error .nullLogger := by
  unfold logInternal
  rw [isNull]
  rfl

/-- All headers are written, in order. -/
theorem writeHeaders_spec
    (outside : Outside)
    {logger : PosixLogger}
    (isLogger : self.logger = some logger)
    (headers : List Bytes) :
    ∃ after,
      headers.foldlM (fun (self : AutoRollLogger) header =>
        self.logInternal outside (cString header)) self = .ok after ∧
      Writes outside (headers.map cString) logger.file self after := by
  induction headers generalizing self logger with
  | nil =>
      refine ⟨self, rfl, ⟨[], .nil, ?_⟩, ⟨logger, isLogger, rfl⟩, rfl, rfl, rfl⟩
      rw [List.flatten_nil, Directory.append_nil]
  | cons header headers inductionHypothesis =>
      obtain ⟨between, returns, first⟩ := logInternal_spec outside isLogger (cString header)
      obtain ⟨logger', isLogger', sameFile⟩ := first.logger
      obtain ⟨after, rest, later⟩ := inductionHypothesis isLogger'
      rw [sameFile] at later
      refine ⟨after, ?_, first.trans later⟩
      rw [List.foldlM_cons, returns]
      exact rest

/-! ## Whole calls -/

/-- What `Logv` may end with. -/
inductive Outcome
    (outside : Outside)
    (self : AutoRollLogger)
    (message : Bytes) : Except Fault AutoRollLogger → Prop
  /-- There is no logger, and the file is not too old. -/
  | nullLogger
      (isNull : self.logger = none)
      (young : self.expires outside = false) :
      Outcome outside self message (.error .nullLogger)
  /-- A roll is due, and there is no free name. -/
  | endless
      (survives : self.logger = none → self.expires outside = true)
      (full : Full self.settings.logPath self.env.directory) :
      Outcome outside self message (.error .endless)
  /-- The file has been moved away, and no new one could be opened. -/
  | fails
      {after : AutoRollLogger}
      (survives : self.logger = none → self.expires outside = true)
      (closed : outside.opens self.env.calls = false)
      (isNull : after.logger = none)
      (settings : after.settings = self.settings)
      (headers : after.headers = self.headers) :
      Outcome outside self message (.ok after)
  /-- No roll is due. -/
  | writes
      {after : AutoRollLogger}
      {logger : PosixLogger}
      (isLogger : self.logger = some logger)
      (writes : Writes outside [message] logger.file self after) :
      Outcome outside self message (.ok after)
  /-- The file has been moved away, and the new one begins with the headers. -/
  | rolls
      {headed after : AutoRollLogger}
      {ts : UInt64}
      {lines : List Bytes}
      (survives : self.logger = none → self.expires outside = true)
      (areLines : List.Forall₂ (IsLine outside) (self.headers.map cString) lines)
      (rolled : Directory.Rolled self.settings.logFname
        (oldInfoLogFileName self.settings.logPath ts) lines.flatten self.env.directory
        headed.env.directory)
      (writes : Writes outside [message] self.env.directory.fresh headed after)
      (settings : after.settings = self.settings)
      (headers : after.headers = self.headers)
      (status : after.status.ok = true) :
      Outcome outside self message (.ok after)

theorem Writes.of_rereads
    {messages : List Bytes}
    {file : Nat}
    {reread : AutoRollLogger}
    (rereads : Rereads self reread)
    (writes : Writes outside messages file reread after) :
    Writes outside messages file self after where
  lines := rereads.directory ▸ writes.lines
  logger := writes.logger
  settings := writes.settings.trans rereads.settings
  headers := writes.headers.trans rereads.headers
  status := writes.status.trans rereads.status

/-- A roll and what is written to the new file. -/
theorem rollAndLog_outcome
    (survives : self.logger = none → self.expires outside = true)
    {reread : AutoRollLogger}
    (rereads : Rereads self reread)
    (message : Bytes) :
    Outcome outside self message (reread.rollAndLog outside message) := by
  unfold rollAndLog
  rcases reread.reopens_spec outside with
    ⟨rolled, reset, rolls, resets, settings, headers, opened⟩ | ⟨endless, full⟩
  · rw [rolls]
    change Outcome outside self message (rolled.resetLogger outside >>= _)
    rw [resets]
    change Outcome outside self message (if !reset.status.ok then .ok reset else _)
    rw [rereads.calls, rereads.settings, rereads.directory] at opened
    replace settings := settings.trans rereads.settings
    replace headers := headers.trans rereads.headers
    rcases opened with ⟨isOpen, ok, ⟨ts, isRolled⟩, logger, isLogger, file⟩ |
      ⟨isClosed, failed, isNull⟩
    · obtain ⟨headed, writesHeaders, first⟩ := writeHeaders_spec outside isLogger reset.headers
      obtain ⟨logger', isLogger', sameFile⟩ := first.logger
      obtain ⟨after, logs, second⟩ := logInternal_spec outside isLogger' message
      rw [sameFile] at second
      rw [file] at first second
      obtain ⟨lines, areLines, written⟩ := first.lines
      rw [headers] at areLines
      have returns : (reset.writeHeaderInfo outside >>= (·.logInternal outside message)) =
          .ok after := by
        rw [writeHeaderInfo, writesHeaders]
        exact logs
      have withLines := isRolled.append lines.flatten
      rw [← written, List.nil_append] at withLines
      rw [ok, Bool.not_true, if_neg Bool.false_ne_true, returns]
      exact .rolls survives areLines withLines second
        ((second.settings.trans first.settings).trans settings)
        ((second.headers.trans first.headers).trans headers)
        (second.status.trans first.status ▸ ok)
    · rw [failed, Bool.not_false, if_pos rfl]
      exact .fails survives isClosed isNull settings headers
  · rw [endless]
    rw [rereads.settings, rereads.directory] at full
    exact .endless survives full

/-- What `Logv` does, in any state. -/
theorem logv_outcome
    (outside : Outside)
    (self : AutoRollLogger)
    (message : Bytes) :
    Outcome outside self message (self.logv outside message) := by
  obtain ⟨reread, rereads, ⟨fails, isNull, young⟩ | ⟨due, returns, onlyAge⟩⟩ :=
    isDue_spec outside self
  · rw [logv, fails]
    exact .nullLogger isNull young
  · rw [logv, returns]
    cases due with
    | true => exact rollAndLog_outcome (fun isNull => (onlyAge isNull).symm) rereads message
    | false =>
        change Outcome outside self message (reread.logInternal outside message)
        cases isLogger : self.logger with
        | none =>
            rw [logInternal_null (rereads.logger.trans isLogger)]
            exact .nullLogger isLogger (onlyAge isLogger).symm
        | some logger =>
            obtain ⟨after, logs, writes⟩ :=
              logInternal_spec outside (rereads.logger.trans isLogger) message
            rw [logs]
            exact .writes isLogger (writes.of_rereads rereads)

/-- `LogHeader` keeps the header, and writes the whole message. -/
theorem logHeader_spec
    (outside : Outside)
    {logger : PosixLogger}
    (isLogger : self.logger = some logger)
    (message : Bytes) :
    ∃ after, self.logHeader outside message = .ok after ∧
      Writes outside [message] logger.file
        { self with headers := self.headers ++ [valistToString message] } after := by
  have same : { self with headers := self.headers ++ [valistToString message] }.logger =
      some logger := isLogger
  exact logInternal_spec outside same message

theorem logHeader_null (isNull : self.logger = none) (message : Bytes) :
    self.logHeader outside message = .error .nullLogger := by
  have same : { self with headers := self.headers ++ [valistToString message] }.logger =
      none := isNull
  exact logInternal_null same message

/-- `GetLogFileSize` uses the logger and changes nothing. -/
theorem step_getLogFileSize_of_some
    {logger : PosixLogger}
    (isLogger : self.logger = some logger) :
    self.step outside .getLogFileSize = .ok self := by
  rw [AutoRollLogger.step, getLogFileSize, isLogger]
  rfl

theorem step_getLogFileSize_null (isNull : self.logger = none) :
    self.step outside .getLogFileSize = .error .nullLogger := by
  rw [AutoRollLogger.step, getLogFileSize, isNull]
  rfl

/-- `Flush` changes neither the files nor which of them the logger writes to. -/
theorem flush_of_some
    (outside : Outside)
    {logger : PosixLogger}
    (isLogger : self.logger = some logger) :
    ∃ flushed env,
      self.flush outside = { self with logger := some flushed, env := env } ∧
        flushed.file = logger.file ∧ env.directory = self.env.directory := by
  obtain ⟨file, directory, -⟩ := logger.flush_spec outside self.env
  rw [AutoRollLogger.flush, isLogger]
  exact ⟨_, _, rfl, file, directory⟩

end AutoRollLogger

end RocksUtil
