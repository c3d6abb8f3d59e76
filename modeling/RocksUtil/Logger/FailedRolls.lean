import RocksUtil.Logger.Rolling

/-!
# Rolls that fail

Sequences of calls of a logger for which opening a file may fail.  After a roll that has
failed `logger_` is null, and it stays so until a call of `Logv` rolls again.  Most calls
use it before they could: the only ones that survive are those of `Flush`, and those of
`Logv` that find that the file is too old (`survives_failed_rolls_iff`).
-/

namespace RocksUtil
namespace AutoRollLogger

variable {outside : Outside} {self after : AutoRollLogger}

/-- The call does not use a logger that is null. -/
def Survives (outside : Outside) (self : AutoRollLogger) : Op → Prop
  | .logv _ => self.logger = none → self.expires outside = true
  | .logHeader _ => self.logger ≠ none
  | .getLogFileSize => self.logger ≠ none
  | .flush => True
  | .setCallNowMicrosEveryNRecords _ => True

/-- The calls that dereference a null pointer. -/
theorem step_null_iff (outside : Outside) (self : AutoRollLogger) (op : Op) :
    self.step outside op = .error .nullLogger ↔ ¬ Survives outside self op := by
  cases op with
  | logv message =>
      have outcome := logv_outcome outside self message
      change self.logv outside message = _ ↔ ¬ (_ → _)
      generalize self.logv outside message = result at outcome
      cases outcome with
      | nullLogger isNull young =>
          exact iff_of_true rfl fun survives =>
            absurd (young.symm.trans (survives isNull)) Bool.false_ne_true
      | endless survives full => exact iff_of_false nofun (not_not.mpr survives)
      | fails survives closed isNull settings headers =>
          exact iff_of_false nofun (not_not.mpr survives)
      | writes isLogger writes =>
          exact iff_of_false nofun
            (not_not.mpr fun isNull => absurd (isLogger.symm.trans isNull) nofun)
      | rolls survives areLines rolled writes settings headers status =>
          exact iff_of_false nofun (not_not.mpr survives)
  | logHeader message =>
      change self.logHeader outside message = _ ↔ ¬ (self.logger ≠ none)
      cases isLogger : self.logger with
      | none =>
          exact iff_of_true (logHeader_null isLogger message) (not_not.mpr rfl)
      | some logger =>
          obtain ⟨after, returns, -⟩ := logHeader_spec outside isLogger message
          exact iff_of_false (returns ▸ nofun) (not_not.mpr nofun)
  | getLogFileSize =>
      change _ ↔ ¬ (self.logger ≠ none)
      cases isLogger : self.logger with
      | none => exact iff_of_true (step_getLogFileSize_null isLogger) (not_not.mpr rfl)
      | some logger =>
          rw [step_getLogFileSize_of_some isLogger]
          exact iff_of_false nofun (not_not.mpr nofun)
  | flush => exact iff_of_false nofun (not_not.mpr trivial)
  | setCallNowMicrosEveryNRecords records => exact iff_of_false nofun (not_not.mpr trivial)

/-! ## What is logged -/

/-- The message that a call is to log. -/
def Op.message : Op → Option Bytes
  | .logv message => some message
  | .logHeader message => some message
  | _ => none

/-- A logger that is not null writes to `LOG`. -/
structure Attached (settings : RollSettings) (current : AutoRollLogger) : Prop where
  same : current.settings = settings
  named : ∀ logger, current.logger = some logger →
    current.env.directory.names settings.logFname = some logger.file

section Steps

variable {settings : RollSettings} {op : Op}

theorem Attached.of_exists
    (same : self.settings = settings)
    (attached : ∃ logger, self.logger = some logger ∧
      self.env.directory.names settings.logFname = some logger.file) :
    Attached settings self := by
  refine ⟨same, fun logger isLogger => ?_⟩
  obtain ⟨logger', isLogger', named⟩ := attached
  obtain rfl := Option.some.inj (isLogger.symm.trans isLogger')
  exact named

/-- Whether files can be opened or not. -/
theorem Attached.step
    (attached : Attached settings self)
    (steps : self.step outside op = .ok after) :
    Attached settings after := by
  obtain ⟨rfl, named⟩ := attached
  cases op with
  | logv message =>
      have outcome := logv_outcome outside self message
      rw [show self.logv outside message = .ok after from steps] at outcome
      cases outcome with
      | fails survives closed isNull settings headers =>
          exact ⟨settings, fun logger isLogger =>
            absurd (isNull.symm.trans isLogger) nofun⟩
      | writes isLogger writes =>
          exact .of_exists writes.settings (writes.attached (named _ isLogger))
      | rolls survives areLines rolled writes settings headers status =>
          refine .of_exists settings (writes.attached ?_)
          rw [rolled.names, Function.update_self]
  | logHeader message =>
      change self.logHeader outside message = _ at steps
      cases isLogger : self.logger with
      | none =>
          exact absurd ((logHeader_null isLogger message).symm.trans steps) nofun
      | some logger =>
          obtain ⟨after', returns, writes⟩ := logHeader_spec outside isLogger message
          obtain rfl := Except.ok.inj (steps.symm.trans returns)
          exact .of_exists writes.settings (writes.attached (named _ isLogger))
  | getLogFileSize =>
      cases isLogger : self.logger with
      | none => exact absurd ((step_getLogFileSize_null isLogger).symm.trans steps) nofun
      | some logger =>
          obtain rfl :=
            Except.ok.inj ((step_getLogFileSize_of_some isLogger).symm.trans steps)
          exact ⟨rfl, named⟩
  | flush =>
      obtain rfl := Except.ok.inj steps
      cases isLogger : self.logger with
      | none =>
          rw [AutoRollLogger.flush, isLogger]
          exact ⟨rfl, named⟩
      | some logger =>
          obtain ⟨flushed, env, flushes, file, directory⟩ := flush_of_some outside isLogger
          rw [flushes]
          refine .of_exists rfl ⟨flushed, rfl, ?_⟩
          rw [file, directory]
          exact named logger isLogger
  | setCallNowMicrosEveryNRecords records =>
      obtain rfl := Except.ok.inj steps
      exact ⟨rfl, named⟩

/-- A call that survives logs its message, if a file could be opened. -/
theorem Attached.logs
    (attached : Attached settings self)
    {message : Bytes}
    (isMessage : op.message = some message)
    (survives : Survives outside self op)
    (opens : outside.opens self.env.calls = true)
    (notFull : ¬ Full settings.logPath self.env.directory) :
    ∃ after between, self.step outside op = .ok after ∧
      Keeps settings.logPath self.env.directory between ∧
      LogsTo outside settings.logPath message between after.env.directory := by
  obtain ⟨rfl, named⟩ := attached
  cases op with
  | logv message' =>
      obtain rfl := Option.some.inj isMessage
      have outcome := logv_outcome outside self message'
      change ∃ after between, self.logv outside message' = .ok after ∧ _
      generalize self.logv outside message' = result at outcome
      cases outcome with
      | nullLogger isNull young =>
          exact absurd (young.symm.trans (survives isNull)) Bool.false_ne_true
      | endless survives full => exact absurd full notFull
      | fails survives closed isNull settings headers =>
          exact absurd (opens.symm.trans closed) nofun
      | writes isLogger writes =>
          exact ⟨_, _, rfl, .refl .., writes.logsTo (named _ isLogger)⟩
      | rolls survives areLines rolled writes settings headers status =>
          refine ⟨_, _, rfl, .of_rolled rolled, writes.logsTo ?_⟩
          exact (congrFun rolled.names _).trans (Function.update_self ..)
  | logHeader message' =>
      obtain rfl := Option.some.inj isMessage
      obtain ⟨logger, isLogger⟩ := Option.ne_none_iff_exists'.mp survives
      obtain ⟨after, returns, writes⟩ := logHeader_spec outside isLogger message'
      exact ⟨after, _, returns, .refl .., writes.logsTo (named _ isLogger)⟩
  | getLogFileSize => exact absurd isMessage nofun
  | flush => exact absurd isMessage nofun
  | setCallNowMicrosEveryNRecords records => exact absurd isMessage nofun

end Steps

/-! ## Runs -/

/-- The constructor leaves a logger behind, or none. -/
theorem construct_attached
    {settings : RollSettings}
    {env : PosixEnv}
    {first : AutoRollLogger}
    (constructs : construct outside settings env = .ok first) :
    Attached settings first := by
  obtain ⟨unopened, sameSettings, -, -, isRoll⟩ := construct_eq outside settings env
  rw [isRoll] at constructs
  rcases unopened.reopens_spec outside with
    ⟨rolled, reset, moves, resets, settings', headers, opened⟩ | ⟨endless, -⟩
  · rw [moves] at constructs
    obtain rfl := Except.ok.inj (resets.symm.trans constructs)
    rw [sameSettings] at settings' opened
    rcases opened with ⟨-, -, ⟨ts, isRolled⟩, logger, isLogger, file⟩ | ⟨-, -, isNull⟩
    · refine .of_exists settings' ⟨logger, isLogger, ?_⟩
      rw [isRolled.names, Function.update_self, file]
    · exact ⟨settings', fun logger isLogger => absurd (isNull.symm.trans isLogger) nofun⟩
  · rw [endless] at constructs
    exact absurd constructs nofun

/-- Whenever a file could be opened again, and there is a name for the old one, a message
is logged. -/
def LogsAgain
    (outside : Outside)
    (settings : RollSettings)
    (first : AutoRollLogger)
    (calls : List Op) : Prop :=
  ∀ front op back message before,
    calls = front ++ op :: back → op.message = some message →
    Machine.run (next outside) first front = some before →
    outside.opens before.env.calls = true →
    ¬ Full settings.logPath before.env.directory →
    ∃ after between, before.step outside op = .ok after ∧
      Keeps settings.logPath before.env.directory between ∧
      LogsTo outside settings.logPath message between after.env.directory

/-- Logging survives rolls that fail exactly as long as no call uses the logger that is
not there. -/
theorem survives_failed_rolls_iff
    (outside : Outside)
    (settings : RollSettings)
    (env : PosixEnv)
    (first : AutoRollLogger)
    (constructs : construct outside settings env = .ok first)
    (calls : List Op) :
    (Machine.Along (fun self op => self.step outside op ≠ .error .nullLogger) (next outside)
        first calls ∧
      LogsAgain outside settings first calls) ↔
    Machine.Along (Survives outside) (next outside) first calls := by
  have same := Machine.along_iff
    (fun self op => (step_null_iff outside self op).not_left) (next outside) first calls
  constructor
  · intro ⟨neverNull, _⟩
    exact same.mp neverNull
  · intro along
    refine ⟨same.mpr along, fun front op back message before split isMessage runs opens
      notFull => ?_⟩
    subst split
    have attached : Attached settings before :=
      Machine.run_preserves (Attached settings)
        (fun attached steps => attached.step (next_eq_some_iff.mp steps)) runs
        (construct_attached constructs)
    exact attached.logs isMessage (along.allowed runs) opens notFull

/-- The second file that is opened is the only one that cannot be. -/
def flaky : Outside := { stopped with opens := fun call => call != 1 }

/-- A roll that fails, with a flush behind it. -/
theorem survives_failed_rolls_iff_flaky :
    ∃ first, construct flaky ⟨"", 1, 0, 0⟩ noFiles = .ok first ∧
      ((Machine.Along (fun self op => self.step flaky op ≠ .error .nullLogger) (next flaky)
          first [.logv [105], .logv [105], .flush] ∧
        LogsAgain flaky ⟨"", 1, 0, 0⟩ first [.logv [105], .logv [105], .flush]) ↔
      Machine.Along (Survives flaky) (next flaky) first
        [.logv [105], .logv [105], .flush]) := by
  have returns : (construct flaky ⟨"", 1, 0, 0⟩ noFiles).toOption.isSome := by
    decide +kernel
  obtain ⟨first, isFirst⟩ := Option.isSome_iff_exists.mp returns
  have constructs := toOption_eq_some_iff.mp isFirst
  exact ⟨first, constructs, survives_failed_rolls_iff flaky ⟨"", 1, 0, 0⟩ noFiles first
    constructs [.logv [105], .logv [105], .flush]⟩

/-- The second message makes a roll due, which fails.  No file is opened after it: the
third message, a header and the question for the size all use the logger that is not
there. -/
theorem failed_roll_is_fatal :
    ∃ first before,
      construct flaky ⟨"", 1, 0, 0⟩ noFiles = .ok first ∧
      first.status.ok = true ∧
      Machine.run (next flaky) first [.logv [105], .logv [105]] = some before ∧
      (∀ call, before.env.calls ≤ call → flaky.opens call = true) ∧
      before.step flaky (.logv [105]) = .error .nullLogger ∧
      before.step flaky (.logHeader [105]) = .error .nullLogger ∧
      before.step flaky .getLogFileSize = .error .nullLogger := by
  have ends : ((construct flaky ⟨"", 1, 0, 0⟩ noFiles).toOption.bind fun first =>
      (Machine.run (next flaky) first [.logv [105], .logv [105]]).map fun before =>
        (first.status.ok, before.env.calls, before.logger.isNone, before.expires flaky)) =
      some (true, 2, true, false) := by
    decide +kernel
  obtain ⟨first, isFirst, ends⟩ := Option.bind_eq_some_iff.mp ends
  obtain ⟨before, runs, ends⟩ := Option.map_eq_some_iff.mp ends
  obtain ⟨ok, ends⟩ := Prod.mk.inj ends
  obtain ⟨calls, ends⟩ := Prod.mk.inj ends
  obtain ⟨isNone, young⟩ := Prod.mk.inj ends
  have isNull := Option.isNone_iff_eq_none.mp isNone
  refine ⟨first, before, toOption_eq_some_iff.mp isFirst, ok, runs, fun call later => ?_,
    ?_, ?_, ?_⟩
  · rw [calls] at later
    exact bne_iff_ne.mpr (Nat.ne_of_gt later)
  · exact (step_null_iff ..).mpr fun survives =>
      absurd (young.symm.trans (survives isNull)) Bool.false_ne_true
  · exact (step_null_iff ..).mpr fun survives => survives isNull
  · exact (step_null_iff ..).mpr fun survives => survives isNull

end AutoRollLogger

end RocksUtil
