import Mathlib.Data.Finset.Card
import Mathlib.Data.List.TakeWhile
import Mathlib.Data.Set.Finite.Basic
import RocksUtil.Logger.Calls

/-!
# Rolling keeps the history

Sequences of calls of a logger for which files can always be opened.  Every message goes
to the end of one file.  A roll moves the file to a name that is free, and the new file
begins with all headers so far (`history_kept`).  It takes a free name: a directory may
hold files of all names that old files can have, and then the search for one does not end
(`search_endless_and_header_cut`).
-/

namespace RocksUtil

open PosixLogger (IsLine endLine)

namespace AutoRollLogger

/-! ## What calls do -/

/-- The header that a call adds: it is cut to 1023 bytes, and at the first NUL. -/
def Op.header : Op → List Bytes
  | .logHeader message => [valistToString message]
  | _ => []

/-- `LOG` is moved to a name that no file had, and the new file holds the headers, one
line each. -/
def RollsWith
    (outside : Outside)
    (logPath : String)
    (headers : List Bytes)
    (before after : Directory String UInt8) : Prop :=
  ∃ ts lines,
    List.Forall₂ (fun header line => ∃ micros, line = endLine (outside.stamp micros ++ header))
      headers lines ∧
    Directory.Rolled (infoLogFileName logPath) (oldInfoLogFileName logPath ts) lines.flatten
      before after

/-- One line for a message is added to the end of `LOG`, and nothing else happens. -/
def LogsTo
    (outside : Outside)
    (logPath : String)
    (message : Bytes)
    (before after : Directory String UInt8) : Prop :=
  ∃ file line, before.names (infoLogFileName logPath) = some file ∧
    IsLine outside message line ∧ after = before.append file line

/-- What a call does to the files. -/
def Effect
    (outside : Outside)
    (logPath : String)
    (headers : List Bytes)
    (before after : Directory String UInt8) : Op → Prop
  | .logv message =>
      ∃ between, (between = before ∨ RollsWith outside logPath headers before between) ∧
        LogsTo outside logPath message between after
  | .logHeader message => LogsTo outside logPath message before after
  | _ => after = before

/-- Files only grow, and all names but `LOG` stay where they are. -/
structure Keeps (logPath : String) (before after : Directory String UInt8) : Prop where
  grows : before.Extends after
  names : ∀ name file, name ≠ infoLogFileName logPath → before.names name = some file →
    after.names name = some file

theorem Keeps.refl (logPath : String) (directory : Directory String UInt8) :
    Keeps logPath directory directory :=
  ⟨.refl directory, fun _ _ _ named => named⟩

theorem Keeps.trans
    {logPath : String}
    {first second third : Directory String UInt8}
    (front : Keeps logPath first second)
    (back : Keeps logPath second third) :
    Keeps logPath first third :=
  ⟨front.grows.trans back.grows, fun name file other named =>
    back.names name file other (front.names name file other named)⟩

theorem Keeps.of_rolled
    {logPath archive : String}
    {items : Bytes}
    {before after : Directory String UInt8}
    (rolled : Directory.Rolled (infoLogFileName logPath) archive items before after) :
    Keeps logPath before after :=
  ⟨rolled.extends, fun _ _ other named => rolled.names_of_some other named⟩

theorem RollsWith.keeps
    {outside : Outside}
    {logPath : String}
    {headers : List Bytes}
    {before after : Directory String UInt8}
    (rolls : RollsWith outside logPath headers before after) :
    Keeps logPath before after := by
  obtain ⟨ts, lines, -, rolled⟩ := rolls
  exact .of_rolled rolled

theorem LogsTo.keeps
    {outside : Outside}
    {logPath : String}
    {message : Bytes}
    {before after : Directory String UInt8}
    (logs : LogsTo outside logPath message before after) :
    Keeps logPath before after := by
  obtain ⟨file, line, -, -, rfl⟩ := logs
  exact ⟨before.extends_append file line, fun _ _ _ named => named⟩

theorem Effect.keeps
    {outside : Outside}
    {logPath : String}
    {headers : List Bytes}
    {before after : Directory String UInt8}
    {op : Op}
    (effect : Effect outside logPath headers before after op) :
    Keeps logPath before after := by
  cases op with
  | logv message =>
      obtain ⟨between, rfl | rolls, logs⟩ := effect
      · exact logs.keeps
      · exact rolls.keeps.trans logs.keeps
  | logHeader message => exact LogsTo.keeps effect
  | getLogFileSize => exact effect ▸ .refl ..
  | flush => exact effect ▸ .refl ..
  | setCallNowMicrosEveryNRecords records => exact effect ▸ .refl ..

/-! ## Names that are left -/

/-- There are names left for some more old files. -/
def Room (logPath : String) (rolls : Nat) (directory : Directory String UInt8) : Prop :=
  ∃ taken : Finset UInt64,
    (∀ ts, directory.names (oldInfoLogFileName logPath ts) ≠ none → ts ∈ taken) ∧
      taken.card + rolls ≤ 2 ^ 64

theorem Room.mono
    {logPath : String}
    {rolls fewer : Nat}
    {directory : Directory String UInt8}
    (room : Room logPath rolls directory)
    (fewer_le : fewer ≤ rolls) :
    Room logPath fewer directory := by
  obtain ⟨taken, covers, bound⟩ := room
  exact ⟨taken, covers, (Nat.add_le_add_left fewer_le _).trans bound⟩

/-- Names that are not all taken are not enough to go on for ever. -/
theorem Room.not_full
    {logPath : String}
    {rolls : Nat}
    {directory : Directory String UInt8}
    (room : Room logPath (rolls + 1) directory) :
    ¬ Full logPath directory := by
  intro full
  obtain ⟨taken, covers, bound⟩ := room
  have all : (Finset.range (2 ^ 64)).card ≤ taken.card := by
    refine Finset.card_le_card_of_injOn UInt64.ofNat
      (fun number _ => covers _ (full _)) (fun first isFirst second isSecond same => ?_)
    have firstLt := Finset.mem_range.mp (Finset.mem_coe.mp isFirst)
    have secondLt := Finset.mem_range.mp (Finset.mem_coe.mp isSecond)
    have numbers := congrArg UInt64.toNat same
    rwa [UInt64.toNat_ofNat_of_lt' firstLt, UInt64.toNat_ofNat_of_lt' secondLt] at numbers
  rw [Finset.card_range] at all
  omega

/-- Writing takes no names. -/
theorem Room.of_names
    {logPath : String}
    {rolls : Nat}
    {before after : Directory String UInt8}
    (room : Room logPath rolls before)
    (same : after.names = before.names) :
    Room logPath rolls after := by
  obtain ⟨taken, covers, bound⟩ := room
  exact ⟨taken, fun ts named => covers ts (same ▸ named), bound⟩

/-- A roll takes one name. -/
theorem Room.rolled
    {logPath : String}
    {rolls : Nat}
    {ts : UInt64}
    {items : Bytes}
    {before after : Directory String UInt8}
    (room : Room logPath (rolls + 1) before)
    (rolled : Directory.Rolled (infoLogFileName logPath) (oldInfoLogFileName logPath ts) items
      before after) :
    Room logPath rolls after := by
  obtain ⟨taken, covers, bound⟩ := room
  refine ⟨insert ts taken, fun other named => ?_, ?_⟩
  · by_cases same : other = ts
    · exact same ▸ Finset.mem_insert_self ..
    · refine Finset.mem_insert_of_mem (covers other ?_)
      rw [rolled.names, Function.update_of_ne (oldInfoLogFileName_ne logPath other),
        Function.update_of_ne ((oldInfoLogFileName_injective logPath).ne same)] at named
      exact named
  · have grows := Finset.card_insert_le ts taken
    omega

/-! ## Steps -/

theorem cString_valistToString (message : Bytes) :
    cString (valistToString message) = valistToString message :=
  List.takeWhile_idem ..

theorem length_valistToString_le (message : Bytes) :
    (valistToString message).length ≤ 1023 := by
  have cut := (List.takeWhile_prefix (· ≠ 0) (l := message.take (maxBufferSize - 1))).length_le
  rw [List.length_take] at cut
  exact cut.trans (Nat.min_le_left ..)

/-- Headers are short enough for lines that are not cut. -/
theorem forall₂_header_lines
    {outside : Outside}
    {headers lines : List Bytes}
    (cut : ∀ header ∈ headers, ∃ message, header = valistToString message)
    (areLines : List.Forall₂ (IsLine outside) (headers.map cString) lines) :
    List.Forall₂ (fun header line => ∃ micros, line = endLine (outside.stamp micros ++ header))
      headers lines := by
  induction headers generalizing lines with
  | nil =>
      cases areLines
      exact .nil
  | cons header headers inductionHypothesis =>
      obtain ⟨message, rfl⟩ := cut header List.mem_cons_self
      obtain ⟨line, lines, isLine, areRest, rfl⟩ := List.forall₂_cons_left_iff.mp areLines
      rw [cString_valistToString] at isLine
      exact .cons (isLine.whole (length_valistToString_le message))
        (inductionHypothesis (fun other isOther => cut other (List.mem_cons_of_mem _ isOther))
          areRest)

/-- A logger between calls, as long as files can be opened. -/
structure Running (current : AutoRollLogger) : Prop where
  logger : ∃ logger, current.logger = some logger ∧
    current.env.directory.names current.settings.logFname = some logger.file
  status : current.status.ok = true
  headers : ∀ header ∈ current.headers, ∃ message, header = valistToString message

section Runs

variable {outside : Outside} {self : AutoRollLogger} {rolls : Nat}

/-- A line that is written to `LOG`. -/
theorem Writes.logsTo
    {before after : AutoRollLogger}
    {message : Bytes}
    {file : Nat}
    (writes : Writes outside [message] file before after)
    {logPath : String}
    (named : before.env.directory.names (infoLogFileName logPath) = some file) :
    LogsTo outside logPath message before.env.directory after.env.directory := by
  obtain ⟨lines, areLines, written⟩ := writes.lines
  obtain ⟨line, rest, isLine, isRest, rfl⟩ := List.forall₂_cons_left_iff.mp areLines
  obtain rfl := List.forall₂_nil_left_iff.mp isRest
  rw [List.flatten_cons, List.flatten_nil, List.append_nil] at written
  exact ⟨file, line, named, isLine, written⟩

theorem Running.logv
    (running : Running self)
    (works : ∀ call, outside.opens call = true)
    (room : Room self.settings.logPath (rolls + 1) self.env.directory)
    (message : Bytes) :
    ∃ after, self.logv outside message = .ok after ∧
      Effect outside self.settings.logPath self.headers self.env.directory
        after.env.directory (.logv message) ∧
      after.settings = self.settings ∧ after.headers = self.headers ∧ Running after ∧
      Room self.settings.logPath rolls after.env.directory := by
  obtain ⟨logger, isLogger, named⟩ := running.logger
  have outcome := logv_outcome outside self message
  generalize self.logv outside message = result at outcome
  cases outcome with
  | nullLogger isNull young => exact absurd (isLogger.symm.trans isNull) nofun
  | endless survives full => exact absurd full room.not_full
  | fails survives closed isNull settings headers =>
      exact absurd ((works _).symm.trans closed) nofun
  | @writes after logger' isLogger' writes =>
      obtain rfl := Option.some.inj (isLogger.symm.trans isLogger')
      have logs : LogsTo outside self.settings.logPath message self.env.directory
          after.env.directory := writes.logsTo named
      refine ⟨after, rfl, ⟨_, .inl rfl, logs⟩, writes.settings, writes.headers, ⟨?_, ?_, ?_⟩,
        (room.mono (Nat.le_succ rolls)).of_names writes.names⟩
      · exact writes.settings ▸ writes.attached named
      · exact writes.status ▸ running.status
      · exact writes.headers ▸ running.headers
  | @rolls headed after ts lines survives areLines rolled writes settings headers status =>
      have isNamed : headed.env.directory.names self.settings.logFname =
          some self.env.directory.fresh := by
        rw [rolled.names, Function.update_self]
      have logs : LogsTo outside self.settings.logPath message headed.env.directory
          after.env.directory := writes.logsTo isNamed
      exact ⟨after, rfl, ⟨headed.env.directory,
        .inr ⟨ts, lines, forall₂_header_lines running.headers areLines, rolled⟩, logs⟩,
        settings, headers,
        ⟨settings ▸ writes.attached isNamed, status, headers ▸ running.headers⟩,
        (room.rolled rolled).of_names writes.names⟩

/-- Every call returns, and the logger keeps running. -/
theorem Running.step
    (running : Running self)
    (works : ∀ call, outside.opens call = true)
    (room : Room self.settings.logPath (rolls + 1) self.env.directory)
    (op : Op) :
    ∃ after, self.step outside op = .ok after ∧
      Effect outside self.settings.logPath self.headers self.env.directory
        after.env.directory op ∧
      after.settings = self.settings ∧ after.headers = self.headers ++ op.header ∧
      Running after ∧ Room self.settings.logPath rolls after.env.directory := by
  obtain ⟨logger, isLogger, named⟩ := running.logger
  have fewer := room.mono (Nat.le_succ rolls)
  cases op with
  | logv message =>
      obtain ⟨after, returns, effect, settings, headers, later⟩ :=
        running.logv works room message
      exact ⟨after, returns, effect, settings, headers.trans (List.append_nil _).symm, later⟩
  | logHeader message =>
      obtain ⟨after, returns, writes⟩ := logHeader_spec outside isLogger message
      refine ⟨after, returns, writes.logsTo named, writes.settings, writes.headers,
        ⟨?_, ?_, ?_⟩, fewer.of_names writes.names⟩
      · exact writes.settings ▸ writes.attached named
      · exact writes.status ▸ running.status
      · rw [writes.headers]
        intro header isHeader
        rcases List.mem_append.mp isHeader with before | isNew
        · exact running.headers header before
        · exact ⟨message, List.mem_singleton.mp isNew⟩
  | getLogFileSize =>
      exact ⟨self, step_getLogFileSize_of_some isLogger, rfl, rfl,
        (List.append_nil _).symm, running, fewer⟩
  | flush =>
      obtain ⟨flushed, env, flushes, file, directory⟩ := flush_of_some outside isLogger
      refine ⟨_, rfl, ?_⟩
      rw [flushes]
      exact ⟨directory, rfl, (List.append_nil _).symm,
        ⟨⟨flushed, rfl, by rw [file, directory]; exact named⟩, running.status,
          running.headers⟩,
        fewer.of_names (congrArg Directory.names directory)⟩
  | setCallNowMicrosEveryNRecords records =>
      exact ⟨_, rfl, rfl, rfl, (List.append_nil _).symm,
        ⟨running.logger, running.status, running.headers⟩, fewer⟩

/-- Every run returns. -/
theorem Running.run
    (running : Running self)
    (works : ∀ call, outside.opens call = true)
    (calls : List Op)
    (room : Room self.settings.logPath (calls.length + rolls) self.env.directory) :
    ∃ last, Machine.run (next outside) self calls = some last ∧
      Keeps self.settings.logPath self.env.directory last.env.directory ∧
      last.settings = self.settings ∧
      last.headers = self.headers ++ calls.flatMap Op.header ∧
      Running last ∧ Room self.settings.logPath rolls last.env.directory := by
  induction calls generalizing self with
  | nil =>
      rw [List.length_nil, Nat.zero_add] at room
      exact ⟨self, rfl, .refl .., rfl, (List.append_nil _).symm, running, room⟩
  | cons op calls inductionHypothesis =>
      rw [List.length_cons, Nat.add_right_comm] at room
      obtain ⟨after, returns, effect, settings, headers, later, room'⟩ :=
        running.step works room op
      rw [← settings] at room'
      obtain ⟨last, run, keeps, settings', headers', ending⟩ :=
        inductionHypothesis later room'
      rw [settings] at keeps ending
      refine ⟨last, ?_, effect.keeps.trans keeps, settings'.trans settings, ?_, ending⟩
      · exact Machine.run_cons.mpr ⟨after, next_eq_some_iff.mpr returns, run⟩
      · rw [headers', headers, List.flatMap_cons, List.append_assoc]

/-- The constructor makes room for a new file. -/
theorem construct_running
    (works : ∀ call, outside.opens call = true)
    (settings : RollSettings)
    (env : PosixEnv)
    (room : Room settings.logPath (rolls + 1) env.directory) :
    ∃ first, construct outside settings env = .ok first ∧
      RollsWith outside settings.logPath [] env.directory first.env.directory ∧
      first.settings = settings ∧ first.headers = [] ∧ Running first ∧
      Room settings.logPath rolls first.env.directory := by
  obtain ⟨unopened, sameSettings, sameHeaders, sameDirectory, constructs⟩ :=
    construct_eq outside settings env
  rw [constructs]
  rcases unopened.reopens_spec outside with
    ⟨rolled, first, moves, resets, settings', headers, opened⟩ | ⟨-, full⟩
  · rw [moves]
    refine ⟨first, resets, ?_⟩
    rcases opened with ⟨-, ok, ⟨ts, isRolled⟩, logger, isLogger, file⟩ | ⟨isClosed, -⟩
    · rw [sameSettings] at settings' isRolled
      rw [sameDirectory] at isRolled file
      rw [sameHeaders] at headers
      refine ⟨⟨ts, [], .nil, isRolled⟩, settings', headers,
        ⟨⟨logger, isLogger, ?_⟩, ok, headers ▸ nofun⟩, room.rolled isRolled⟩
      rw [isRolled.names, settings', Function.update_self, file]
    · exact absurd ((works _).symm.trans isClosed) nofun
  · rw [sameSettings, sameDirectory] at full
    exact absurd full room.not_full

end Runs

/-! ## Whole runs -/

/-- Every run returns, if there are names for as many old files as there are calls.  Each
call of `Logv` writes one line to one file.  A roll takes a name that no file had, and
the new file begins with the headers of all calls before.  What is in a file stays
there, and old files keep their names. -/
theorem history_kept
    (outside : Outside)
    (works : ∀ call, outside.opens call = true)
    (settings : RollSettings)
    (env : PosixEnv)
    (taken : Finset UInt64)
    (covers : ∀ ts,
      env.directory.names (oldInfoLogFileName settings.logPath ts) ≠ none → ts ∈ taken)
    (front : List Op)
    (op : Op)
    (back : List Op)
    (enough : taken.card + (front ++ op :: back).length < 2 ^ 64) :
    ∃ first before after last,
      construct outside settings env = .ok first ∧
      RollsWith outside settings.logPath [] env.directory first.env.directory ∧
      Machine.run (next outside) first front = some before ∧
      before.step outside op = .ok after ∧
      Effect outside settings.logPath (front.flatMap Op.header) before.env.directory
        after.env.directory op ∧
      Machine.run (next outside) after back = some last ∧
      Keeps settings.logPath after.env.directory last.env.directory := by
  rw [List.length_append, List.length_cons] at enough
  have room : Room settings.logPath (front.length + (back.length + 1) + 1) env.directory :=
    ⟨taken, covers, by omega⟩
  obtain ⟨first, constructs, rolls, isSettings, noHeaders, running, roomFront⟩ :=
    construct_running works settings env room
  rw [← isSettings] at roomFront
  obtain ⟨before, runs, -, beforeSettings, headers, runningBefore, roomOp⟩ :=
    running.run works front roomFront
  rw [← beforeSettings] at roomOp
  obtain ⟨after, steps, effect, afterSettings, -, runningAfter, roomBack⟩ :=
    runningBefore.step works roomOp op
  have roomBack : Room after.settings.logPath (back.length + 0) after.env.directory :=
    afterSettings ▸ roomBack
  obtain ⟨last, runsBack, keeps, -⟩ := runningAfter.run works back roomBack
  rw [headers, noHeaders, List.nil_append, beforeSettings, isSettings] at effect
  rw [afterSettings, beforeSettings, isSettings] at keeps
  exact ⟨first, before, after, last, constructs, rolls, runs, steps, effect, runsBack, keeps⟩

/-- A clock that has stopped, and stamps that are left out. -/
def stopped : Outside where
  clock := fun _ => 0
  seconds := fun micros => micros / 1000000
  stamp := fun _ => []
  stamp_le := fun _ => Nat.zero_le _
  opens := fun _ => true

/-- Nothing is there. -/
def noFiles : PosixEnv := ⟨.empty String UInt8, 0, 0⟩

/-- A header, and a message that is so large that the next one rolls. -/
theorem history_kept_stopped :
    (∅ : Finset UInt64).card + [Op.logHeader [104], .logv [105]].length < 2 ^ 64 ∧
    ∃ first before after last,
      construct stopped ⟨"", 1, 0, 0⟩ noFiles = .ok first ∧
      RollsWith stopped "" [] noFiles.directory first.env.directory ∧
      Machine.run (next stopped) first [.logHeader [104]] = some before ∧
      before.step stopped (.logv [105]) = .ok after ∧
      Effect stopped "" [[104]] before.env.directory after.env.directory (.logv [105]) ∧
      Machine.run (next stopped) after [] = some last ∧
      Keeps "" after.env.directory last.env.directory :=
  ⟨by decide, history_kept stopped (fun _ => rfl) ⟨"", 1, 0, 0⟩ noFiles ∅
    (fun _ named => absurd rfl named) [.logHeader [104]] (.logv [105]) [] (by decide)⟩

/-- Files of all names that old files can have, and of no others. -/
noncomputable def allNames (logPath : String) : Directory String UInt8 where
  names := Function.extend (oldInfoLogFileName logPath) (fun _ => some 0) (fun _ => none)
  contents := fun _ => []
  fresh := 1
  created := by
    intro name file named
    by_cases isOld : ∃ ts, oldInfoLogFileName logPath ts = name
    · obtain ⟨ts, rfl⟩ := isOld
      rw [(oldInfoLogFileName_injective logPath).extend_apply, Option.some.injEq] at named
      omega
    · rw [Function.extend_apply' _ _ _ isOld] at named
      exact absurd named nofun

theorem names_allNames (logPath : String) (ts : UInt64) :
    (allNames logPath).names (oldInfoLogFileName logPath ts) = some 0 :=
  (oldInfoLogFileName_injective logPath).extend_apply (fun _ => some 0) (fun _ => none) ts

theorem finite_allNames (logPath : String) :
    {name | (allNames logPath).names name ≠ none}.Finite := by
  refine ((Finset.range (2 ^ 64)).finite_toSet.image fun number =>
    oldInfoLogFileName logPath (UInt64.ofNat number)).subset fun name named => ?_
  by_contra elsewhere
  have other : ¬ ∃ ts, oldInfoLogFileName logPath ts = name := by
    rintro ⟨ts, rfl⟩
    refine elsewhere ⟨ts.toNat, Finset.mem_coe.mpr (Finset.mem_range.mpr ts.toNat_lt), ?_⟩
    exact congrArg (oldInfoLogFileName logPath) UInt64.ofNat_toNat
  exact named (Function.extend_apply' (fun _ => some 0) (fun _ => none) name other)

/-- The constructor does not return where all names are taken. -/
theorem construct_endless
    (outside : Outside)
    (settings : RollSettings)
    {env : PosixEnv}
    (full : Full settings.logPath env.directory) :
    construct outside settings env = .error .endless := by
  obtain ⟨unopened, sameSettings, -, sameDirectory, constructs⟩ :=
    construct_eq outside settings env
  rw [constructs]
  rcases unopened.rollLogFile_spec outside with ⟨ts, rolled, -, free, -⟩ | ⟨endless, -⟩
  · rw [sameSettings, sameDirectory] at free
    exact absurd free (full ts)
  · rw [endless]
    rfl

/-- With these files the search does not end, and a header with a NUL is not written
whole after a roll. -/
theorem search_endless_and_header_cut :
    ({name | (allNames "").names name ≠ none}.Finite ∧
      construct stopped ⟨"", 1, 0, 0⟩ ⟨allNames "", 0, 0⟩ = .error .endless) ∧
    ∃ first last, construct stopped ⟨"", 1, 0, 0⟩ noFiles = .ok first ∧
      Machine.run (next stopped) first [.logHeader [104, 0, 105], .logv [106]] = some last ∧
      last.env.directory.names (infoLogFileName "") = some 1 ∧
      ¬ [104, 0, 105] <+: last.env.directory.contents 1 := by
  constructor
  · refine ⟨finite_allNames "", construct_endless stopped ⟨"", 1, 0, 0⟩ fun ts free => ?_⟩
    exact absurd ((names_allNames "" ts).symm.trans free) nofun
  · have ends : ((construct stopped ⟨"", 1, 0, 0⟩ noFiles).toOption.bind fun first =>
        (Machine.run (next stopped) first [.logHeader [104, 0, 105], .logv [106]]).map
          fun last => (last.env.directory.names (infoLogFileName ""),
            last.env.directory.contents 1)) = some (some 1, [104, 10, 106, 10]) := by
      decide +kernel
    obtain ⟨first, constructs, ends⟩ := Option.bind_eq_some_iff.mp ends
    obtain ⟨last, runs, ends⟩ := Option.map_eq_some_iff.mp ends
    obtain ⟨named, holds⟩ := Prod.mk.inj ends
    refine ⟨first, last, ?_, runs, named, ?_⟩
    · exact toOption_eq_some_iff.mp constructs
    · rw [holds]
      decide

end AutoRollLogger

end RocksUtil
