import RocksUtil.Library.Machine
import RocksUtil.Log.Seeking
import RocksUtil.Log.Termination

/-!
# When the reporter hears of a failed read

`ReadRecord` and `UnmarkEOF` call `Read` and `Skip`, and stop at the first call that
fails.  Whether the reporter hears of that depends on the filter of `ReportDrop`, which
takes the size of the drop off the end of the buffer: for a failed `Read` a whole block,
whatever was delivered, for a failed `Skip` all that was to be skipped, and in `UnmarkEOF`
what was delivered, if there is any (`call_reports`).  Where the filter lets every failure
pass, the reporter hears of all of them, in order (`failures_reported`).
-/

namespace RocksUtil
namespace Log
namespace Reader

variable {φ : Type} {F : SequentialFile φ}

/-! ## Reports of corruption -/

/-- From `before` to `after` the reporter heard of corruption only. -/
def Grumbles (before after : Option (List Report)) : Prop :=
  ∃ own : List Report, (∀ report ∈ own, report.status.code = .corruption) ∧
    after = before.map (· ++ own)

namespace Grumbles

variable {first second third : Option (List Report)}

theorem refl (reporter : Option (List Report)) : Grumbles reporter reporter := by
  refine ⟨[], nofun, ?_⟩
  cases reporter with
  | none => rfl
  | some calls => rw [Option.map_some, List.append_nil]

theorem trans (left : Grumbles first second) (right : Grumbles second third) :
    Grumbles first third := by
  obtain ⟨own, areOwn, rfl⟩ := left
  obtain ⟨later, areLater, rfl⟩ := right
  refine ⟨own ++ later, ?_, ?_⟩
  · intro report member
    rcases List.mem_append.mp member with isOwn | isLater
    · exact areOwn report isOwn
    · exact areLater report isLater
  · cases first with
    | none => rfl
    | some calls => simp

end Grumbles

theorem grumbles_reportCorruption (reader : Reader φ) (bytes : Nat) (reason : String) :
    Grumbles reader.reporter (reader.reportCorruption bytes reason).reporter := by
  unfold reportCorruption reportDrop
  cases reporter : reader.reporter with
  | none =>
      rw [reporter]
      exact .refl none
  | some calls =>
      dsimp only
      split
      · refine ⟨[⟨bytes, .Corruption reason⟩], ?_, rfl⟩
        intro report member
        rw [List.mem_singleton.mp member]
        rfl
      · rw [reporter]
        exact .refl _

/-- The reporter hears of the call, among corruption, if the filter lets it pass. -/
def Told
    (passes : Prop)
    [Decidable passes]
    (call : Report)
    (before after : Option (List Report)) : Prop :=
  ∃ heard, Grumbles before heard ∧
    Grumbles (heard.map (· ++ if passes then [call] else [])) after

theorem Told.congr
    {passes passes' : Prop}
    [Decidable passes]
    [Decidable passes']
    {call : Report}
    {before after : Option (List Report)}
    (told : Told passes call before after)
    (same : passes ↔ passes') : Told passes' call before after := by
  obtain ⟨heard, grumbles, later⟩ := told
  refine ⟨heard, grumbles, ?_⟩
  simpa only [same] using later

theorem Told.grumbles
    {passes : Prop}
    [Decidable passes]
    {call : Report}
    {first second third : Option (List Report)}
    (told : Told passes call first second)
    (grumbles : Grumbles second third) : Told passes call first third := by
  obtain ⟨heard, earlier, later⟩ := told
  exact ⟨heard, earlier, later.trans grumbles⟩

/-- Nothing is heard of the call. -/
theorem Grumbles.told
    {passes : Prop}
    [Decidable passes]
    {before after : Option (List Report)}
    (grumbles : Grumbles before after)
    (silent : ¬passes)
    (call : Report) : Told passes call before after := by
  refine ⟨before, .refl _, ?_⟩
  rw [if_neg silent]
  cases before with
  | none => exact grumbles
  | some calls =>
      rw [Option.map_some, List.append_nil]
      exact grumbles

theorem Told.heard
    {passes : Prop}
    [Decidable passes]
    {call : Report}
    {calls : List Report}
    {after : Option (List Report)}
    (told : Told passes call (some calls) after) :
    ∃ new, after = some (calls ++ new) ∧ (passes → call ∈ new) ∧
      (¬passes → ∀ report ∈ new, report.status.code = .corruption) := by
  obtain ⟨_, ⟨own, areOwn, rfl⟩, later, areLater, rfl⟩ := told
  refine ⟨own ++ ((if passes then [call] else []) ++ later), ?_, ?_, ?_⟩
  · simp
  · intro isPassed
    rw [if_pos isPassed]
    exact List.mem_append_right _ (List.mem_append_left _ (List.mem_singleton_self call))
  · intro silent report member
    rw [if_neg silent, List.nil_append] at member
    rcases List.mem_append.mp member with isOwn | isLater
    · exact areOwn report isOwn
    · exact areLater report isLater

theorem reporter_reportDrop_eq (reader : Reader φ) (bytes : Nat) (reason : Status) :
    (reader.reportDrop bytes reason).reporter = reader.reporter.map (· ++
      if reader.initialOffset ≤ reader.bufferOffset - UInt64.ofNat bytes then
        [⟨bytes, reason⟩]
      else []) := by
  unfold reportDrop
  cases reporter : reader.reporter with
  | none => exact reporter
  | some calls =>
      dsimp only
      split
      · rfl
      · rw [reporter, Option.map_some, List.append_nil]

theorem told_reportDrop
    {start : Option (List Report)}
    {reader : Reader φ}
    (grumbles : Grumbles start reader.reporter)
    (bytes : Nat)
    (reason : Status) :
    Told (reader.initialOffset ≤ reader.bufferOffset - UInt64.ofNat bytes)
      ⟨bytes, reason⟩ start (reader.reportDrop bytes reason).reporter := by
  refine ⟨reader.reporter, grumbles, ?_⟩
  rw [reporter_reportDrop_eq]
  exact .refl _

/-! ## One call of `ReadRecord` -/

section ReadRecord

variable {base initial : UInt64} {before : List Outcome} {start : Option (List Report)}
  {reader : Reader (Watched φ)}

open Outcome (Succeed)

/-- All calls of this `ReadRecord` have succeeded so far; from `base` on it has read what
they delivered. -/
structure Undisturbed
    (base initial : UInt64)
    (before : List Outcome)
    (start : Option (List Report))
    (reader : Reader (Watched φ)) : Prop where
  initialOffset_eq : reader.initialOffset = initial
  grumbles : Grumbles start reader.reporter
  succeed : ∃ good, Succeed good ∧ reader.file.outcomes = before ++ good ∧
    reader.endOfBufferOffset = base + UInt64.ofNat (Outcome.total good)

/-- The last call of `Read` has failed. -/
def Disturbed
    (base initial : UInt64)
    (before : List Outcome)
    (start : Option (List Report))
    (reader : Reader (Watched φ)) : Prop :=
  ∃ good bad, Succeed good ∧ bad.status.ok = false ∧
    reader.file.outcomes = before ++ (good ++ [bad]) ∧
    Told (initial ≤ base + UInt64.ofNat (Outcome.total (good ++ [bad])) - UInt64.ofNat kBlockSize)
      ⟨kBlockSize, bad.status⟩ start reader.reporter

theorem Undisturbed.takes
    (undisturbed : Undisturbed base initial before start reader)
    (buffer : Bytes)
    (recycled : Bool) :
    Undisturbed base initial before start { reader with buffer := buffer, recycled := recycled } :=
  ⟨undisturbed.initialOffset_eq, undisturbed.grumbles, undisturbed.succeed⟩

/-- The reader behind a `Read` of the next block. -/
def fetched (F : SequentialFile φ) (reader : Reader (Watched φ)) : Reader (Watched φ) :=
  let read := F.watched.read kBlockSize reader.file
  { reader with
    file := read.2
    buffer := read.1.2
    endOfBufferOffset := reader.endOfBufferOffset + UInt64.ofNat read.1.2.length }

theorem outcomes_fetched
    (undisturbed : Undisturbed base initial before start reader) :
    let outcome := F.readOutcome kBlockSize reader.file.file
    ∃ good, Succeed good ∧
      (reader.fetched F).file.outcomes = before ++ (good ++ [outcome]) ∧
      (reader.fetched F).endOfBufferOffset =
        base + UInt64.ofNat (Outcome.total (good ++ [outcome])) := by
  obtain ⟨good, succeed, isMet, isEnd⟩ := undisturbed.succeed
  refine ⟨good, succeed, ?_, ?_⟩
  · rw [← List.append_assoc, ← isMet]
    rfl
  · rw [Outcome.total_append, Outcome.total_singleton, UInt64.ofNat_add,
      ← UInt64.add_assoc, ← isEnd]
    rfl

theorem Undisturbed.of_more
    (undisturbed : Undisturbed base initial before start reader)
    {next : Reader (Watched φ)}
    {dropSize : Nat}
    (more : reader.readMore F.watched dropSize = .more next) :
    Undisturbed base initial before start next := by
  obtain ⟨good, succeed, isMet, isEnd⟩ := outcomes_fetched (F := F) undisturbed
  unfold readMore at more
  dsimp only at more
  split at more
  · split at more
    · cases more
    · rename_i succeeds
      rw [Bool.not_eq_true', Bool.not_eq_false] at succeeds
      have isRead : (F.readOutcome kBlockSize reader.file.file).status.ok = true := succeeds
      have all := succeed.append (.singleton isRead)
      split at more
      · cases more
        exact ⟨undisturbed.initialOffset_eq, undisturbed.grumbles, _, all, isMet, isEnd⟩
      · cases more
        exact ⟨undisturbed.initialOffset_eq, undisturbed.grumbles, _, all, isMet, isEnd⟩
  · split at more <;> cases more

theorem Undisturbed.of_stop
    (undisturbed : Undisturbed base initial before start reader)
    {next : Reader (Watched φ)}
    {dropSize error dropped : Nat}
    (stop : reader.readMore F.watched dropSize = .stop error dropped next) :
    Undisturbed base initial before start next ∨
      error = kEof ∧ Disturbed base initial before start next := by
  obtain ⟨good, succeed, isMet, isEnd⟩ := outcomes_fetched (F := F) undisturbed
  have cleared : Undisturbed base initial before start { reader with buffer := [] } :=
    undisturbed.takes [] reader.recycled
  unfold readMore at stop
  dsimp only at stop
  split at stop
  · split at stop
    · rename_i fails
      cases stop
      rw [Bool.not_eq_true'] at fails
      have isLost : (F.readOutcome kBlockSize reader.file.file).status.ok = false := fails
      have told := @told_reportDrop _ _ { reader.fetched F with buffer := [] }
        undisturbed.grumbles kBlockSize (F.watched.read kBlockSize reader.file).1.1
      obtain ⟨reporter, same⟩ := reportDrop_eq { reader.fetched F with buffer := [] }
        kBlockSize (F.watched.read kBlockSize reader.file).1.1
      have isPassed : bufferOffset { reader.fetched F with buffer := [] } =
          (reader.fetched F).endOfBufferOffset := UInt64.sub_zero _
      have sameInitial : (reader.fetched F).initialOffset = initial :=
        undisturbed.initialOffset_eq
      refine .inr ⟨rfl, good, _, succeed, isLost, ?_, ?_⟩
      · change Watched.outcomes (Reader.file (reportDrop { reader.fetched F with
          buffer := [] } _ _)) = _
        rw [same]
        exact isMet
      · refine told.congr ?_
        rw [isPassed, isEnd, ← sameInitial]
    · split at stop <;> cases stop
  · split at stop
    · cases stop
      exact .inl cleared
    · cases stop
      exact .inl cleared

theorem Undisturbed.noteRecycled
    (undisturbed : Undisturbed base initial before start reader) :
    Undisturbed base initial before start reader.noteRecycled :=
  keeps_noteRecycled (fun _ _ _ keeps _ => keeps.takes _ _) undisturbed

theorem Undisturbed.takeRecord
    (undisturbed : Undisturbed base initial before start reader)
    (headerSize type length dropSize : Nat) :
    Undisturbed base initial before start
      (reader.takeRecord headerSize type length dropSize).reader :=
  keeps_takeRecord (fun _ _ _ keeps _ => keeps.takes _ _) undisturbed ..

/-- The first failure ends the log. -/
theorem Undisturbed.readPhysicalRecord
    (undisturbed : Undisturbed base initial before start reader)
    (dropSize : Nat) :
    let physical := reader.readPhysicalRecord F.watched dropSize
    Undisturbed base initial before start physical.reader ∨
      physical.code = kEof ∧ Disturbed base initial before start physical.reader := by
  fun_induction Reader.readPhysicalRecord F.watched reader dropSize with
  | case1 reader short error dropped next more => exact undisturbed.of_stop more
  | case2 reader short next more inductionHypothesis =>
      exact inductionHypothesis (undisturbed.of_more more)
  | case3 =>
      rename_i more
      exact undisturbed.noteRecycled.of_stop more
  | case4 =>
      rename_i more inductionHypothesis
      exact inductionHypothesis (undisturbed.noteRecycled.of_more more)
  | case5 => exact .inl undisturbed.noteRecycled
  | case6 => exact .inl (undisturbed.noteRecycled.takeRecord ..)
  | case7 => exact .inl (undisturbed.takeRecord ..)

theorem Undisturbed.handle
    (mode : WALRecoveryMode)
    (assembly : Assembly (Watched φ))
    (offset : UInt64)
    {physical : PhysicalRead (Watched φ)}
    (undisturbed : Undisturbed base initial before start physical.reader) :
    Undisturbed base initial before start
      (stepReader (handle mode assembly offset physical)) := by
  apply @keeps_handle _ (Undisturbed base initial before start)
  · intro reader bytes reason keeps
    have grumbles := keeps.grumbles.trans (grumbles_reportCorruption reader bytes reason)
    obtain ⟨reporter, same⟩ := reportDrop_eq reader bytes (.Corruption reason)
    rw [reportCorruption, same] at grumbles ⊢
    exact ⟨keeps.initialOffset_eq, grumbles, keeps.succeed⟩
  · intro reader offset keeps
    exact ⟨keeps.initialOffset_eq, keeps.grumbles, keeps.succeed⟩
  · exact undisturbed

theorem Disturbed.handle
    (mode : WALRecoveryMode)
    (assembly : Assembly (Watched φ))
    (offset : UInt64)
    {physical : PhysicalRead (Watched φ)}
    (disturbed : Disturbed base initial before start physical.reader) :
    Disturbed base initial before start
      (stepReader (handle mode assembly offset physical)) := by
  apply @keeps_handle _ (Disturbed base initial before start)
  · intro reader bytes reason keeps
    obtain ⟨good, bad, succeed, fails, isMet, told⟩ := keeps
    have told := told.grumbles (grumbles_reportCorruption reader bytes reason)
    obtain ⟨reporter, same⟩ := reportDrop_eq reader bytes (.Corruption reason)
    rw [reportCorruption, same] at told ⊢
    exact ⟨good, bad, succeed, fails, isMet, told⟩
  · intro reader offset keeps
    exact keeps
  · exact disturbed

theorem Undisturbed.readRecordLoop
    {mode : WALRecoveryMode}
    {fuel : Nat}
    {assembly : Assembly (Watched φ)}
    {result : ReadResult (Watched φ)}
    (undisturbed : Undisturbed base initial before start assembly.reader)
    (returned : readRecordLoop F.watched mode fuel assembly = some result) :
    Undisturbed base initial before start result.reader ∨
      Disturbed base initial before start result.reader := by
  induction fuel generalizing assembly with
  | zero => cases returned
  | succ fuel inductionHypothesis =>
      rw [Reader.readRecordLoop] at returned
      rcases undisturbed.readPhysicalRecord (F := F) 0 with goesOn | ⟨isEof, disturbed⟩
      · have handled := goesOn.handle mode assembly assembly.reader.bufferOffset
        cases step : readRecordStep F.watched mode assembly with
        | inl next =>
            rw [step] at returned
            unfold readRecordStep at step
            rw [step] at handled
            exact inductionHypothesis handled returned
        | inr last =>
            rw [step] at returned
            cases returned
            unfold readRecordStep at step
            rw [step] at handled
            exact .inl handled
      · have handled := disturbed.handle mode assembly assembly.reader.bufferOffset
        cases step : readRecordStep F.watched mode assembly with
        | inl next => exact absurd step (handle_of_end mode assembly next _ (.inl isEof))
        | inr last =>
            rw [step] at returned
            cases returned
            unfold readRecordStep at step
            rw [step] at handled
            exact .inr handled

end ReadRecord

/-! ## Every call -/

/-- A call of the reader. -/
inductive LogCall
  /-- `ReadRecord`. -/
  | readRecord (mode : WALRecoveryMode)
  /-- `UnmarkEOF`. -/
  | unmarkEOF

/-- The reader behind a call, unless `ReadRecord` has not returned within `fuel` physical
records. -/
def call (F : SequentialFile φ) (fuel : Nat) (reader : Reader φ) :
    LogCall → Option (Reader φ)
  | .readRecord mode => (reader.readRecord F mode fuel).map ReadResult.reader
  | .unmarkEOF => some (reader.unmarkEOF F)

/-- What `ReportDrop` compares with the initial offset, where `ReadRecord` has met these
outcomes and the last of them is a failure. -/
def failureOffset (reader : Reader φ) (met : List Outcome) : UInt64 :=
  if reader.lastRecordOffset < reader.initialOffset then
    if 0 < blockStart reader.initialOffset ∧ met.length = 1 then
      -- the failure of `Skip`
      0 - UInt64.ofNat reader.buffer.length
    else blockStart reader.initialOffset + UInt64.ofNat (Outcome.total met) -
      UInt64.ofNat kBlockSize
  else reader.endOfBufferOffset + UInt64.ofNat (Outcome.total met) -
    UInt64.ofNat kBlockSize

/-- The failure of the last of these outcomes is reported. -/
def Reportable (reader : Reader φ) (met : List Outcome) : LogCall → Prop
  | .readRecord _ => reader.initialOffset ≤ reader.failureOffset met
  | .unmarkEOF => 0 < Outcome.total met ∧ reader.initialOffset ≤ reader.bufferOffset

instance (reader : Reader φ) (logCall : LogCall) :
    DecidablePred (fun met => Reportable reader met logCall) := fun _ =>
  match logCall with
  | .readRecord _ => inferInstanceAs (Decidable (_ ≤ _))
  | .unmarkEOF => inferInstanceAs (Decidable (_ ∧ _))

/-- The calls of the file up to here, and what the reporter heard of them: all succeeded,
or the last has failed and the reporter heard of that if the filter lets it pass. -/
def Accounts
    (passes : List Outcome → Prop)
    [DecidablePred passes]
    (before : List Outcome)
    (start : Option (List Report))
    (reader : Reader (Watched φ)) : Prop :=
  ∃ met, reader.file.outcomes = before ++ met ∧
    (Outcome.Succeed met ∧ Grumbles start reader.reporter ∨
      ∃ good bad bytes, met = good ++ [bad] ∧ Outcome.Succeed good ∧
        bad.status.ok = false ∧
        Told (passes met) ⟨bytes, bad.status⟩ start reader.reporter)

section Calls

variable {reader after : Reader (Watched φ)} {before : List Outcome}
  {start : Option (List Report)} {passes passes' : List Outcome → Prop}
  [DecidablePred passes] [DecidablePred passes']

/-- A loop of `ReadRecord` behind `earlier`. -/
theorem Undisturbed.accounts
    {base initial : UInt64}
    {earlier : List Outcome}
    (succeed : Outcome.Succeed earlier)
    {mode : WALRecoveryMode}
    {fuel : Nat}
    {result : ReadResult (Watched φ)}
    (undisturbed : Undisturbed base initial (before ++ earlier) start reader)
    (returned : Reader.readRecordLoop F.watched mode fuel (startAssembly reader) =
      some result)
    (same : ∀ met, met ≠ [] → (passes (earlier ++ met) ↔
      initial ≤ base + UInt64.ofNat (Outcome.total met) - UInt64.ofNat kBlockSize)) :
    Accounts passes before start result.reader := by
  have started : Undisturbed base initial (before ++ earlier) start
      (startAssembly reader).reader := undisturbed
  rcases started.readRecordLoop returned with
    goesOn | ⟨good, bad, succeeds, fails, isMet, told⟩
  · obtain ⟨good, succeeds, isMet, -⟩ := goesOn.succeed
    refine ⟨earlier ++ good, ?_, .inl ⟨succeed.append succeeds, goesOn.grumbles⟩⟩
    rw [isMet, List.append_assoc]
  · refine ⟨earlier ++ (good ++ [bad]), ?_, .inr ⟨earlier ++ good, bad, _, ?_,
      succeed.append succeeds, fails, told.congr ?_⟩⟩
    · rw [isMet, List.append_assoc]
    · rw [List.append_assoc]
    · exact (same _ (List.append_ne_nil_of_right_ne_nil _ (List.cons_ne_nil _ _))).symm

/-- One call has failed. -/
theorem accounts_failure
    {bad : Outcome}
    (fails : bad.status.ok = false)
    (isMet : reader.file.outcomes = before ++ [bad])
    (bytes : Nat)
    (told : Told (passes [bad]) ⟨bytes, bad.status⟩ start reader.reporter) :
    Accounts passes before start reader :=
  ⟨[bad], isMet, .inr ⟨[], bad, bytes, rfl, Outcome.succeed_nil, fails, told⟩⟩

theorem readRecord_accounts
    {mode : WALRecoveryMode}
    {fuel : Nat}
    {result : ReadResult (Watched φ)}
    (returned : reader.readRecord F.watched mode fuel = some result) :
    Accounts (fun met => Reportable reader met (.readRecord mode)) reader.file.outcomes
      reader.reporter result.reader := by
  have located : (if UInt64.ofNat kBlockSize - 6 <
        reader.initialOffset % UInt64.ofNat kBlockSize then
      reader.initialOffset - reader.initialOffset % UInt64.ofNat kBlockSize +
        UInt64.ofNat kBlockSize
    else reader.initialOffset - reader.initialOffset % UInt64.ofNat kBlockSize) =
      blockStart reader.initialOffset := rfl
  unfold readRecord at returned
  by_cases behind : reader.lastRecordOffset < reader.initialOffset
  · simp only [if_pos behind, skipToInitialBlock, located] at returned
    by_cases skips : 0 < blockStart reader.initialOffset
    · simp only [if_pos skips] at returned
      have isSkipped : (F.watched.skip (blockStart reader.initialOffset) reader.file).2.outcomes =
          reader.file.outcomes ++
            [⟨(F.watched.skip (blockStart reader.initialOffset) reader.file).1, 0⟩] := rfl
      generalize F.watched.skip (blockStart reader.initialOffset) reader.file = skip
        at returned isSkipped
      by_cases succeeds : skip.1.ok = true
      · simp only [succeeds, Bool.not_true, Bool.false_eq_true, if_false] at returned
        have undisturbed : Undisturbed (blockStart reader.initialOffset)
            reader.initialOffset (reader.file.outcomes ++ [⟨skip.1, 0⟩]) reader.reporter
            { reader with
              endOfBufferOffset := blockStart reader.initialOffset
              file := skip.2 } := by
          refine ⟨rfl, .refl _, [], Outcome.succeed_nil, ?_, ?_⟩
          · rw [List.append_nil]
            exact isSkipped
          · exact (UInt64.add_zero _).symm
        have isFirst : Outcome.Succeed [⟨skip.1, 0⟩] := .singleton succeeds
        apply undisturbed.accounts isFirst returned
        intro met nonempty
        have more : ([⟨skip.1, 0⟩] ++ met : List Outcome).length ≠ 1 := by
          have positive := List.length_pos_iff.mpr nonempty
          rw [List.length_append, List.length_singleton]
          omega
        unfold Reportable failureOffset
        rw [if_pos behind, if_neg (fun both => more both.2), Outcome.total_append,
          Outcome.total_singleton, Nat.zero_add]
      · simp only [succeeds, Bool.not_false, if_true] at returned
        cases returned
        obtain ⟨reporter, same⟩ := reportDrop_eq { reader with
          endOfBufferOffset := blockStart reader.initialOffset
          file := skip.2 } (blockStart reader.initialOffset).toNat skip.1
        have told := @told_reportDrop _ _ { reader with
          endOfBufferOffset := blockStart reader.initialOffset
          file := skip.2 } (.refl _) (blockStart reader.initialOffset).toNat skip.1
        rw [same] at told ⊢
        have fails : (⟨skip.1, 0⟩ : Outcome).status.ok = false := by
          simpa using succeeds
        refine accounts_failure fails isSkipped _ (told.congr ?_)
        unfold Reportable failureOffset bufferOffset
        rw [if_pos behind, if_pos ⟨skips, rfl⟩, UInt64.ofNat_toNat]
        dsimp only
        have taken : blockStart reader.initialOffset - UInt64.ofNat reader.buffer.length -
            blockStart reader.initialOffset = 0 - UInt64.ofNat reader.buffer.length := by
          grind
        rw [taken]
    · have isZero : blockStart reader.initialOffset = 0 := by
        by_contra nonzero
        exact skips (UInt64.pos_iff_ne_zero.mpr nonzero)
      simp only [if_neg skips, Bool.not_true, Bool.false_eq_true, if_false] at returned
      have undisturbed : Undisturbed (blockStart reader.initialOffset)
          reader.initialOffset (reader.file.outcomes ++ []) reader.reporter
          { reader with endOfBufferOffset := blockStart reader.initialOffset } := by
        refine ⟨rfl, .refl _, [], Outcome.succeed_nil, ?_, ?_⟩
        · rw [List.append_nil, List.append_nil]
        · exact (UInt64.add_zero _).symm
      apply undisturbed.accounts Outcome.succeed_nil returned
      intro met _
      unfold Reportable failureOffset
      rw [if_pos behind, if_neg (fun both => skips both.1), List.nil_append]
  · rw [if_neg behind] at returned
    have undisturbed : Undisturbed reader.endOfBufferOffset reader.initialOffset
        (reader.file.outcomes ++ []) reader.reporter reader := by
      refine ⟨rfl, .refl _, [], Outcome.succeed_nil, ?_, ?_⟩
      · rw [List.append_nil, List.append_nil]
      · exact (UInt64.add_zero _).symm
    apply undisturbed.accounts Outcome.succeed_nil returned
    intro met _
    unfold Reportable failureOffset
    rw [if_neg behind, List.nil_append]

/-- A `Read` of `UnmarkEOF`. -/
theorem unmarkEOF_accounts (reader : Reader (Watched φ)) :
    Accounts (fun met => Reportable reader met .unmarkEOF) reader.file.outcomes
      reader.reporter (reader.unmarkEOF F.watched) := by
  have nothing : reader.file.outcomes = reader.file.outcomes ++ [] :=
    (List.append_nil _).symm
  unfold unmarkEOF
  split
  · exact ⟨[], nothing, .inl ⟨Outcome.succeed_nil, .refl _⟩⟩
  · dsimp only
    split
    · exact ⟨[], nothing, .inl ⟨Outcome.succeed_nil, .refl _⟩⟩
    · have isRead : (F.watched.read (kBlockSize - reader.eofOffset) reader.file).2.outcomes =
          reader.file.outcomes ++ [⟨
            (F.watched.read (kBlockSize - reader.eofOffset) reader.file).1.1,
            (F.watched.read (kBlockSize - reader.eofOffset) reader.file).1.2.length⟩] := rfl
      generalize F.watched.read (kBlockSize - reader.eofOffset) reader.file = read
        at isRead
      by_cases succeeds : read.1.1.ok = true
      · simp only [succeeds, Bool.not_true, Bool.false_eq_true, if_false]
        refine ⟨[⟨read.1.1, read.1.2.length⟩], ?_, .inl ⟨.singleton succeeds, ?_⟩⟩
        · split <;> exact isRead
        · split <;> exact .refl _
      · simp only [succeeds, Bool.not_false, if_true]
        have fails : (⟨read.1.1, read.1.2.length⟩ : Outcome).status.ok = false := by
          simpa using succeeds
        by_cases some : 0 < read.1.2.length
        · rw [if_pos some]
          obtain ⟨reporter, same⟩ := reportDrop_eq { reader with
            eof := false
            file := read.2
            endOfBufferOffset := reader.endOfBufferOffset + UInt64.ofNat read.1.2.length }
            read.1.2.length read.1.1
          have told := @told_reportDrop _ _ { reader with
            eof := false
            file := read.2
            endOfBufferOffset := reader.endOfBufferOffset + UInt64.ofNat read.1.2.length }
            (.refl _) read.1.2.length read.1.1
          rw [same] at told ⊢
          refine accounts_failure fails isRead _ (told.congr ?_)
          have taken : reader.endOfBufferOffset + UInt64.ofNat read.1.2.length -
              UInt64.ofNat reader.buffer.length - UInt64.ofNat read.1.2.length =
                reader.endOfBufferOffset - UInt64.ofNat reader.buffer.length := by
            grind
          unfold Reportable bufferOffset
          rw [Outcome.total_singleton]
          dsimp only
          rw [taken]
          exact ⟨fun passes => ⟨some, passes⟩, And.right⟩
        · rw [if_neg some]
          refine accounts_failure fails isRead 0 (Grumbles.told (.refl _) ?_ _)
          intro passes
          rw [Reportable, Outcome.total_singleton] at passes
          exact some passes.1

theorem call_accounts
    {fuel : Nat}
    {logCall : LogCall}
    (called : call F.watched fuel reader logCall = some after) :
    Accounts (fun met => Reportable reader met logCall) reader.file.outcomes
      reader.reporter after := by
  cases logCall with
  | readRecord mode =>
      obtain ⟨result, returned, rfl⟩ := Option.map_eq_some_iff.mp called
      exact readRecord_accounts returned
  | unmarkEOF =>
      cases called
      exact unmarkEOF_accounts reader

/-- The reporter hears of the failure of a call, with a status that is not one of its own
reports of corruption, if and only if the filter lets it pass. -/
theorem call_reports_iff
    {fuel : Nat}
    {logCall : LogCall}
    (called : call F.watched fuel reader logCall = some after)
    {calls : List Report}
    (heard : reader.reporter = some calls)
    {good : List Outcome}
    {bad : Outcome}
    (isMet : after.file.outcomes = reader.file.outcomes ++ (good ++ [bad]))
    (fails : bad.status.ok = false)
    (notOwn : bad.status.code ≠ .corruption) :
    ∃ new, after.reporter = some (calls ++ new) ∧
      (bad.status ∈ new.map Report.status ↔ Reportable reader (good ++ [bad]) logCall) := by
  obtain ⟨met, isMet', how⟩ := call_accounts called
  obtain rfl : good ++ [bad] = met := List.append_cancel_left (isMet.symm.trans isMet')
  rcases how with ⟨succeed, -⟩ | ⟨_, _, bytes, same, -, -, told⟩
  · have succeeds := succeed bad (List.mem_append_right _ (List.mem_singleton_self bad))
    rw [fails] at succeeds
    cases succeeds
  · obtain ⟨rfl, isBad⟩ := List.append_inj' same rfl
    cases isBad
    rw [heard] at told
    obtain ⟨new, reporter, passes, silent⟩ := told.heard
    refine ⟨new, reporter, ?_, fun reportable => List.mem_map_of_mem (passes reportable)⟩
    intro member
    obtain ⟨report, isNew, isStatus⟩ := List.mem_map.mp member
    by_contra unreportable
    exact notOwn (isStatus ▸ silent unreportable report isNew)

/-! ## Every run -/

/-- Every failure is one that the filter lets pass. -/
def Careful
    (F : SequentialFile φ)
    (fuel : Nat)
    (reader : Reader (Watched φ))
    (logCall : LogCall) : Prop :=
  ∀ after met, call F.watched fuel reader logCall = some after →
    after.file.outcomes = reader.file.outcomes ++ met → ¬Outcome.Succeed met →
      Reportable reader met logCall

/-- The reporter has heard of all failures, in order. -/
def Heard (reader : Reader (Watched φ)) : Prop :=
  ∃ reports, reader.reporter = some reports ∧
    (Outcome.failures reader.file.outcomes).Sublist (reports.map Report.status)

theorem Heard.call
    {fuel : Nat}
    {logCall : LogCall}
    (heard : Heard reader)
    (careful : Careful F fuel reader logCall)
    (called : call F.watched fuel reader logCall = some after) : Heard after := by
  obtain ⟨reports, reporter, inOrder⟩ := heard
  obtain ⟨met, isMet, how⟩ := call_accounts called
  have passes := careful after met called isMet
  rcases how with ⟨succeed, own, -, isAfter⟩ | ⟨good, bad, bytes, rfl, succeed, fails, told⟩
  · rw [reporter, Option.map_some] at isAfter
    refine ⟨_, isAfter, ?_⟩
    rw [isMet, Outcome.failures_append, succeed.failures_eq, List.append_nil,
      List.map_append]
    exact inOrder.trans (List.sublist_append_left ..)
  · have unsuccessful : ¬Outcome.Succeed (good ++ [bad]) := by
      intro succeeds
      have isOk := succeeds bad (List.mem_append_right _ (List.mem_singleton_self bad))
      rw [fails] at isOk
      cases isOk
    rw [reporter] at told
    obtain ⟨new, isAfter, told, -⟩ := told.heard
    refine ⟨_, isAfter, ?_⟩
    rw [isMet, Outcome.failures_append, Outcome.failures_append, succeed.failures_eq,
      List.nil_append, Outcome.failures_singleton fails, List.map_append]
    apply inOrder.append
    rw [List.singleton_sublist]
    exact List.mem_map_of_mem (told (passes unsuccessful))

end Calls

/-- In every run of calls over any file, from the construction of the reader on, the
reporter has heard of all failures of `Read` and `Skip` when the call that met them
returns, if the filter lets each of them pass. -/
theorem failures_reported
    {fuel : Nat}
    (file : φ)
    (checksum : Bool)
    (initialOffset logNumber : UInt64)
    {calls : List LogCall}
    {final : Reader (Watched φ)}
    (runs : Machine.run (call F.watched fuel)
      (new ⟨file, []⟩ (some []) checksum initialOffset logNumber) calls = some final)
    (careful : Machine.Along (Careful F fuel) (call F.watched fuel)
      (new ⟨file, []⟩ (some []) checksum initialOffset logNumber) calls) :
    ∃ reports, final.reporter = some reports ∧
      (Outcome.failures final.file.outcomes).Sublist (reports.map Report.status) := by
  have start : Heard (new ⟨file, []⟩ (some []) checksum initialOffset logNumber) :=
    ⟨[], rfl, List.Sublist.refl _⟩
  exact Machine.run_preserves_along Heard
    (fun heard careful called => heard.call careful called) runs careful start

/-- A file that cannot be read. -/
def unreadable : FailingFile := ⟨[], 0, [some ⟨.IOError "disk", 0, rfl⟩]⟩

/-- A failure of `Skip` is not reported. -/
theorem skip_unreported :
    (Machine.run (call FailingFile.sequentialFile.watched 1)
        (new ⟨unreadable, []⟩ (some []) true 40000 7)
        [.readRecord .absoluteConsistency]).map
      (fun final => (Outcome.failures final.file.outcomes, final.reporter)) =
      some ([.IOError "disk"], some []) := by
  decide +kernel

theorem failures_reported_fromStart :
    ∃ final reports, Machine.run (call FailingFile.sequentialFile.watched 1)
        (new ⟨unreadable, []⟩ (some []) true 0 7) [.readRecord .absoluteConsistency] =
          some final ∧
      final.reporter = some reports ∧
      [Status.IOError "disk"].Sublist (reports.map Report.status) := by
  have met : (Machine.run (call FailingFile.sequentialFile.watched 1)
      (new ⟨unreadable, []⟩ (some []) true 0 7) [.readRecord .absoluteConsistency]).map
        (fun final => Outcome.failures final.file.outcomes) = some [.IOError "disk"] := by
    decide +kernel
  obtain ⟨final, runs, isMet⟩ := Option.map_eq_some_iff.mp met
  have careful : Machine.Along (Careful FailingFile.sequentialFile 1)
      (call FailingFile.sequentialFile.watched 1)
      (new ⟨unreadable, []⟩ (some []) true 0 7) [.readRecord .absoluteConsistency] :=
    ⟨fun _ _ _ _ _ => UInt64.zero_le, fun _ _ => trivial⟩
  obtain ⟨reports, heard, inOrder⟩ := failures_reported unreadable true 0 7 runs careful
  rw [isMet] at inOrder
  exact ⟨final, reports, runs, heard, inOrder⟩

end Reader
end Log
end RocksUtil
