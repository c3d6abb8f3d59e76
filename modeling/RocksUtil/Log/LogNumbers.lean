import RocksUtil.Log.Recycling
import RocksUtil.Log.ZeroSuffix

/-!
# Log numbers of the two sides

The writer stores the low 32 bits of its log number, and the reader compares them
with all 64 bits of its own.
-/

namespace RocksUtil
namespace Log
namespace Reader

section Numbers

variable {format : Format} {records : List Bytes} {written : Bytes}

/-- None of the records of another log is returned. -/
theorem readRecords_other
    (recycle : format.recycle = true)
    (log : written = format.logBytes 0 records)
    {number : UInt64}
    (other : format.logNumber.toUInt32.toUInt64 ≠ number) :
    ∃ final enough, ∀ fuel, enough ≤ fuel →
      (Reader.new (GrowingFile.atRest written) (some []) true 0
        number).readRecords GrowingFile.sequentialFile
          .tolerateCorruptedTailRecords fuel = some ([], final) := by
  -- What the reader stands in front of does not matter, as it reads nothing of it.
  have standing := standing_new ⟨false, 0⟩ written (some []) number nofun
  have old := startsOld_logBytes recycle other records 0
  rw [Nat.zero_mul, List.drop_zero, ← log] at old
  have behind : Behind ⟨false, 0⟩ (Reader.new (GrowingFile.atRest written) (some [])
      true 0 number) kBlockSize written := by
    rw [Behind, Nat.sub_self, List.drop_zero, Nat.min_eq_left (Nat.le_add_right _ _)]
    exact standing
  obtain ⟨final, reads, -⟩ := @Behind.stops
    (startAssembly (Reader.new (GrowingFile.atRest written) (some []) true 0 number))
    _ ⟨false, 0⟩ kBlockSize written (Sees.refl _) behind (Nat.le_refl _)
    (by rw [Nat.sub_self]; exact old) rfl
  exact ⟨final, reads.readRecords rfl⟩

/-- All records of the reader's own log are returned. -/
theorem readRecords_own
    (log : written = format.logBytes 0 records)
    {number : UInt64}
    (own : format.logNumber.toUInt32.toUInt64 = number) :
    ∃ final enough, ∀ fuel, enough ≤ fuel →
      (Reader.new (GrowingFile.atRest written) (some []) true 0
        number).readRecords GrowingFile.sequentialFile
          .tolerateCorruptedTailRecords fuel = some (records, final) := by
  obtain ⟨final, reads, -⟩ := readRecords_zeroSuffix
    (show WALRecoveryMode.tolerateCorruptedTailRecords ≠ .absoluteConsistency by
      decide) log 0 true number (fun _ => own)
  rw [List.replicate_zero, List.append_nil] at reads
  exact ⟨final, reads⟩

theorem toUInt32_toUInt64_eq_iff (first second : UInt64) :
    first.toUInt32.toUInt64 = second ↔
      second.toNat < 2 ^ 32 ∧ first.toNat % 2 ^ 32 = second.toNat % 2 ^ 32 := by
  rw [← UInt64.toNat_inj, UInt32.toNat_toUInt64, UInt64.toNat_toUInt32]
  have bound : first.toNat % 2 ^ 32 < 2 ^ 32 := Nat.mod_lt _ (by decide)
  constructor
  · intro same
    rw [← same]
    exact ⟨bound, (Nat.mod_mod _ _).symm⟩
  · rintro ⟨small, congruent⟩
    rw [congruent, Nat.mod_eq_of_lt small]

end Numbers

section Modes

variable {δ : Type} {D : Destination δ} {contents : δ → Bytes} {dest : δ}

/-- The two sides agree on log numbers modulo `2 ^ 32` exactly if the reader's own
number is below `2 ^ 32`, the numbers differ, or nothing was written. -/
theorem logNumbers_agree_iff
    (succeeds : D.Succeeds contents)
    (fresh : contents dest = [])
    (writerNumber readerNumber : UInt64)
    (records : List Bytes) :
    let written := contents ((Writer.new dest writerNumber true).addRecords D
      records).dest
    let returns (returned : List Bytes) := ∃ final enough, ∀ fuel, enough ≤ fuel →
      (Reader.new (GrowingFile.atRest written) (some []) true 0
        readerNumber).readRecords GrowingFile.sequentialFile
          .tolerateCorruptedTailRecords fuel = some (returned, final)
    let agree := writerNumber.toNat % 2 ^ 32 = readerNumber.toNat % 2 ^ 32
    ((agree → returns records) ∧ (¬agree → returns [])) ↔
      readerNumber.toNat < 2 ^ 32 ∨ ¬agree ∨ records = [] := by
  intro written returns agree
  have log : written = Format.logBytes ⟨true, writerNumber⟩ 0 records :=
    Writer.contents_addRecords_new succeeds fresh true writerNumber records
  have same := toUInt32_toUInt64_eq_iff writerNumber readerNumber
  have own (isOwn : writerNumber.toUInt32.toUInt64 = readerNumber) :
      returns records := readRecords_own log isOwn
  have other (isOther : writerNumber.toUInt32.toUInt64 ≠ readerNumber) :
      returns [] := @readRecords_other ⟨true, writerNumber⟩ _ _ rfl log _ isOther
  constructor
  · rintro ⟨ifAgree, -⟩
    by_contra neither
    rw [not_or, not_or, not_not] at neither
    obtain ⟨large, isAgree, nonempty⟩ := neither
    obtain ⟨final, enough, reads⟩ := ifAgree isAgree
    obtain ⟨final', enough', reads'⟩ := other (fun isOwn => large (same.mp isOwn).1)
    have both := (reads (max enough enough') (Nat.le_max_left _ _)).symm.trans
      (reads' (max enough enough') (Nat.le_max_right _ _))
    rw [Option.some.injEq, Prod.mk.injEq] at both
    exact nonempty both.1
  · intro either
    refine ⟨fun isAgree => ?_, fun differ => ?_⟩
    · by_cases small : readerNumber.toNat < 2 ^ 32
      · exact own (same.mpr ⟨small, isAgree⟩)
      · have nothing : records = [] := by
          rcases either with small' | differ | nothing
          · exact absurd small' small
          · exact absurd isAgree differ
          · exact nothing
        rw [nothing]
        exact other (fun isOwn => small (same.mp isOwn).1)
    · exact other (fun isOwn => differ (same.mp isOwn).2)

theorem logNumbers_agree_small :
    ∃ final enough, ∀ fuel, enough ≤ fuel →
      (Reader.new (GrowingFile.atRest (recyclableLog (2 ^ 32 + 7) [[1]])) (some [])
        true 0 7).readRecords GrowingFile.sequentialFile
          .tolerateCorruptedTailRecords fuel = some ([[1]], final) :=
  ((logNumbers_agree_iff Destination.memory_succeeds (rfl : id ([] : Bytes) = [])
    (2 ^ 32 + 7) 7 [[1]]).mpr (.inl (by decide))).1 (by decide)

/-- A reader opened with the writer's own number finds nothing. -/
theorem own_log_not_read :
    ∃ final enough, ∀ fuel, enough ≤ fuel →
      (Reader.new (GrowingFile.atRest (recyclableLog (2 ^ 32) [[1]])) (some [])
        true 0 (2 ^ 32)).readRecords GrowingFile.sequentialFile
          .tolerateCorruptedTailRecords fuel = some ([], final) :=
  @readRecords_other ⟨true, 2 ^ 32⟩ [[1]] _ rfl
    (Writer.contents_addRecords_new Destination.memory_succeeds rfl true (2 ^ 32)
      [[1]]) (2 ^ 32) (by decide)

end Modes

end Reader
end Log
end RocksUtil
