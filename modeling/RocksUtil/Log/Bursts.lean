import RocksUtil.Crc32c.Implementations
import RocksUtil.Log.Outcomes

/-!
# Bursts in a payload

A physical record whose header was kept while its payload was changed, in four bytes
in a row at most.  A reader that checks checksums never hands such a payload out,
whichever header it stands behind.
-/

namespace RocksUtil
namespace Log

open Coding

namespace Reader

/-- A complete header, of either format, that belongs to this payload. -/
structure HeaderOf (header payload : Bytes) : Prop where
  length_header : header.length = headerSize (isRecyclableType (headerType header))
  length_payload : headerLength header = payload.length
  matching : crcMatches (header ++ payload) header.length payload.length = true

/-- The writer puts such a header in front of every payload. -/
theorem headerOf_formatHeader
    (logNumber : UInt64)
    (t : RecordType)
    {payload : Bytes}
    (small : payload.length < 65536) :
    HeaderOf (Writer.formatHeader logNumber t payload) payload := by
  have size := Writer.length_formatHeader logNumber t payload
  have type : headerType (Writer.formatHeader logNumber t payload) = t.code := by
    rw [Writer.formatHeader_eq, headerType_headerStart]
  refine ⟨?_, ?_, ?_⟩
  · rw [size, type, isRecyclableType_code]
  · rw [Writer.formatHeader_eq, headerLength_headerStart _ _ _ _ small]
  · have matching := crcMatches_formatHeader logNumber t payload []
    rw [List.append_nil] at matching
    rw [size, matching]

section Payloads

variable {header left right : Bytes}

theorem HeaderOf.enough (headed : HeaderOf header left) :
    kHeaderSize ≤ header.length := by
  rw [headed.length_header, headerSize, kHeaderSize_eq, kRecyclableHeaderSize_eq]
  split <;> decide

/-- The checksum in the header does not match a payload changed by a short burst. -/
theorem HeaderOf.mismatch
    (headed : HeaderOf header left)
    (differ : Crc32c.DifferWithin 4 left right) :
    crcMatches (header ++ right) header.length right.length = false := by
  have enough := headed.enough
  rw [kHeaderSize_eq] at enough
  have covered (payload : Bytes) :
      ((header ++ payload).drop 6).take (payload.length + header.length - 6) =
        header.drop 6 ++ payload := by
    rw [List.drop_append_of_le_length (by omega)]
    apply List.take_of_length_le
    rw [List.length_append, List.length_drop]
    omega
  have stored := headed.matching
  rw [crcMatches, beq_iff_eq, covered, decodeFixed32_append _ (by omega)] at stored
  rw [crcMatches, beq_eq_false_iff_ne, covered, decodeFixed32_append _ (by omega),
    ← stored]
  exact ((differ.append_left (header.drop 6)).extendImpl_ne 0 0 0).symm

theorem length_pos_of_differ
    {width : Nat}
    (differ : Crc32c.DifferWithin width left right) :
    0 < right.length := by
  rw [List.length_pos_iff]
  intro empty
  have same := differ.length_eq
  rw [empty, List.length_nil, List.length_eq_zero_iff] at same
  exact differ.ne (same.trans empty.symm)

variable {φ : Type} {behind : Bytes}

theorem HeaderOf.takeRecord
    (headed : HeaderOf header left)
    (reader : Reader φ)
    (differ : Crc32c.DifferWithin 4 left right)
    (checked : reader.checksum = true)
    (buffered : reader.buffer = header ++ right ++ behind)
    (type dropSize : Nat) :
    reader.takeRecord header.length type right.length dropSize =
      ⟨kBadRecordChecksum, [], reader.buffer.length, { reader with buffer := [] }⟩ := by
  have nonempty := length_pos_of_differ differ
  have enough := headed.enough
  have whole : header.length + right.length ≤ (header ++ right).length := by
    rw [List.length_append]
  have mismatch : crcMatches reader.buffer header.length right.length = false := by
    rw [buffered, crcMatches_append behind (by omega) whole]
    exact headed.mismatch differ
  have fits : ¬reader.buffer.length < header.length + right.length := by
    rw [buffered, List.length_append]
    omega
  rw [Reader.takeRecord]
  dsimp only
  rw [if_neg fits, if_neg (by omega), if_pos (by simp [checked, mismatch])]

/-- Such a record is dropped: as one of another log if its log number is not the
reader's, else because of its checksum. -/
theorem HeaderOf.readPhysicalRecord
    {F : SequentialFile φ}
    {reader : Reader φ}
    (headed : HeaderOf header left)
    (differ : Crc32c.DifferWithin 4 left right)
    (checked : reader.checksum = true)
    (buffered : reader.buffer = header ++ right ++ behind)
    (dropSize : Nat) :
    (reader.readPhysicalRecord F dropSize).fragment = [] ∧
      (reader.readPhysicalRecord F dropSize).code =
        if isRecyclableType (headerType header) = true ∧
            (decodeFixed32 (header.drop 7)).toUInt64 ≠ reader.logNumber then
          kOldRecord
        else kBadRecordChecksum := by
  have enough := headed.enough
  have size := headed.length_header
  have inBuffer : header.length ≤ reader.buffer.length := by
    rw [buffered, List.length_append, List.length_append]
    omega
  have type : headerType reader.buffer = headerType header := by
    rw [buffered, List.append_assoc, headerType_append _ enough]
  have length : headerLength reader.buffer = right.length := by
    rw [buffered, List.append_assoc, headerLength_append _ enough,
      headed.length_payload, differ.length_eq]
  cases recyclable : isRecyclableType (headerType header) with
  | false =>
      rw [recyclable, headerSize, if_neg Bool.false_ne_true] at size
      rw [readPhysicalRecord_of_legacy (by omega) (by rw [type, recyclable]), type, length,
        ← size, headed.takeRecord reader differ checked buffered]
      simp
  | true =>
      rw [recyclable, headerSize, if_pos rfl] at size
      have number : decodeFixed32 (reader.buffer.drop 7) =
          decodeFixed32 (header.drop 7) := by
        rw [kRecyclableHeaderSize_eq] at size
        rw [buffered, List.append_assoc, List.drop_append_of_le_length (by omega),
          decodeFixed32_append _ (by rw [List.length_drop]; omega)]
      obtain ⟨recycled, noted⟩ := noteRecycled_eq reader
      rw [readPhysicalRecord_of_recyclable (by omega) (by rw [type, recyclable]), number,
        noted, type, length, ← size]
      by_cases other : (decodeFixed32 (header.drop 7)).toUInt64 = reader.logNumber
      · rw [if_neg (not_not.mpr other), if_neg (fun both => both.2 other),
          headed.takeRecord { reader with recycled := recycled } differ checked buffered]
        exact ⟨rfl, rfl⟩
      · rw [if_pos other, if_pos ⟨rfl, other⟩]
        exact ⟨rfl, rfl⟩

end Payloads

/-- Two strings of one length that differ, and within four bytes in a row only, have
different checksums in every implementation, whichever checksum they continue; a reader
that checks checksums returns no payload changed so behind its own header. -/
theorem burst_detected
    {left right : Bytes}
    (differ : Crc32c.DifferWithin 4 left right) :
    (∀ crc, Crc32c.extend crc left ≠ Crc32c.extend crc right) ∧
    (∀ here there crc,
      Crc32c.extendImplOf Crc32c.slowCrc32Wide here crc left ≠
        Crc32c.extendImplOf Crc32c.slowCrc32Wide there crc right) ∧
    (∀ mmCrc32U64 mmCrc32U32, Crc32c.AdvancesU64 mmCrc32U64 →
      Crc32c.AdvancesU32 mmCrc32U32 → ∀ target here there crc,
        Crc32c.extendImplOf (Crc32c.fastCrc32 mmCrc32U64 mmCrc32U32 target) here crc left ≠
          Crc32c.extendImplOf (Crc32c.fastCrc32 mmCrc32U64 mmCrc32U32 target) there crc
            right) ∧
    ∀ (φ : Type) (F : SequentialFile φ) (reader : Reader φ) (header behind : Bytes)
      (dropSize : Nat),
      HeaderOf header left → reader.checksum = true →
      reader.buffer = header ++ right ++ behind →
        (reader.readPhysicalRecord F dropSize).fragment = [] ∧
          (reader.readPhysicalRecord F dropSize).code =
            if isRecyclableType (headerType header) = true ∧
                (decodeFixed32 (header.drop 7)).toUInt64 ≠ reader.logNumber then
              kOldRecord
            else kBadRecordChecksum := by
  refine ⟨fun crc => differ.extendImpl_ne 0 0 crc,
    Crc32c.slowCrc32Wide_takesEight.ne differ, ?_, ?_⟩
  · intro mmCrc32U64 mmCrc32U32 advancesU64 advancesU32 target
    exact (Crc32c.fastCrc32_takesEight advancesU64 advancesU32 target).ne differ
  · intro φ F reader header behind dropSize headed checked buffered
    exact headed.readPhysicalRecord differ checked buffered dropSize

/-- Two bytes of a payload of a record of the recyclable format are exchanged. -/
theorem burst_detected_exchange :
    let header := Writer.formatHeader 7 .recyclableFull [1, 2, 3, 4, 5]
    let file : GrowingFile := GrowingFile.atRest []
    let reader := { Reader.new file (some []) true 0 7 with
      buffer := header ++ [1, 2, 4, 3, 5] ++ [9] }
    Crc32c.extend 3 [1, 2, 3, 4, 5] ≠ Crc32c.extend 3 [1, 2, 4, 3, 5] ∧
      (reader.readPhysicalRecord GrowingFile.sequentialFile 0).code =
        kBadRecordChecksum := by
  intro header file reader
  have differ : Crc32c.DifferWithin 4 [1, 2, 3, 4, 5] [1, 2, 4, 3, 5] := by
    refine ⟨rfl, by decide, 1, fun index different => ?_⟩
    by_contra outside
    rcases Nat.lt_or_ge index 5 with inside | beyond
    · interval_cases index <;> simp_all
    · simp [beyond] at different
  obtain ⟨checksums, -, -, read⟩ := burst_detected differ
  refine ⟨checksums 3, ?_⟩
  have headed : HeaderOf header [1, 2, 3, 4, 5] := headerOf_formatHeader 7 _ (by decide)
  rw [(read _ GrowingFile.sequentialFile reader header [9] 0 headed rfl rfl).2]
  decide +kernel

end Reader

end Log
end RocksUtil
