import RocksUtil.Log.Assembling

/-!
# Physical records of unknown type

The type of a physical record and the codes of the reader itself share one `switch`.  A
complete physical record with a type byte above `kMaxRecordType` is reported as an unknown
record type and dropped, unless its byte is one of `kEof` to `kBadRecordChecksum`: then
the record is taken for what that code stands for (`unknownType_reported_iff`).
-/

namespace RocksUtil
namespace Log
namespace Reader

variable {φ : Type} {F : SequentialFile φ}

/-- Before it parses the header of a physical record that is there completely,
`ReadPhysicalRecord` goes from the reader to the reader `there`: it drops the end of a
block that is too short for a header, and reads the next one. -/
inductive Arrives (F : SequentialFile φ) : Reader φ → Reader φ → Prop
  | here (reader : Reader φ) : Arrives F reader reader
  | trailer {reader next there : Reader φ}
      (short : reader.buffer.length < kHeaderSize)
      (more : reader.readMore F 0 = .more next)
      (arrives : Arrives F next there) : Arrives F reader there
  | recyclableTrailer {reader next there : Reader φ}
      (enough : kHeaderSize ≤ reader.buffer.length)
      (recyclable : isRecyclableType (headerType reader.buffer) = true)
      (short : reader.buffer.length < kRecyclableHeaderSize)
      (more : reader.noteRecycled.readMore F 0 = .more next)
      (arrives : Arrives F next there) : Arrives F reader there

/-- Reading a block keeps the settings of the reader. -/
theorem settings_readMore
    {reader next : Reader φ}
    {dropSize : Nat}
    (more : reader.readMore F dropSize = .more next) :
    next.reporter = reader.reporter ∧ next.initialOffset = reader.initialOffset := by
  unfold readMore at more
  dsimp only at more
  split at more
  · split at more
    · cases more
    · split at more <;>
      · cases more
        exact ⟨rfl, rfl⟩
  · split at more <;> cases more

namespace Arrives

variable {reader there : Reader φ}

theorem readPhysicalRecord_eq (arrives : Arrives F reader there) :
    reader.readPhysicalRecord F 0 = there.readPhysicalRecord F 0 := by
  induction arrives with
  | here => rfl
  | trailer short more _ inductionHypothesis =>
      exact (readPhysicalRecord_of_more short more).trans inductionHypothesis
  | recyclableTrailer enough recyclable short more _ inductionHypothesis =>
      exact (readPhysicalRecord_of_recyclable_more enough recyclable short more).trans
        inductionHypothesis

theorem settings (arrives : Arrives F reader there) :
    there.reporter = reader.reporter ∧ there.initialOffset = reader.initialOffset := by
  induction arrives with
  | here => exact ⟨rfl, rfl⟩
  | trailer _ more _ inductionHypothesis =>
      have kept := settings_readMore more
      exact ⟨inductionHypothesis.1.trans kept.1, inductionHypothesis.2.trans kept.2⟩
  | @recyclableTrailer reader _ _ _ _ _ more _ inductionHypothesis =>
      have kept := settings_readMore more
      obtain ⟨recycled, noted⟩ := noteRecycled_eq reader
      rw [noted] at kept
      exact ⟨inductionHypothesis.1.trans kept.1, inductionHypothesis.2.trans kept.2⟩

end Arrives

/-! ## The type byte -/

/-- The type byte of a header. -/
def typeByte (header : Bytes) : UInt8 := header.getD 6 0

/-- The codes of the reader itself are those from `kEof` to `kBadRecordChecksum`. -/
def IsOwnCode (code : Nat) : Prop := kEof ≤ code ∧ code ≤ kBadRecordChecksum

theorem isOwnCode_charToUnsigned (byte : UInt8) :
    IsOwnCode (charToUnsigned byte) ↔ IsOwnCode byte.toNat := by
  have bound := byte.toNat_lt
  unfold IsOwnCode charToUnsigned kEof kBadRecordChecksum kMaxRecordType
  split <;> omega

theorem lt_charToUnsigned {byte : UInt8} (unknown : kMaxRecordType < byte.toNat) :
    kMaxRecordType < charToUnsigned byte := by
  unfold charToUnsigned kMaxRecordType at *
  split <;> omega

/-- The reason given for a record of unknown type. -/
def unknownRecordType (code : Nat) : String := "unknown record type " ++ toString code

theorem ne_unknownRecordType
    {reason : String}
    (different : reason.toList.head? ≠ some 'u')
    (code : Nat) : reason ≠ unknownRecordType code := by
  have first : "unknown record type ".toList.head? = some 'u' := by decide
  rintro rfl
  unfold unknownRecordType at different
  generalize toString code = digits at different
  rw [String.toList_append, List.head?_append, first, Option.some_or] at different
  exact different rfl

/-- What the loop of `ReadRecord` is to do about a physical record of unknown type at the
start of the buffer of `there`: report it, with the pending part of a record, drop both,
and go on behind it. -/
def Assembly.behindUnknown
    (assembly : Assembly φ)
    (there : Reader φ)
    (calls : List Report) : Assembly φ :=
  let length := headerLength there.buffer
  let pending := if assembly.inFragmentedRecord then assembly.scratch.length else 0
  { assembly with
    reader := { there with
      buffer := there.buffer.drop (kHeaderSize + length)
      reporter := some (calls ++ [⟨length + pending,
        .Corruption (unknownRecordType (headerType there.buffer))⟩]) }
    inFragmentedRecord := false
    scratch := [] }

/-! ## What the `switch` does -/

/-- No type on disk is known with this code. -/
theorem handle_unknown
    (mode : WALRecoveryMode)
    (assembly : Assembly φ)
    (offset : UInt64)
    {code : Nat}
    (unknown : kMaxRecordType < code)
    (foreign : ¬IsOwnCode code)
    (fragment : Bytes)
    (dropSize : Nat)
    (reader : Reader φ) :
    handle mode assembly offset ⟨code, fragment, dropSize, reader⟩ =
      .inl (Assembly.report { assembly with reader := reader }
        (fragment.length +
          if assembly.inFragmentedRecord then assembly.scratch.length else 0)
        (unknownRecordType code)).dropPartial := by
  unfold IsOwnCode kEof kBadRecordChecksum kMaxRecordType at *
  have isNot (other : Nat) (small : other ≤ 14) : code ≠ other := by omega
  unfold handle unknownRecordType
  dsimp only
  generalize toString code = digits
  simp [RecordType.code, kEof, kBadRecord, kBadHeader, kOldRecord, kBadRecordLen,
    kBadRecordChecksum, kMaxRecordType, isNot]

/-- Further reports, none of which speaks of an unknown type. -/
def SaysOther (before after : Option (List Report)) : Prop :=
  ∀ calls, before = some calls →
    ∃ more, after = some (calls ++ more) ∧
      ∀ call ∈ more, ∀ code, call.status ≠ .Corruption (unknownRecordType code)

namespace SaysOther

theorem refl (reporter : Option (List Report)) : SaysOther reporter reporter :=
  fun calls before => ⟨[], by simpa using before, nofun⟩

theorem trans
    {first second third : Option (List Report)}
    (left : SaysOther first second)
    (right : SaysOther second third) : SaysOther first third := by
  intro calls before
  obtain ⟨more, then', others⟩ := left calls before
  obtain ⟨further, after, others'⟩ := right _ then'
  refine ⟨more ++ further, by rw [after, List.append_assoc], ?_⟩
  intro call isCall
  rcases List.mem_append.mp isCall with early | late
  · exact others call early
  · exact others' call late

theorem report
    (assembly : Assembly φ)
    (bytes : Nat)
    {reason : String}
    (other : ∀ code, reason ≠ unknownRecordType code) :
    SaysOther assembly.reader.reporter (assembly.report bytes reason).reader.reporter := by
  intro calls before
  unfold Assembly.report reportCorruption reportDrop
  rw [before]
  dsimp only
  split
  · refine ⟨_, rfl, ?_⟩
    intro call isCall code same
    rw [List.mem_singleton.mp isCall] at same
    exact other code (congrArg Status.state same)
  · exact ⟨[], by rw [before, List.append_nil], nofun⟩

theorem interrupt (assembly : Assembly φ) :
    SaysOther assembly.reader.reporter assembly.interrupt.reader.reporter := by
  unfold Assembly.interrupt
  split
  · exact report assembly _ (ne_unknownRecordType (by decide))
  · exact .refl _

end SaysOther

/-- With a code of its own the reader does not report an unknown type. -/
theorem handle_own
    (mode : WALRecoveryMode)
    (assembly : Assembly φ)
    (offset : UInt64)
    {code : Nat}
    (own : IsOwnCode code)
    (fragment : Bytes)
    (dropSize : Nat)
    (reader : Reader φ)
    {next : Assembly φ}
    (goesOn : handle mode assembly offset ⟨code, fragment, dropSize, reader⟩ =
      .inl next) :
    SaysOther reader.reporter next.reader.reporter := by
  have isNot (type : RecordType) : code ≠ type.code := by
    unfold IsOwnCode kEof kMaxRecordType at own
    have small : type.code ≤ 8 := by cases type <;> decide
    omega
  unfold handle at goesOn
  simp only [isNot, or_self, if_false] at goesOn
  let started : Assembly φ := { assembly with reader := reader }
  split at goesOn
  · cases goesOn
  split at goesOn
  · cases goesOn
  split at goesOn
  · split at goesOn
    · cases goesOn
    · cases goesOn
      exact SaysOther.interrupt started
  split at goesOn
  · cases goesOn
    exact SaysOther.interrupt started
  split at goesOn
  · split at goesOn
    · cases goesOn
    · cases goesOn
      refine (SaysOther.report started dropSize ?_).trans (SaysOther.interrupt _)
      split
      · exact ne_unknownRecordType (by decide)
      · exact ne_unknownRecordType (by decide)
  · rename_i others
    exfalso
    unfold IsOwnCode at own
    unfold kEof kBadRecord kBadHeader kOldRecord kBadRecordLen kBadRecordChecksum at *
    omega

/-! ## Complete records of unknown type -/

/-- A complete physical record of unknown type that passes the checks is delivered with
its type. -/
theorem readPhysicalRecord_unknown
    {there : Reader φ}
    (complete : kHeaderSize + headerLength there.buffer ≤ there.buffer.length)
    (checks : there.checksum = true →
      crcMatches there.buffer kHeaderSize (headerLength there.buffer) = true)
    (unknown : kMaxRecordType < (typeByte there.buffer).toNat)
    (fromStart : there.initialOffset = 0) :
    there.readPhysicalRecord F 0 =
      ⟨headerType there.buffer,
        (there.buffer.drop kHeaderSize).take (headerLength there.buffer), 0,
        { there with
          buffer := there.buffer.drop (kHeaderSize + headerLength there.buffer) }⟩ := by
  have above : kMaxRecordType < headerType there.buffer := lt_charToUnsigned unknown
  unfold kMaxRecordType at above
  have legacy : isRecyclableType (headerType there.buffer) = false := by
    apply decide_eq_false
    intro inside
    simp only [RecordType.code] at inside
    omega
  have notZero : ¬(headerType there.buffer = RecordType.zero.code ∧
      headerLength there.buffer = 0) := by
    simp only [RecordType.code]
    omega
  have passes : (there.checksum &&
      !crcMatches there.buffer kHeaderSize (headerLength there.buffer)) = false := by
    cases checked : there.checksum with
    | false => rfl
    | true => rw [checks checked]; rfl
  rw [readPhysicalRecord_of_legacy (by omega) legacy, takeRecord]
  simp only [if_neg (Nat.not_lt.mpr complete), if_neg notZero, passes, fromStart,
    Bool.false_eq_true, if_false, UInt64.not_lt_zero]

/-- A physical record that is there completely, passes the checks and is of unknown type
is reported and dropped, with the pending part of a record, and the loop of `ReadRecord`
goes on behind it, in every recovery mode, exactly if its type byte is not one of the
codes of the reader itself. -/
theorem unknownType_reported_iff
    (mode : WALRecoveryMode)
    {assembly : Assembly φ}
    {there : Reader φ}
    {calls : List Report}
    (arrives : Arrives F assembly.reader there)
    (complete : kHeaderSize + headerLength there.buffer ≤ there.buffer.length)
    (checks : there.checksum = true →
      crcMatches there.buffer kHeaderSize (headerLength there.buffer) = true)
    (unknown : kMaxRecordType < (typeByte there.buffer).toNat)
    (reporter : assembly.reader.reporter = some calls)
    (fromStart : assembly.reader.initialOffset = 0) :
    readRecordStep F mode assembly = .inl (assembly.behindUnknown there calls) ↔
      ¬IsOwnCode (typeByte there.buffer).toNat := by
  obtain ⟨sameReporter, sameOffset⟩ := arrives.settings
  have physical := (arrives.readPhysicalRecord_eq).trans
    (readPhysicalRecord_unknown complete checks unknown (sameOffset.trans fromStart))
  have reporter' := sameReporter.trans reporter
  have above : kMaxRecordType < headerType there.buffer := lt_charToUnsigned unknown
  rw [← isOwnCode_charToUnsigned]
  change _ ↔ ¬IsOwnCode (headerType there.buffer)
  constructor
  · intro reported own
    rw [readRecordStep, physical] at reported
    obtain ⟨more, said, others⟩ :=
      handle_own mode assembly _ own _ _ _ reported calls reporter'
    have isMore := List.append_cancel_left (Option.some.inj said)
    rw [← isMore] at others
    exact others _ (List.mem_singleton_self _) _ rfl
  · intro foreign
    have length : ((there.buffer.drop kHeaderSize).take
        (headerLength there.buffer)).length = headerLength there.buffer := by
      rw [List.length_take, List.length_drop]
      omega
    rw [readRecordStep, physical,
      handle_unknown mode assembly _ above foreign, length]
    unfold Assembly.behindUnknown Assembly.report Assembly.dropPartial reportCorruption
      reportDrop
    rw [reporter']
    simp only [sameOffset, fromStart, UInt64.zero_le, if_true]

/-- A physical record with this type byte, and with the checksum that belongs to it. -/
def recordOfType (type : UInt8) (payload : Bytes) : Bytes :=
  Coding.encodeFixed32 (Crc32c.mask (Crc32c.value (type :: payload))) ++
    [UInt8.ofNat payload.length, UInt8.ofNat (payload.length / 256), type] ++ payload

/-- A reader in front of a record of this type and a full one. -/
def readerOfType (type : UInt8) : Reader GrowingFile :=
  Reader.new (GrowingFile.atRest (recordOfType type [1] ++ recordOfType 1 [2]))
    (some []) true 0 7

theorem arrives_readerOfType (type : UInt8) :
    Arrives GrowingFile.sequentialFile (readerOfType type) (readerOfType type).refill :=
  .trailer (Nat.succ_pos 6) (readMore_refill _ 0 rfl rfl) (.here _)

theorem unknownType_reported_iff_of_200 :
    let reader := readerOfType 200
    readRecordStep GrowingFile.sequentialFile .absoluteConsistency (startAssembly reader) =
        .inl ((startAssembly reader).behindUnknown reader.refill []) ↔
      ¬IsOwnCode (typeByte reader.refill.buffer).toNat :=
  unknownType_reported_iff .absoluteConsistency (arrives_readerOfType 200)
    (by decide +kernel) (fun _ => by decide +kernel) (by decide +kernel) rfl rfl

/-- A record with the type byte of `kEof` is taken for the end of the file: nothing is
reported, and the full record behind it is not read. -/
theorem unknownType_as_kEof :
    let reader := readerOfType 9
    let there := reader.refill
    Arrives GrowingFile.sequentialFile reader there ∧
      kHeaderSize + headerLength there.buffer ≤ there.buffer.length ∧
      crcMatches there.buffer kHeaderSize (headerLength there.buffer) = true ∧
      (typeByte there.buffer).toNat = kEof ∧
      ∀ mode, (reader.readRecord GrowingFile.sequentialFile mode 3).map
          (fun result => (result.found, result.reader.reporter)) =
        some (false, some []) := by
  refine ⟨arrives_readerOfType 9, by decide +kernel, by decide +kernel,
    by decide +kernel, ?_⟩
  intro mode
  cases mode <;> decide +kernel

end Reader
end Log
end RocksUtil
