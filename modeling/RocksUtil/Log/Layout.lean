import RocksUtil.Log.Writer

/-!
# The layout of a log

The abstract side of the log: a log is a list of fragments, each placed in the
current block behind a header, or in the next block when no header fits in what
is left of this one.  `place` gives the bytes, `fragments` the way a record is
cut, and `assemble` the records a list of fragments stands for.

The writer is related to this layout in `Log.Writing`, the reader in
`Log.Streams`.
-/

namespace RocksUtil
namespace Log

/-- The format of a log: whether log files are recycled, and the log number. -/
structure Format where
  /-- `recycle_log_files_`. -/
  recycle : Bool
  /-- `log_number_`. -/
  logNumber : UInt64

/-- A piece of a logical record. -/
structure Fragment where
  /-- The piece begins its record. -/
  start : Bool
  /-- The piece ends its record. -/
  finish : Bool
  /-- The bytes of the piece. -/
  payload : Bytes

namespace Format

/-- Size of a header in this format. -/
def header (format : Format) : Nat := headerSize format.recycle

theorem header_bounds (format : Format) :
    7 ≤ format.header ∧ format.header ≤ 11 :=
  headerSize_bounds format.recycle

/-- Bytes of the block that stay unused in front of a record written at
`offset`. -/
def gap (format : Format) (offset : Nat) : Nat :=
  if kBlockSize - offset < format.header then kBlockSize - offset else 0

/-- Block offset at which a record written at `offset` starts. -/
def startOffset (format : Format) (offset : Nat) : Nat :=
  if kBlockSize - offset < format.header then 0 else offset

/-- Block offset behind a fragment with a payload of `length` bytes. -/
def endOffset (format : Format) (offset length : Nat) : Nat :=
  format.startOffset offset + (format.header + length)

/-- The type byte of a fragment. -/
def type (format : Format) (fragment : Fragment) : RecordType :=
  Writer.fragmentType format.recycle fragment.start fragment.finish

/-- The physical record of a fragment. -/
def encode (format : Format) (fragment : Fragment) : Bytes :=
  Writer.formatHeader format.logNumber (format.type fragment) fragment.payload ++
    fragment.payload

/-- The bytes of a list of fragments written from block offset `offset` on. -/
def place (format : Format) : Nat → List Fragment → Bytes
  | _, [] => []
  | offset, fragment :: fragments =>
      List.replicate (format.gap offset) 0 ++ (format.encode fragment ++
        format.place (format.endOffset offset fragment.payload.length) fragments)

/-- The block offset behind a list of fragments. -/
def advance (format : Format) : Nat → List Fragment → Nat
  | offset, [] => offset
  | offset, fragment :: fragments =>
      format.advance (format.endOffset offset fragment.payload.length) fragments

/-- Every fragment stays inside its block, and one that does not end its record
fills the block. -/
def Fits (format : Format) : Nat → List Fragment → Prop
  | offset, [] => offset ≤ kBlockSize
  | offset, fragment :: fragments =>
      offset ≤ kBlockSize ∧
        (fragment.finish = false →
          format.endOffset offset fragment.payload.length = kBlockSize) ∧
        format.Fits (format.endOffset offset fragment.payload.length) fragments

/-- The fragments of `left`, the first of which is written at `offset`. -/
def fragments (format : Format) (offset : Nat) (start : Bool) (left : Bytes) :
    List Fragment :=
  let length := min left.length
    (kBlockSize - format.startOffset offset - format.header)
  let fragment : Fragment :=
    ⟨start, decide (left.length = length), left.take length⟩
  if 0 < (left.drop length).length then
    fragment ::
      format.fragments (format.endOffset offset length) false (left.drop length)
  else [fragment]
termination_by
  2 * left.length + if offset + format.header = kBlockSize then 1 else 0
decreasing_by
  have bounds := format.header_bounds
  have block := kBlockSize_eq
  rename_i continues
  simp only [endOffset, startOffset, List.length_drop] at continues ⊢
  by_cases switches : kBlockSize - offset < format.header
  · simp only [if_pos switches] at continues ⊢
    split <;> omega
  · simp only [if_neg switches] at continues ⊢
    split <;> split <;> omega

/-! ## Offsets -/

theorem gap_lt_header (format : Format) (offset : Nat) :
    format.gap offset < format.header := by
  have bounds := format.header_bounds
  unfold gap
  split <;> omega

/-- A gap reaches to the end of the block. -/
theorem startOffset_of_gap
    (format : Format)
    {offset : Nat}
    (positive : 0 < format.gap offset) :
    format.gap offset = kBlockSize - offset ∧ format.startOffset offset = 0 := by
  unfold gap at positive ⊢
  unfold startOffset
  split at positive
  · rename_i switches
    simp [switches]
  · omega

theorem startOffset_le (format : Format) (offset : Nat) :
    format.startOffset offset + format.header ≤ kBlockSize := by
  have bounds := format.header_bounds
  have block := kBlockSize_eq
  unfold startOffset
  split <;> omega

@[simp] theorem gap_kBlockSize (format : Format) :
    format.gap kBlockSize = 0 := by
  unfold gap
  split <;> omega

@[simp] theorem startOffset_kBlockSize (format : Format) :
    format.startOffset kBlockSize = 0 := by
  have bounds := format.header_bounds
  unfold startOffset
  split
  · rfl
  · omega

@[simp] theorem gap_zero (format : Format) : format.gap 0 = 0 := by
  have bounds := format.header_bounds
  have block := kBlockSize_eq
  unfold gap
  split
  · omega
  · rfl

@[simp] theorem startOffset_zero (format : Format) :
    format.startOffset 0 = 0 := by
  unfold startOffset
  split <;> rfl

theorem endOffset_kBlockSize (format : Format) (length : Nat) :
    format.endOffset kBlockSize length = format.endOffset 0 length := by
  simp [endOffset]

theorem length_encode (format : Format) (fragment : Fragment) :
    (format.encode fragment).length =
      format.header + fragment.payload.length := by
  simp [encode, Writer.length_formatHeader, type, header]

/-! ## Placing lists of fragments -/

@[simp] theorem place_nil (format : Format) (offset : Nat) :
    format.place offset [] = [] := rfl

theorem place_cons
    (format : Format)
    (offset : Nat)
    (fragment : Fragment)
    (fragments : List Fragment) :
    format.place offset (fragment :: fragments) =
      List.replicate (format.gap offset) 0 ++ (format.encode fragment ++
        format.place (format.endOffset offset fragment.payload.length)
          fragments) := rfl

/-- The block offset matters only up to a full block. -/
theorem place_kBlockSize (format : Format) (fragments : List Fragment) :
    format.place kBlockSize fragments = format.place 0 fragments := by
  cases fragments with
  | nil => rfl
  | cons fragment fragments =>
      simp [place_cons, endOffset]

theorem place_append
    (format : Format)
    (offset : Nat)
    (left right : List Fragment) :
    format.place offset (left ++ right) =
      format.place offset left ++
        format.place (format.advance offset left) right := by
  induction left generalizing offset with
  | nil => rfl
  | cons fragment fragments inductionHypothesis =>
      simp [place_cons, advance, inductionHypothesis]

theorem advance_append
    (format : Format)
    (offset : Nat)
    (left right : List Fragment) :
    format.advance offset (left ++ right) =
      format.advance (format.advance offset left) right := by
  induction left generalizing offset with
  | nil => rfl
  | cons fragment fragments inductionHypothesis =>
      simp [advance, inductionHypothesis]

theorem Fits.advance_le
    {format : Format}
    {offset : Nat}
    {fragments : List Fragment}
    (fits : format.Fits offset fragments) :
    format.advance offset fragments ≤ kBlockSize := by
  induction fragments generalizing offset with
  | nil => exact fits
  | cons fragment fragments inductionHypothesis =>
      exact inductionHypothesis fits.2.2

theorem Fits.offset_le
    {format : Format}
    {offset : Nat}
    {fragments : List Fragment}
    (fits : format.Fits offset fragments) : offset ≤ kBlockSize := by
  cases fragments with
  | nil => exact fits
  | cons fragment fragments => exact fits.1

/-- The first fragment ends inside its block. -/
theorem Fits.endOffset_le
    {format : Format}
    {offset : Nat}
    {fragment : Fragment}
    {fragments : List Fragment}
    (fits : format.Fits offset (fragment :: fragments)) :
    format.endOffset offset fragment.payload.length ≤ kBlockSize :=
  fits.2.2.offset_le

/-- A fragment is shorter than the length field of its header can tell. -/
theorem Fits.small
    {format : Format}
    {offset : Nat}
    {fragments : List Fragment}
    (fits : format.Fits offset fragments) :
    ∀ fragment ∈ fragments, fragment.payload.length < 65536 := by
  induction fragments generalizing offset with
  | nil => simp
  | cons first fragments inductionHypothesis =>
      intro fragment isFragment
      rcases List.mem_cons.mp isFragment with rfl | isLater
      · have ends := fits.endOffset_le
        have block := kBlockSize_eq
        unfold endOffset at ends
        omega
      · exact inductionHypothesis fits.2.2 fragment isLater

theorem fits_append
    (format : Format)
    (offset : Nat)
    (left right : List Fragment) :
    format.Fits offset (left ++ right) ↔
      format.Fits offset left ∧
        format.Fits (format.advance offset left) right := by
  induction left generalizing offset with
  | nil =>
      exact ⟨fun fits => ⟨fits.offset_le, fits⟩, fun both => both.2⟩
  | cons fragment fragments inductionHypothesis =>
      simp only [List.cons_append, Fits, advance, inductionHypothesis]
      tauto

/-- The fragments of a record fit from any offset inside a block. -/
theorem fits_fragments
    (format : Format)
    (offset : Nat)
    (start : Bool)
    (left : Bytes)
    (inside : offset ≤ kBlockSize) :
    format.Fits offset (format.fragments offset start left) := by
  have room := format.startOffset_le offset
  fun_induction format.fragments offset start left with
  | case1 offset start left length fragment more inductionHypothesis =>
      have filled : format.endOffset offset length = kBlockSize := by
        simp only [List.length_drop] at more
        simp only [endOffset]
        omega
      have taken : fragment.payload.length = length := by
        simp only [fragment, List.length_take]
        omega
      refine ⟨inside, fun _ => ?_, ?_⟩
      · rw [taken, filled]
      · rw [taken]
        exact inductionHypothesis (by omega) (format.startOffset_le _)
  | case2 offset start left length fragment last =>
      have taken : fragment.payload.length = length := by
        simp only [fragment, List.length_take]
        omega
      have ends : fragment.finish = true := by
        simp only [List.length_drop] at last
        simp only [fragment, decide_eq_true_eq]
        omega
      refine ⟨inside, fun open' => ?_, ?_⟩
      · rw [ends] at open'
        cases open'
      · rw [taken]
        change format.endOffset offset length ≤ kBlockSize
        simp only [endOffset]
        omega

end Format

/-! ## Assembling records -/

/-- The record a fragment completes, when `pending` has been seen of a record
that is not complete yet. -/
def completed (pending : Option Bytes) (fragment : Fragment) : Option Bytes :=
  if fragment.finish then
    if fragment.start then some fragment.payload
    else pending.map (· ++ fragment.payload)
  else none

/-- What is pending behind a fragment. -/
def pendingNext (pending : Option Bytes) (fragment : Fragment) : Option Bytes :=
  if fragment.finish then none
  else if fragment.start then some fragment.payload
  else pending.map (· ++ fragment.payload)

/-- The records a list of fragments stands for.  A fragment without a beginning
is dropped, and so is a record that another one interrupts. -/
def assemble : Option Bytes → List Fragment → List Bytes
  | _, [] => []
  | pending, fragment :: fragments =>
      (completed pending fragment).toList ++
        assemble (pendingNext pending fragment) fragments

/-- What has been seen of an incomplete record behind a list of fragments. -/
def pendingAfter : Option Bytes → List Fragment → Option Bytes
  | pending, [] => pending
  | pending, fragment :: fragments =>
      pendingAfter (pendingNext pending fragment) fragments

/-- A fragment begins a record exactly when no record is pending. -/
def Chained : Bool → List Fragment → Prop
  | _, [] => True
  | pending, fragment :: fragments =>
      fragment.start = !pending ∧ Chained (!fragment.finish) fragments

theorem pendingNext_of_finish
    (pending : Option Bytes)
    {fragment : Fragment}
    (finish : fragment.finish = true) : pendingNext pending fragment = none := by
  simp [pendingNext, finish]

theorem assemble_append
    (pending : Option Bytes)
    (left right : List Fragment) :
    assemble pending (left ++ right) =
      assemble pending left ++ assemble (pendingAfter pending left) right := by
  induction left generalizing pending with
  | nil => rfl
  | cons fragment fragments inductionHypothesis =>
      simp [assemble, pendingAfter, inductionHypothesis]

theorem pendingAfter_append
    (pending : Option Bytes)
    (left right : List Fragment) :
    pendingAfter pending (left ++ right) =
      pendingAfter (pendingAfter pending left) right := by
  induction left generalizing pending with
  | nil => rfl
  | cons fragment fragments inductionHypothesis =>
      simp [pendingAfter, inductionHypothesis]

/-- In a chained list, a record is pending exactly behind a fragment that does
not end its record. -/
theorem isSome_pendingNext
    {pending : Option Bytes}
    {fragment : Fragment}
    (chained : fragment.start = !pending.isSome) :
    (pendingNext pending fragment).isSome = !fragment.finish := by
  unfold pendingNext
  cases fragment.finish <;> cases pending <;> simp_all

theorem chained_append
    (pending : Option Bytes)
    (left right : List Fragment) :
    Chained pending.isSome (left ++ right) ↔
      Chained pending.isSome left ∧
        Chained (pendingAfter pending left).isSome right := by
  induction left generalizing pending with
  | nil => simp [Chained, pendingAfter]
  | cons fragment fragments inductionHypothesis =>
      simp only [List.cons_append, Chained, pendingAfter]
      by_cases chained : fragment.start = !pending.isSome
      · rw [← isSome_pendingNext chained, inductionHypothesis]
        tauto
      · simp only [chained, false_and]

/-- Fragments that end no record complete none. -/
theorem assemble_of_open
    (pending : Option Bytes)
    (fragments : List Fragment)
    (open' : ∀ fragment ∈ fragments, fragment.finish = false) :
    assemble pending fragments = [] := by
  induction fragments generalizing pending with
  | nil => rfl
  | cons fragment fragments inductionHypothesis =>
      have continues := open' fragment (by simp)
      have rest := inductionHypothesis (pendingNext pending fragment)
        (fun other isOther => open' other (by simp [isOther]))
      simp [assemble, completed, continues, rest]

/-- Fragments that begin no record are dropped. -/
theorem assemble_of_continued
    (fragments : List Fragment)
    (continued : ∀ fragment ∈ fragments, fragment.start = false) :
    assemble none fragments = [] ∧ pendingAfter none fragments = none := by
  induction fragments with
  | nil => exact ⟨rfl, rfl⟩
  | cons fragment fragments inductionHypothesis =>
      have notStart := continued fragment (by simp)
      have rest := inductionHypothesis
        (fun other isOther => continued other (by simp [isOther]))
      have nothing : completed none fragment = none ∧
          pendingNext none fragment = none := by
        simp [completed, pendingNext, notStart]
      simp only [assemble, pendingAfter, nothing]
      exact ⟨by simpa using rest.1, rest.2⟩

/-- Behind fragments that begin a record and do not end it, it is pending. -/
theorem isSome_pendingAfter_of_open
    (pending : Option Bytes)
    (fragments : List Fragment)
    (open' : ∀ fragment ∈ fragments, fragment.finish = false)
    (chained : Chained pending.isSome fragments)
    (nonempty : pending.isSome ∨ fragments ≠ []) :
    (pendingAfter pending fragments).isSome := by
  induction fragments generalizing pending with
  | nil => exact nonempty.resolve_right (by simp)
  | cons fragment fragments inductionHypothesis =>
      have continues := open' fragment (by simp)
      have next := isSome_pendingNext chained.1
      rw [continues] at next
      refine inductionHypothesis (pendingNext pending fragment)
        (fun other isOther => open' other (by simp [isOther])) ?_ (.inl next)
      rw [isSome_pendingNext chained.1]
      exact chained.2

namespace Format

theorem fragments_ne_nil
    (format : Format)
    (offset : Nat)
    (start : Bool)
    (left : Bytes) :
    format.fragments offset start left ≠ [] := by
  rw [fragments]
  split <;> simp

/-- A record that fits in what is left of the block is not cut. -/
theorem fragments_of_fits
    (format : Format)
    {offset : Nat}
    (start : Bool)
    {left : Bytes}
    (fits : format.endOffset offset left.length ≤ kBlockSize) :
    format.fragments offset start left = [⟨start, true, left⟩] := by
  have all : min left.length (kBlockSize - format.startOffset offset -
      format.header) = left.length := by
    unfold endOffset at fits
    omega
  rw [fragments]
  simp [all]

/-- The fragments of the rest of a record begin none. -/
theorem start_of_mem_fragments
    (format : Format)
    (offset : Nat)
    {start : Bool}
    (continued : start = false)
    (left : Bytes) :
    ∀ fragment ∈ format.fragments offset start left, fragment.start = false := by
  fun_induction format.fragments offset start left with
  | case1 offset start left length fragment more inductionHypothesis =>
      intro other isOther
      rcases List.mem_cons.mp isOther with rfl | inRest
      · exact continued
      · exact inductionHypothesis rfl other inRest
  | case2 offset start left length fragment last =>
      intro other isOther
      rw [List.mem_singleton.mp isOther]
      exact continued

/-- Only the first fragment of a record begins it. -/
theorem start_of_split
    (format : Format)
    {offset : Nat}
    {record : Bytes}
    {init rest : List Fragment}
    (split : format.fragments offset true record = init ++ rest)
    (begun : init ≠ []) :
    ∀ fragment ∈ rest, fragment.start = false := by
  cases init with
  | nil => exact absurd rfl begun
  | cons first init =>
      rw [fragments] at split
      split at split
      · rw [List.cons_append, List.cons.injEq] at split
        intro fragment isRest
        apply format.start_of_mem_fragments _ rfl
        rw [split.2]
        exact List.mem_append_right init isRest
      · rw [List.cons_append, List.cons.injEq] at split
        have none := (List.append_eq_nil_iff.mp split.2.symm).2
        simp [none]

/-- Only the last fragment of a record ends it. -/
theorem fragments_eq_append_last
    (format : Format)
    (offset : Nat)
    (start : Bool)
    (left : Bytes) :
    ∃ init last,
      format.fragments offset start left = init ++ [last] ∧
        (∀ fragment ∈ init, fragment.finish = false) ∧
        last.finish = true := by
  fun_induction format.fragments offset start left with
  | case1 offset start left length fragment more inductionHypothesis =>
      obtain ⟨init, last, split, open', ends⟩ := inductionHypothesis
      have continues : fragment.finish = false := by
        simp only [List.length_drop] at more
        simp only [fragment, decide_eq_false_iff_not]
        omega
      refine ⟨fragment :: init, last, ?_, ?_, ends⟩
      · rw [split, List.cons_append]
      · intro other isOther
        rcases List.mem_cons.mp isOther with rfl | inInit
        · exact continues
        · exact open' other inInit
  | case2 offset start left length fragment last =>
      have ends : fragment.finish = true := by
        simp only [List.length_drop] at last
        simp only [fragment, decide_eq_true_eq]
        omega
      exact ⟨[], fragment, rfl, nofun, ends⟩

theorem finish_of_split
    (format : Format)
    {offset : Nat}
    {record : Bytes}
    {init rest : List Fragment}
    (split : format.fragments offset true record = init ++ rest)
    (unfinished : rest ≠ []) :
    ∀ fragment ∈ init, fragment.finish = false := by
  obtain ⟨others, last, pieces, open', -⟩ :=
    format.fragments_eq_append_last offset true record
  have isLast := List.dropLast_append_getLast unfinished
  have whole := pieces.symm.trans split
  rw [← isLast, ← List.append_assoc] at whole
  have sameOthers := (List.append_inj' whole rfl).1
  intro fragment isInit
  apply open'
  rw [sameOthers]
  exact List.mem_append_left _ isInit

theorem chained_fragments
    (format : Format)
    (offset : Nat)
    (start : Bool)
    (left : Bytes) :
    Chained (!start) (format.fragments offset start left) := by
  fun_induction format.fragments offset start left with
  | case1 offset start left length fragment more inductionHypothesis =>
      have continues : fragment.finish = false := by
        simp only [List.length_drop] at more
        simp only [fragment, decide_eq_false_iff_not]
        omega
      refine ⟨by simp [fragment], ?_⟩
      rw [continues]
      exact inductionHypothesis
  | case2 offset start left length fragment last =>
      exact ⟨by simp [fragment], trivial⟩

/-- The fragments of the rest of a record complete it, and nothing else. -/
theorem assemble_fragments
    (format : Format)
    (offset : Nat)
    (pending : Option Bytes)
    (left : Bytes) :
    assemble pending (format.fragments offset pending.isNone left) =
        [pending.getD [] ++ left] ∧
      pendingAfter pending (format.fragments offset pending.isNone left) =
        none := by
  generalize starts : pending.isNone = start
  fun_induction format.fragments offset start left generalizing pending with
  | case1 offset start left length fragment more inductionHypothesis =>
      have continues : fragment.finish = false := by
        simp only [List.length_drop] at more
        simp only [fragment, decide_eq_false_iff_not]
        omega
      have split : left.take length ++ left.drop length = left :=
        List.take_append_drop length left
      cases pending with
      | none =>
          have rest := inductionHypothesis (some fragment.payload) rfl
          have begins : fragment.start = true := by simpa [fragment] using starts.symm
          simp only [assemble, pendingAfter, completed, pendingNext, begins,
            continues]
          simpa [fragment] using rest
      | some scratch =>
          have rest :=
            inductionHypothesis (some (scratch ++ fragment.payload)) rfl
          have begins : fragment.start = false := by simpa [fragment] using starts.symm
          simp only [assemble, pendingAfter, completed, pendingNext, begins,
            continues]
          simpa [fragment] using rest
  | case2 offset start left length fragment last =>
      have ends : fragment.finish = true := by
        simp only [List.length_drop] at last
        simp only [fragment, decide_eq_true_eq]
        omega
      have whole : fragment.payload = left := by
        simp only [List.length_drop] at last
        simp only [fragment]
        apply List.take_of_length_le
        omega
      cases pending with
      | none =>
          have begins : fragment.start = true := by simpa [fragment] using starts.symm
          simp [assemble, pendingAfter, completed, pendingNext, begins, ends,
            whole]
      | some scratch =>
          have begins : fragment.start = false := by simpa [fragment] using starts.symm
          simp [assemble, pendingAfter, completed, pendingNext, begins, ends,
            whole]

/-- The fragments of a record stand for that record. -/
theorem assemble_record (format : Format) (offset : Nat) (record : Bytes) :
    assemble none (format.fragments offset true record) = [record] ∧
      pendingAfter none (format.fragments offset true record) = none := by
  simpa using format.assemble_fragments offset none record

/-- The fragments of a list of records, written one after another. -/
def fragmentsOf (format : Format) : Nat → List Bytes → List Fragment
  | _, [] => []
  | offset, record :: records =>
      let pieces := format.fragments offset true record
      pieces ++ format.fragmentsOf (format.advance offset pieces) records

/-- The bytes of a list of records. -/
def logBytes (format : Format) (offset : Nat) (records : List Bytes) : Bytes :=
  format.place offset (format.fragmentsOf offset records)

theorem fragments_kBlockSize (format : Format) (start : Bool) (left : Bytes) :
    format.fragments kBlockSize start left = format.fragments 0 start left := by
  rw [fragments.eq_def format kBlockSize, fragments.eq_def format 0]
  simp only [startOffset_kBlockSize, startOffset_zero, endOffset_kBlockSize]

theorem advance_kBlockSize
    (format : Format)
    {fragments : List Fragment}
    (nonempty : fragments ≠ []) :
    format.advance kBlockSize fragments = format.advance 0 fragments := by
  cases fragments with
  | nil => exact absurd rfl nonempty
  | cons fragment fragments => rw [advance, advance, endOffset_kBlockSize]

/-- The start of a block is as good as the end of the one before. -/
theorem fragmentsOf_kBlockSize (format : Format) (records : List Bytes) :
    format.fragmentsOf kBlockSize records = format.fragmentsOf 0 records := by
  cases records with
  | nil => rfl
  | cons record records =>
      simp only [fragmentsOf, fragments_kBlockSize,
        format.advance_kBlockSize (format.fragments_ne_nil 0 true record)]

theorem logBytes_kBlockSize (format : Format) (records : List Bytes) :
    format.logBytes kBlockSize records = format.logBytes 0 records := by
  rw [logBytes, logBytes, fragmentsOf_kBlockSize, place_kBlockSize]

theorem fits_fragmentsOf
    (format : Format)
    (offset : Nat)
    (records : List Bytes)
    (inside : offset ≤ kBlockSize) :
    format.Fits offset (format.fragmentsOf offset records) := by
  induction records generalizing offset with
  | nil => exact inside
  | cons record records inductionHypothesis =>
      have fits := format.fits_fragments offset true record inside
      rw [fragmentsOf, fits_append]
      exact ⟨fits, inductionHypothesis _ fits.advance_le⟩

/-- The fragments of a list of records stand for these records. -/
theorem assemble_fragmentsOf
    (format : Format)
    (offset : Nat)
    (records : List Bytes) :
    assemble none (format.fragmentsOf offset records) = records ∧
      pendingAfter none (format.fragmentsOf offset records) = none ∧
      Chained false (format.fragmentsOf offset records) := by
  induction records generalizing offset with
  | nil => exact ⟨rfl, rfl, trivial⟩
  | cons record records inductionHypothesis =>
      have first := format.assemble_record offset record
      have rest := inductionHypothesis
        (format.advance offset (format.fragments offset true record))
      refine ⟨?_, ?_, ?_⟩
      · rw [fragmentsOf, assemble_append, first.1, first.2, rest.1]
        rfl
      · rw [fragmentsOf, pendingAfter_append, first.2, rest.2.1]
      · refine (chained_append none _ _).mpr
          ⟨format.chained_fragments offset true record, ?_⟩
        rw [first.2]
        exact rest.2.2

theorem fragmentsOf_append
    (format : Format)
    (offset : Nat)
    (left right : List Bytes) :
    format.fragmentsOf offset (left ++ right) =
      format.fragmentsOf offset left ++
        format.fragmentsOf
          (format.advance offset (format.fragmentsOf offset left)) right := by
  induction left generalizing offset with
  | nil => rfl
  | cons record records inductionHypothesis =>
      simp [fragmentsOf, inductionHypothesis, advance_append]

end Format

end Log
end RocksUtil
