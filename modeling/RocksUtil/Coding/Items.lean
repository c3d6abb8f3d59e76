import RocksUtil.Coding.Varint

/-!
# Items put into a string and got back

The `Put...` routines of the source append to a string; the `Get...` routines parse at
the front of a slice and advance it.  What is put by any sequence of calls is got back,
item by item, whatever follows it (`gets_putAll`).
-/

namespace RocksUtil
namespace Coding

/-! ## The routines that append -/

/-- `PutFixed64`. -/
def putFixed64 (dst : Bytes) (value : UInt64) : Bytes := dst ++ encodeFixed64 value

/-- `PutVarint32`. -/
def putVarint32 (dst : Bytes) (v : UInt32) : Bytes := dst ++ encodeVarint32 v

/-- `PutVarint32Varint32`. -/
def putVarint32Varint32 (dst : Bytes) (v1 v2 : UInt32) : Bytes :=
  dst ++ (encodeVarint32 v1 ++ encodeVarint32 v2)

/-- `PutVarint32Varint32Varint32`. -/
def putVarint32Varint32Varint32 (dst : Bytes) (v1 v2 v3 : UInt32) : Bytes :=
  dst ++ (encodeVarint32 v1 ++ encodeVarint32 v2 ++ encodeVarint32 v3)

/-- `PutVarint64`. -/
def putVarint64 (dst : Bytes) (v : UInt64) : Bytes := dst ++ encodeVarint64 v

/-- `PutVarint64Varint64`. -/
def putVarint64Varint64 (dst : Bytes) (v1 v2 : UInt64) : Bytes :=
  dst ++ (encodeVarint64 v1 ++ encodeVarint64 v2)

/-- `PutVarint32Varint64`. -/
def putVarint32Varint64 (dst : Bytes) (v1 : UInt32) (v2 : UInt64) : Bytes :=
  dst ++ (encodeVarint32 v1 ++ encodeVarint64 v2)

/-- `PutVarint32Varint32Varint64`. -/
def putVarint32Varint32Varint64 (dst : Bytes) (v1 v2 : UInt32) (v3 : UInt64) : Bytes :=
  dst ++ (encodeVarint32 v1 ++ encodeVarint32 v2 ++ encodeVarint64 v3)

/-- `PutLengthPrefixedSlice`. -/
def putLengthPrefixedSlice (dst value : Bytes) : Bytes :=
  putVarint32 dst (UInt32.ofNat value.length) ++ value

/-- `PutLengthPrefixedSliceParts`. -/
def putLengthPrefixedSliceParts (dst : Bytes) (parts : List Bytes) : Bytes :=
  let totalBytes := parts.foldl (fun total part => total + part.length) 0
  parts.foldl (fun dst part => dst ++ part) (putVarint32 dst (UInt32.ofNat totalBytes))

/-! ## The routines that parse -/

/-- `GetFixed64`: the value, if there is one, and what the slice denotes then. -/
def getFixed64 (input : Bytes) : Option UInt64 × Bytes :=
  if input.length < 8 then (none, input) else (some (decodeFixed64 input), input.drop 8)

/-- `GetVarint32`. -/
def getVarint32 (input : Bytes) : Option UInt32 × Bytes :=
  match getVarint32Ptr input with
  | none => (none, input)
  | some (value, q) => (some value, q)

/-- `GetVarint64`. -/
def getVarint64 (input : Bytes) : Option UInt64 × Bytes :=
  match getVarint64Ptr input with
  | none => (none, input)
  | some (value, q) => (some value, q)

/-- `GetLengthPrefixedSlice`.  The length stays consumed when too little follows. -/
def getLengthPrefixedSlice (input : Bytes) : Option Bytes × Bytes :=
  match getVarint32 input with
  | (none, input) => (none, input)
  | (some len, input) =>
      if input.length ≥ len.toNat then (some (input.take len.toNat), input.drop len.toNat)
      else (none, input)

/-! ## Sequences of calls -/

/-- An item. -/
inductive Item
  | fixed64 (value : UInt64)
  | varint32 (value : UInt32)
  | varint64 (value : UInt64)
  | lengthPrefixedSlice (value : Bytes)
  deriving DecidableEq, Repr

/-- Which routine gets an item. -/
inductive Kind
  | fixed64
  | varint32
  | varint64
  | lengthPrefixedSlice
  deriving DecidableEq, Repr

def Item.kind : Item → Kind
  | .fixed64 _ => .fixed64
  | .varint32 _ => .varint32
  | .varint64 _ => .varint64
  | .lengthPrefixedSlice _ => .lengthPrefixedSlice

/-- A call of one of the routines that append.  A length prefix is a 32-bit number. -/
inductive Put
  | fixed64 (value : UInt64)
  | varint32 (v : UInt32)
  | varint32Varint32 (v1 v2 : UInt32)
  | varint32Varint32Varint32 (v1 v2 v3 : UInt32)
  | varint64 (v : UInt64)
  | varint64Varint64 (v1 v2 : UInt64)
  | varint32Varint64 (v1 : UInt32) (v2 : UInt64)
  | varint32Varint32Varint64 (v1 v2 : UInt32) (v3 : UInt64)
  | lengthPrefixedSlice (value : Bytes) (short : value.length < 2 ^ 32)
  | lengthPrefixedSliceParts (parts : List Bytes) (short : parts.flatten.length < 2 ^ 32)

/-- The items a call puts. -/
def Put.items : Put → List Item
  | .fixed64 value => [.fixed64 value]
  | .varint32 v => [.varint32 v]
  | .varint32Varint32 v1 v2 => [.varint32 v1, .varint32 v2]
  | .varint32Varint32Varint32 v1 v2 v3 => [.varint32 v1, .varint32 v2, .varint32 v3]
  | .varint64 v => [.varint64 v]
  | .varint64Varint64 v1 v2 => [.varint64 v1, .varint64 v2]
  | .varint32Varint64 v1 v2 => [.varint32 v1, .varint64 v2]
  | .varint32Varint32Varint64 v1 v2 v3 => [.varint32 v1, .varint32 v2, .varint64 v3]
  | .lengthPrefixedSlice value _ => [.lengthPrefixedSlice value]
  | .lengthPrefixedSliceParts parts _ => [.lengthPrefixedSlice parts.flatten]

/-- Make the call. -/
def put (dst : Bytes) : Put → Bytes
  | .fixed64 value => putFixed64 dst value
  | .varint32 v => putVarint32 dst v
  | .varint32Varint32 v1 v2 => putVarint32Varint32 dst v1 v2
  | .varint32Varint32Varint32 v1 v2 v3 => putVarint32Varint32Varint32 dst v1 v2 v3
  | .varint64 v => putVarint64 dst v
  | .varint64Varint64 v1 v2 => putVarint64Varint64 dst v1 v2
  | .varint32Varint64 v1 v2 => putVarint32Varint64 dst v1 v2
  | .varint32Varint32Varint64 v1 v2 v3 => putVarint32Varint32Varint64 dst v1 v2 v3
  | .lengthPrefixedSlice value _ => putLengthPrefixedSlice dst value
  | .lengthPrefixedSliceParts parts _ => putLengthPrefixedSliceParts dst parts

/-- Make calls one after another. -/
def putAll (dst : Bytes) (puts : List Put) : Bytes := puts.foldl put dst

/-- Get an item of a kind. -/
def get : Kind → Bytes → Option Item × Bytes
  | .fixed64, input => ((getFixed64 input).1.map .fixed64, (getFixed64 input).2)
  | .varint32, input => ((getVarint32 input).1.map .varint32, (getVarint32 input).2)
  | .varint64, input => ((getVarint64 input).1.map .varint64, (getVarint64 input).2)
  | .lengthPrefixedSlice, input =>
      ((getLengthPrefixedSlice input).1.map .lengthPrefixedSlice,
        (getLengthPrefixedSlice input).2)

/-- Get items one after another, up to the first call that fails. -/
def gets : List Kind → Bytes → Option (List Item) × Bytes
  | [], input => (some [], input)
  | kind :: kinds, input =>
      match get kind input with
      | (none, input) => (none, input)
      | (some item, input) => ((gets kinds input).1.map (item :: ·), (gets kinds input).2)

/-- The bytes of an item. -/
def Item.bytes : Item → Bytes
  | .fixed64 value => encodeFixed64 value
  | .varint32 value => encodeVarint32 value
  | .varint64 value => encodeVarint64 value
  | .lengthPrefixedSlice value => encodeVarint32 (UInt32.ofNat value.length) ++ value

/-- Its length fits into the prefix. -/
def Item.Short : Item → Prop
  | .lengthPrefixedSlice value => value.length < 2 ^ 32
  | _ => True

theorem getFixed64_encodeFixed64_append (value : UInt64) (rest : Bytes) :
    getFixed64 (encodeFixed64 value ++ rest) = (some value, rest) := by
  have enough : ¬(encodeFixed64 value ++ rest).length < 8 := by
    rw [List.length_append, length_encodeFixed64]
    omega
  rw [getFixed64, if_neg enough, decodeFixed64_encodeFixed64_append,
    List.drop_left' (length_encodeFixed64 value)]

theorem getVarint32_encodeVarint32_append (v : UInt32) (rest : Bytes) :
    getVarint32 (encodeVarint32 v ++ rest) = (some v, rest) := by
  rw [getVarint32, getVarint32Ptr_encodeVarint32_append]

theorem getVarint64_encodeVarint64_append (v : UInt64) (rest : Bytes) :
    getVarint64 (encodeVarint64 v ++ rest) = (some v, rest) := by
  rw [getVarint64, getVarint64Ptr_encodeVarint64_append]

theorem getLengthPrefixedSlice_append
    {value : Bytes}
    (short : value.length < 2 ^ 32)
    (rest : Bytes) :
    getLengthPrefixedSlice
        (encodeVarint32 (UInt32.ofNat value.length) ++ value ++ rest) =
      (some value, rest) := by
  have len : (UInt32.ofNat value.length).toNat = value.length := by
    rw [UInt32.toNat_ofNat']
    exact Nat.mod_eq_of_lt short
  have enough : (value ++ rest).length ≥ value.length := by
    rw [List.length_append]
    exact Nat.le_add_right _ _
  rw [getLengthPrefixedSlice, List.append_assoc, getVarint32_encodeVarint32_append]
  simp only [len, if_pos enough, List.take_left, List.drop_left]

/-- Each item is got back, whatever follows it. -/
theorem get_bytes_append
    {item : Item}
    (short : item.Short)
    (rest : Bytes) :
    get item.kind (item.bytes ++ rest) = (some item, rest) := by
  cases item with
  | fixed64 value =>
      rw [Item.kind, Item.bytes, get, getFixed64_encodeFixed64_append]
      rfl
  | varint32 value =>
      rw [Item.kind, Item.bytes, get, getVarint32_encodeVarint32_append]
      rfl
  | varint64 value =>
      rw [Item.kind, Item.bytes, get, getVarint64_encodeVarint64_append]
      rfl
  | lengthPrefixedSlice value =>
      rw [Item.kind, Item.bytes, get, getLengthPrefixedSlice_append short]
      rfl

theorem gets_bytes_append
    {items : List Item}
    (short : ∀ item ∈ items, item.Short)
    (rest : Bytes) :
    gets (items.map Item.kind) (items.flatMap Item.bytes ++ rest) = (some items, rest) := by
  induction items with
  | nil => rfl
  | cons item items inductionHypothesis =>
      have behind := inductionHypothesis fun other member =>
        short other (List.mem_cons_of_mem item member)
      rw [List.map_cons, List.flatMap_cons, List.append_assoc, gets,
        get_bytes_append (short item List.mem_cons_self)]
      simp only [behind, Option.map_some]

theorem foldl_append_parts (dst : Bytes) (parts : List Bytes) :
    parts.foldl (fun dst part => dst ++ part) dst = dst ++ parts.flatten := by
  induction parts generalizing dst with
  | nil => simp
  | cons part parts inductionHypothesis =>
      rw [List.foldl_cons, inductionHypothesis, List.flatten_cons, List.append_assoc]

theorem foldl_length_parts (total : Nat) (parts : List Bytes) :
    parts.foldl (fun total part => total + part.length) total =
      total + parts.flatten.length := by
  induction parts generalizing total with
  | nil => simp
  | cons part parts inductionHypothesis =>
      rw [List.foldl_cons, inductionHypothesis, List.flatten_cons, List.length_append,
        Nat.add_assoc]

/-- A call appends the bytes of its items. -/
theorem put_eq (dst : Bytes) (call : Put) :
    put dst call = dst ++ call.items.flatMap Item.bytes := by
  cases call with
  | lengthPrefixedSliceParts parts short =>
      simp only [put, putLengthPrefixedSliceParts, putVarint32, foldl_length_parts,
        foldl_append_parts, Nat.zero_add]
      simp [Put.items, Item.bytes]
  | _ =>
      simp [put, Put.items, Item.bytes, putFixed64, putVarint32, putVarint32Varint32,
        putVarint32Varint32Varint32, putVarint64, putVarint64Varint64,
        putVarint32Varint64, putVarint32Varint32Varint64, putLengthPrefixedSlice]

theorem short_items (call : Put) : ∀ item ∈ call.items, item.Short := by
  cases call with
  | lengthPrefixedSlice value short => simpa [Put.items, Item.Short] using short
  | lengthPrefixedSliceParts parts short => simpa [Put.items, Item.Short] using short
  | _ => simp [Put.items, Item.Short]

theorem putAll_eq (dst : Bytes) (puts : List Put) :
    putAll dst puts = dst ++ (puts.flatMap Put.items).flatMap Item.bytes := by
  unfold putAll
  induction puts generalizing dst with
  | nil => simp
  | cons call puts inductionHypothesis =>
      rw [List.foldl_cons, inductionHypothesis, put_eq, List.append_assoc,
        List.flatMap_cons, List.flatMap_append]

/-- What any sequence of calls has put behind `dst` is got back item by item, and leaves
what follows.  The two encoders for varints agree, and `VarintLength` counts the bytes
of either. -/
theorem gets_putAll :
    (∀ (dst : Bytes) (puts : List Put) (rest : Bytes),
      ∃ encoded, putAll dst puts = dst ++ encoded ∧
        gets ((puts.flatMap Put.items).map Item.kind) (encoded ++ rest) =
          (some (puts.flatMap Put.items), rest)) ∧
    (∀ v : UInt32, encodeVarint32 v = encodeVarint64 v.toUInt64 ∧
      varintLength v.toUInt64 = (encodeVarint32 v).length) ∧
    ∀ v : UInt64, varintLength v = (encodeVarint64 v).length := by
  refine ⟨fun dst puts rest => ?_, fun v => ?_, varintLength_eq⟩
  · refine ⟨_, putAll_eq dst puts, gets_bytes_append (fun item member => ?_) rest⟩
    obtain ⟨call, -, ofCall⟩ := List.mem_flatMap.mp member
    exact short_items call item ofCall
  · have same := encodeVarint32_eq_encodeVarint64 v
    exact ⟨same, by rw [varintLength_eq, same]⟩

example : putAll [] [.varint32Varint64 300 1, .lengthPrefixedSlice [7, 8] (by decide)] =
    [172, 2, 1, 2, 7, 8] := by
  simp [putAll, put, putVarint32Varint64, putLengthPrefixedSlice, putVarint32,
    encodeVarint64]
  decide

end Coding
end RocksUtil
