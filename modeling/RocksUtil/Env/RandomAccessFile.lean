import RocksUtil.Env.PagedFile

/-!
# Files read at offsets

`RandomAccessFile` is an abstract class of the source; here it is the record of its
operations on an arbitrary state.  A `Read` may set its result to bytes in the scratch
space it is given, or to bytes elsewhere, and it may write to the scratch space in any
case.  `Serves` is said of a file whose reads never fail, and `Static` of one whose reads
may fail, but are right when they do not.
-/

namespace RocksUtil

/-- Bytes written at the start are found there. -/
theorem prefix_overwrite (contents data : Bytes) : data <+: overwrite contents 0 data := by
  rw [overwrite, List.take_zero, List.nil_append]
  exact List.prefix_append ..

/-- Writing inside of a file. -/
theorem overwrite_inside
    {contents : Bytes}
    {offset : Nat}
    (inFile : offset ≤ contents.length)
    (data : Bytes) :
    overwrite contents offset data =
      contents.take offset ++ data ++ contents.drop (offset + data.length) := by
  have noGap : offset - contents.length = 0 := by omega
  rw [overwrite, noGap, List.replicate_zero, List.append_nil]

theorem length_overwrite
    {contents data : Bytes}
    {offset : Nat}
    (fits : offset + data.length ≤ contents.length) :
    (overwrite contents offset data).length = contents.length := by
  rw [overwrite_inside (by omega)]
  simp only [List.length_append, List.length_take, List.length_drop]
  omega

/-- What a `Read` leaves behind. -/
structure ReadReply where
  /-- The status that is returned. -/
  status : Status
  /-- The bytes of `*result`. -/
  data : Bytes
  /-- `result->data() == scratch`. -/
  inScratch : Bool
  /-- What the scratch space holds. -/
  scratch : Bytes
  /-- The bytes in the scratch space are the first ones there. -/
  pointed : inScratch = true → data <+: scratch

/-- What the caller of a `Read` gets. -/
def ReadReply.outcome (reply : ReadReply) : Status × Bytes := (reply.status, reply.data)

/-- The operations of `RandomAccessFile` on a file state. -/
structure RandomAccessFile (φ : Type) where
  /-- `Read(offset, n, &result, scratch)`, or nothing if that does not return. -/
  read : (offset n : Nat) → (scratch : Bytes) → φ → Option (ReadReply × φ)
  /-- `ShouldForwardRawRequest`. -/
  shouldForwardRawRequest : Bool
  /-- `EnableReadAhead`. -/
  enableReadAhead : φ → φ

/-- The arguments of a `Read`. -/
structure ReadCall where
  /-- Where it starts. -/
  offset : Nat
  /-- How much it asks for. -/
  n : Nat
  /-- What the scratch space holds before. -/
  scratch : Bytes
  /-- There is room for all of it. -/
  room : n ≤ scratch.length

namespace ReadCall

/-- The bytes of the file that the call asks for. -/
def asked (contents : Bytes) (call : ReadCall) : Bytes :=
  (contents.drop call.offset).take call.n

end ReadCall

namespace RandomAccessFile

variable {φ : Type}

/-- One `Read` after another. -/
def run (F : RandomAccessFile φ) : List ReadCall → φ → Option (List ReadReply × φ)
  | [], file => some ([], file)
  | call :: calls, file => do
      let (reply, file) ← F.read call.offset call.n call.scratch file
      let (replies, file) ← F.run calls file
      return (reply :: replies, file)

theorem run_cons
    {F : RandomAccessFile φ}
    {call : ReadCall}
    {calls : List ReadCall}
    {file final : φ}
    {replies : List ReadReply}
    (runs : F.run (call :: calls) file = some (replies, final)) :
    ∃ reply next others,
      F.read call.offset call.n call.scratch file = some (reply, next) ∧
        F.run calls next = some (others, final) ∧ replies = reply :: others := by
  rw [run] at runs
  obtain ⟨⟨reply, next⟩, isRead, runs⟩ := Option.bind_eq_some_iff.mp runs
  obtain ⟨⟨others, last⟩, isRest, runs⟩ := Option.bind_eq_some_iff.mp runs
  cases runs
  exact ⟨reply, next, others, isRead, isRest, rfl⟩

/-- No read fails, and all deliver what the file holds. -/
structure Serves
    (F : RandomAccessFile φ)
    (contents : Bytes)
    (valid : φ → Prop) : Prop where
  read : ∀ offset n scratch file, valid file → n ≤ scratch.length →
    ∃ reply next, F.read offset n scratch file = some (reply, next) ∧
      reply.status.ok = true ∧ reply.data = (contents.drop offset).take n ∧
        reply.scratch.length = scratch.length ∧ valid next
  enableReadAhead : ∀ file, valid file → valid (F.enableReadAhead file)

/-- A read that returns OK delivers what the file holds.  A read that fails may leave
anything in the scratch space. -/
structure Static
    (F : RandomAccessFile φ)
    (contents : Bytes)
    (valid : φ → Prop) : Prop where
  read : ∀ offset n scratch file reply next, valid file → n ≤ scratch.length →
    F.read offset n scratch file = some (reply, next) →
      (reply.status.ok = true → reply.data = (contents.drop offset).take n) ∧
        reply.scratch.length = scratch.length ∧ valid next
  enableReadAhead : ∀ file, valid file → valid (F.enableReadAhead file)

theorem Serves.static
    {F : RandomAccessFile φ}
    {contents : Bytes}
    {valid : φ → Prop}
    (serves : F.Serves contents valid) : F.Static contents valid where
  enableReadAhead := serves.enableReadAhead
  read := by
    intro offset n scratch file reply next isValid room isRead
    obtain ⟨reply', next', isRead', -, exact, sameLength, isValid'⟩ :=
      serves.read offset n scratch file isValid room
    rw [isRead] at isRead'
    cases isRead'
    exact ⟨fun _ => exact, sameLength, isValid'⟩

/-- A run on a file whose reads do not fail. -/
theorem Serves.run
    {F : RandomAccessFile φ}
    {contents : Bytes}
    {valid : φ → Prop}
    (serves : F.Serves contents valid)
    (calls : List ReadCall)
    {file : φ}
    (isValid : valid file) :
    ∃ replies final, F.run calls file = some (replies, final) ∧ valid final ∧
      replies.map (fun reply => (reply.status.ok, reply.data)) =
        calls.map fun call => (true, call.asked contents) := by
  induction calls generalizing file with
  | nil => exact ⟨[], file, rfl, isValid, rfl⟩
  | cons call calls inductionHypothesis =>
      obtain ⟨reply, next, isRead, succeeds, exact, -, isValid'⟩ :=
        serves.read call.offset call.n call.scratch file isValid call.room
      obtain ⟨replies, final, isRest, isValid'', others⟩ := inductionHypothesis isValid'
      refine ⟨reply :: replies, final, ?_, isValid'', ?_⟩
      · rw [RandomAccessFile.run, isRead, Option.bind_eq_bind, Option.bind_some]
        dsimp only
        rw [isRest]
        rfl
      · rw [List.map_cons, List.map_cons, others, succeeds, exact]
        rfl

/-- Every call of a run is made in a state that it is fit for. -/
def Along
    (F : RandomAccessFile φ)
    (fit : ReadCall → φ → Prop) : List ReadCall → φ → Prop
  | [], _ => True
  | call :: calls, file =>
      fit call file ∧ ∀ reply next,
        F.read call.offset call.n call.scratch file = some (reply, next) →
          F.Along fit calls next

/-- The file of `contents` whose reads fill the scratch space and point elsewhere in
turn. -/
def inTurn (contents : Bytes) : RandomAccessFile Bool where
  read := fun offset n scratch fills =>
    let data := (contents.drop offset).take n
    some (if fills then
        ⟨.OK, data, true, overwrite scratch 0 data, fun _ => prefix_overwrite scratch data⟩
      else ⟨.OK, data, false, scratch, nofun⟩, !fills)
  shouldForwardRawRequest := false
  enableReadAhead := id

theorem inTurn_serves (contents : Bytes) :
    (inTurn contents).Serves contents fun _ => True where
  enableReadAhead := fun _ => id
  read := by
    intro offset n scratch fills _ room
    refine ⟨_, _, rfl, ?_⟩
    cases fills with
    | true =>
        refine ⟨rfl, rfl, length_overwrite ?_, trivial⟩
        rw [List.length_take]
        omega
    | false => exact ⟨rfl, rfl, rfl, trivial⟩

end RandomAccessFile
end RocksUtil
