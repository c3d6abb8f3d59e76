import Mathlib.Data.List.Basic

/-!
# Byte strings and statuses

A `Slice` of the source is a pointer and a length into memory owned by someone
else; every operation modelled here only looks at the bytes it denotes, so a
slice is a byte string.  A `Status` is an error code with a message, and is
compared through its code.
-/

namespace RocksUtil

/-- The bytes a `Slice` or a `std::string` denotes. -/
abbrev Bytes := List UInt8

namespace Status

/-- Result codes of `Status`, in the order of the source. -/
inductive Code
  | ok
  | notFound
  | corruption
  | notSupported
  | invalidArgument
  | ioError
  | mergeInProgress
  | incomplete
  | shutdownInProgress
  | timedOut
  | aborted
  | busy
  | expired
  | tryAgain
  deriving DecidableEq, Repr

end Status

/-- A result code together with the message kept in `state_`. -/
structure Status where
  /-- The code `code()` returns. -/
  code : Status.Code
  /-- The message, empty for a success. -/
  state : String
  deriving DecidableEq, Repr

namespace Status

/-- `Status::OK()`. -/
def OK : Status := ⟨.ok, ""⟩

/-- `Status::Corruption(msg)`. -/
def Corruption (msg : String) : Status := ⟨.corruption, msg⟩

/-- `Status::NotSupported(msg)`. -/
def NotSupported (msg : String) : Status := ⟨.notSupported, msg⟩

/-- `Status::IOError(msg)`. -/
def IOError (msg : String) : Status := ⟨.ioError, msg⟩

/-- `Status::Incomplete(msg)`. -/
def Incomplete (msg : String) : Status := ⟨.incomplete, msg⟩

/-- `Status::ok()`: the code is `kOk`. -/
def ok (status : Status) : Bool := status.code == .ok

@[simp] theorem ok_OK : OK.ok = true := rfl

@[simp] theorem ok_Corruption (msg : String) : (Corruption msg).ok = false := rfl

@[simp] theorem ok_NotSupported (msg : String) :
    (NotSupported msg).ok = false := rfl

@[simp] theorem ok_IOError (msg : String) : (IOError msg).ok = false := rfl

@[simp] theorem ok_Incomplete (msg : String) : (Incomplete msg).ok = false := rfl

end Status

end RocksUtil
