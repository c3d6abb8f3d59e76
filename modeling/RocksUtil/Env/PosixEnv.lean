import RocksUtil.Env.Preallocation

/-!
# Opening a file for writing

`PosixEnv::NewWritableFile` chooses between three kinds of files by its options, and by
whether the disk of the first file that asks for a mapping supports fast allocation.
-/

namespace RocksUtil

/-- The fields of `EnvOptions` that the writing of a file depends on. -/
structure EnvOptions where
  /-- `use_mmap_writes`. -/
  useMmapWrites : Bool
  /-- `use_direct_writes`. -/
  useDirectWrites : Bool
  /-- `allow_fallocate`. -/
  allowFallocate : Bool
  /-- `fallocate_with_keep_size`. -/
  fallocateWithKeepSize : Bool
  /-- `bytes_per_sync`. -/
  bytesPerSync : Nat
  /-- `writable_file_max_buffer_size`. -/
  writableFileMaxBufferSize : Nat

namespace EnvOptions

/-- The defaults. -/
def default : EnvOptions where
  useMmapWrites := true
  useDirectWrites := false
  allowFallocate := true
  fallocateWithKeepSize := true
  bytesPerSync := 0
  writableFileMaxBufferSize := 1024 * 1024

end EnvOptions

/-- The files that `NewWritableFile` opens. -/
inductive PosixFile
  | mapped (file : PosixMmapFile)
  | direct (file : PosixWritableFile)
  | buffered (file : PosixWritableFile)

namespace PosixFile

/-- `SetPreallocationBlockSize`. -/
def setPreallocationBlockSize (size : Nat) : PosixFile → PosixFile
  | .mapped file => .mapped { file with preallocationBlockSize := size }
  | .direct file => .direct (file.setPreallocationBlockSize size)
  | .buffered file => .buffered (file.setPreallocationBlockSize size)

end PosixFile

/-- What the system does for a process that opens a file. -/
structure OpenCalls where
  /-- The text of the error of open(2), when it fails for good. -/
  openError : Option String
  /-- The same for the open(2) with `O_DIRECT`. -/
  openDirectError : Option String
  /-- `SupportsFastAllocate` of the file name. -/
  supportsFastAllocate : Bool
  /-- Where mmap(2) puts its regions. -/
  place : Nat → {address : Nat // 0 < address}
  /-- What the calls of write(2) or pwrite(2) on the file will do. -/
  writes : List SystemWrite
  /-- What the calls of a mapped file will return. -/
  calls : List (Option String)

/-- The state of `PosixEnv` that opening a file depends on. -/
structure PosixEnv.Opening where
  /-- `page_size_`. -/
  pageSize : Nat
  /-- `checkedDiskForMmap_`. -/
  checkedDiskForMmap : Bool
  /-- `forceMmapOff`. -/
  forceMmapOff : Bool
  powerOfTwo : pageSize.isPowerOfTwo

namespace PosixEnv.Opening

/-- The check of the disk is made once, for the first file that asks for a mapping. -/
def checkDiskForMmap
    (options : EnvOptions)
    (calls : OpenCalls)
    (env : PosixEnv.Opening) : PosixEnv.Opening :=
  if options.useMmapWrites && !env.checkedDiskForMmap then
    { env with
      checkedDiskForMmap := true
      forceMmapOff := env.forceMmapOff || !calls.supportsFastAllocate }
  else env

/-- `NewWritableFile`, with assertions off: a file for direct I/O takes the default options,
and those ask for a mapping, which the constructor of `PosixWritableFile` asserts that its
options do not. -/
def newWritableFile
    (fname : String)
    (options : EnvOptions)
    (calls : OpenCalls)
    (env : PosixEnv.Opening) : (Status × Option PosixFile) × PosixEnv.Opening :=
  match calls.openError with
  | some message => ((.IOError (fname ++ ": " ++ message), none), env)
  | none =>
      let env := env.checkDiskForMmap options calls
      if options.useMmapWrites && !env.forceMmapOff then
        ((.OK, some (.mapped (.new fname env.pageSize env.powerOfTwo
          options.allowFallocate options.fallocateWithKeepSize calls.place calls.calls))), env)
      else if options.useDirectWrites then
        match calls.openDirectError with
        | some message => ((.IOError (fname ++ ": " ++ message), none), env)
        | none =>
            ((.OK, some (.direct (.new fname EnvOptions.default.allowFallocate
              EnvOptions.default.fallocateWithKeepSize calls.writes))), env)
      else
        ((.OK, some (.buffered (.new fname options.allowFallocate
          options.fallocateWithKeepSize calls.writes))), env)

end PosixEnv.Opening
end RocksUtil
