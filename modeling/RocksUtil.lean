import RocksUtil.Log.BitFlips
import RocksUtil.Log.Salvage
import RocksUtil.Log.Tailing
import RocksUtil.Log.WriteFailures
import RocksUtil.Log.LogNumbers
import RocksUtil.Log.NoSplicing
import RocksUtil.Log.TailingFrom
import RocksUtil.Cache.Invariants
import RocksUtil.Cache.Lifetimes
import RocksUtil.Cache.StaleReads
import RocksUtil.Cache.Refinement
import RocksUtil.ThreadPool.Staffing
import RocksUtil.ThreadPool.Ledger
import RocksUtil.ThreadLocal.Isolation
import RocksUtil.ThreadLocal.Releases
import RocksUtil.File.Accounting
import RocksUtil.File.Retries
import RocksUtil.File.DirectIO
import RocksUtil.Env.MappedRegions
import RocksUtil.Coding.Items
import RocksUtil.Crc32c.Implementations
import RocksUtil.Log.Termination
import RocksUtil.Log.SingleWrites
import RocksUtil.Log.RecordOffsets
import RocksUtil.Log.UnknownTypes
import RocksUtil.Log.FalseAlarms
import RocksUtil.Env.LockExclusion
import RocksUtil.Env.SequentialReaders
import RocksUtil.Log.FailedReads
import RocksUtil.Log.MappedTailing
import RocksUtil.File.ReadaheadRandomAccessFile
import RocksUtil.File.Durability
import RocksUtil.File.RangeSyncs
import RocksUtil.File.Atomicity
import RocksUtil.Cache.TableMap
import RocksUtil.Cache.PoolShare
import RocksUtil.Coding.Malformed
import RocksUtil.Env.UniqueId
import RocksUtil.Random
import RocksUtil.Log.Bursts
import RocksUtil.Log.Emissions
import RocksUtil.ThreadPool.Retirement
import RocksUtil.Cache.Sharding
import RocksUtil.Logger.FailedRolls
import RocksUtil.Autovector.Refinement
import RocksUtil.Log.CrashSafety
import RocksUtil.Env.PosixEnv
import RocksUtil.Log.FileKinds
import RocksUtil.Library.PrimitiveRoot
import RocksUtil.RandomPeriod
import RocksUtil.Cache.Effects
import RocksUtil.Cache.Forgetting
import RocksUtil.Cache.Reports
import RocksUtil.ThreadPool.Liveness
import RocksUtil.ThreadPool.Shutdown
import RocksUtil.Cache.HashSlice
import RocksUtil.Env.WholeFiles
import RocksUtil.Library.ReleaseAcquire
import RocksUtil.SpinMutex
