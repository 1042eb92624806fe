import CryptixMiner.Lib.Loop
import CryptixMiner.Lib.Eager
import CryptixMiner.Lib.Words
import CryptixMiner.Lib.StepSystem
import CryptixMiner.Lib.StridedCopy
import CryptixMiner.Lib.TryLock
import CryptixMiner.Lib.Cyclic
import CryptixMiner.Lib.Grid
import CryptixMiner.Lib.Hex
import CryptixMiner.Lib.HexText
import CryptixMiner.Lib.Decimal
import CryptixMiner.Lib.Encoding
import CryptixMiner.Lib.Limbs
import CryptixMiner.Lib.KeyedMap
import CryptixMiner.Lib.Text
import CryptixMiner.Lib.Orbit
import CryptixMiner.Lib.BinaryPoly
import CryptixMiner.Lib.FermatFactors
import CryptixMiner.Lib.Xoshiro256
import CryptixMiner.Lib.Binary64
import CryptixMiner.Lib.Binary64Cells
import CryptixMiner.Lib.RankOne
import CryptixMiner.Lib.Keccak
import CryptixMiner.Lib.Sha3
import CryptixMiner.Lib.Blake3
import CryptixMiner.Machine
import CryptixMiner.Target
import CryptixMiner.Proto
import CryptixMiner.Pow.Hasher
import CryptixMiner.Pow.HeavyHash
import CryptixMiner.Pow.Xoshiro
import CryptixMiner.Pow.Generate
import CryptixMiner.Pow.PreMatrix
import CryptixMiner.Pow.State
import CryptixMiner.Pow.Header
import CryptixMiner.Kernel.Device
import CryptixMiner.Kernel.Primitives
import CryptixMiner.Kernel.HashMatrix
import CryptixMiner.Kernel.PreMatrix
import CryptixMiner.Kernel.Cuda
import CryptixMiner.Kernel.OpenCl
import CryptixMiner.Kernel.OpenClPrimitives
import CryptixMiner.Kernel.Memory
import CryptixMiner.Kernel.Xoshiro256StarStar
import CryptixMiner.Launch.Block
import CryptixMiner.Launch.FinalNonce
import CryptixMiner.Launch.OpenClUpload
import CryptixMiner.Launch.Nonce
import CryptixMiner.Launch.CudaWorker
import CryptixMiner.Launch.OpenClWorker
import CryptixMiner.Launch.OpenClBatch
import CryptixMiner.Watch.Channel
import CryptixMiner.Miner.Worker
import CryptixMiner.Miner.Template
import CryptixMiner.Miner.Solution
import CryptixMiner.Miner.Site
import CryptixMiner.Miner.Crew
import CryptixMiner.Miner.GpuPlan
import CryptixMiner.Miner.Xoshiro256StarStar
import CryptixMiner.Client.StratumCodec
import CryptixMiner.Client.Stratum
import CryptixMiner.Client.Session
import CryptixMiner.Client.ShareLock
import CryptixMiner.Client.Grpc
import CryptixMiner.Client.Submission
import CryptixMiner.Client.Rig
import CryptixMiner.Plugin.Autotune
import CryptixMiner.Cli
import CryptixMiner.Theorems.Target
import CryptixMiner.Theorems.DotProducts
import CryptixMiner.Theorems.DotProductRange
import CryptixMiner.Theorems.KernelAgrees
import CryptixMiner.Theorems.PreMatrix
import CryptixMiner.Theorems.HashMatrix
import CryptixMiner.Theorems.SharedMatrix
import CryptixMiner.Theorems.FinalNonce
import CryptixMiner.Theorems.WatchFreshness
import CryptixMiner.Theorems.WatchWakeup
import CryptixMiner.Theorems.WatchReceivers
import CryptixMiner.Theorems.WatchDelivery
import CryptixMiner.Theorems.Template
import CryptixMiner.Theorems.Solution
import CryptixMiner.Theorems.Site
import CryptixMiner.Theorems.CrewThreads
import CryptixMiner.Theorems.Crew
import CryptixMiner.Theorems.Shutdown
import CryptixMiner.Theorems.CrewSite
import CryptixMiner.Theorems.Submission
import CryptixMiner.Theorems.Rig
import CryptixMiner.Theorems.RigSession
import CryptixMiner.Theorems.GpuPlan
import CryptixMiner.Theorems.GpuPairs
import CryptixMiner.Theorems.LongJump
import CryptixMiner.Theorems.ThreadSeeds
import CryptixMiner.Theorems.MatrixSeed
import CryptixMiner.Theorems.RankColumns
import CryptixMiner.Theorems.RankCells
import CryptixMiner.Theorems.Generate
import CryptixMiner.Theorems.MatrixRank
import CryptixMiner.Theorems.CpuWorker
import CryptixMiner.Theorems.CpuWalk
import CryptixMiner.Theorems.ThreadNonces
import CryptixMiner.Theorems.DeviceHash
import CryptixMiner.Theorems.CudaLaunch
import CryptixMiner.Theorems.ThreadStreams
import CryptixMiner.Theorems.OpenClLaunch
import CryptixMiner.Theorems.OpenClBatch
import CryptixMiner.Theorems.Autotune
import CryptixMiner.Theorems.GpuWorker
import CryptixMiner.Theorems.ShareAccounting
import CryptixMiner.Theorems.ShareReplies
import CryptixMiner.Theorems.ShareLock
import CryptixMiner.Theorems.DevfundStratum
import CryptixMiner.Theorems.DevfundGrpc
import CryptixMiner.Theorems.Cli
import CryptixMiner.Theorems.Difficulty
import CryptixMiner.Theorems.Extranonce
import CryptixMiner.Theorems.OpenClUpload
import CryptixMiner.Theorems.Header
import CryptixMiner.Theorems.Keccak
import CryptixMiner.Theorems.Blake3
import CryptixMiner.Theorems.PowHashers
import CryptixMiner.Theorems.HashPrimitives
import CryptixMiner.Theorems.OpenClBuilds
