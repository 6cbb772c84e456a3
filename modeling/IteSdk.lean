import IteSdk.AltCpu.PatternGen
import IteSdk.AltCpu.PatternGenRun
import IteSdk.AltCpu.RslMailbox
import IteSdk.AltCpu.RslPayload
import IteSdk.AltCpu.RslSlave
import IteSdk.AltCpu.RslSlaveStale
import IteSdk.AltCpu.SwUart
import IteSdk.AltCpu.SwUartReceive
import IteSdk.AsyncFile.File
import IteSdk.AsyncFile.FileInv
import IteSdk.AsyncFile.FileRun
import IteSdk.AsyncFile.MsgQ
import IteSdk.Ctrlboard.Backup
import IteSdk.Ctrlboard.BackupRun
import IteSdk.Ctrlboard.Config
import IteSdk.Ctrlboard.ConfigRoundTrip
import IteSdk.Ctrlboard.RestoreDir
import IteSdk.Ctrlboard.RestoreDirRun
import IteSdk.Ctrlboard.Storage
import IteSdk.Fat.NorCache
import IteSdk.Fat.NorCacheCoherent
import IteSdk.Fat.NorCacheFail
import IteSdk.Fat.NorCacheFailRun
import IteSdk.Fat.NorCacheFlat
import IteSdk.Fat.NorCacheThreads
import IteSdk.Fat.NorCacheThreadsAccess
import IteSdk.Fat.NorCacheThreadsRun
import IteSdk.Itc.BufferStream
import IteSdk.Itc.BufferStreamLock
import IteSdk.Itc.BufferStreamSeek
import IteSdk.Itc.ListStream
import IteSdk.Itc.ListStreamFifo
import IteSdk.Itc.ListStreamSeek
import IteSdk.Itc.Stream
import IteSdk.Itc.Tree
import IteSdk.Itc.TreeSwap
import IteSdk.Itc.Url
import IteSdk.Ith.Align
import IteSdk.Ith.CmdQ
import IteSdk.Ith.Utility
import IteSdk.Ith.Vmem
import IteSdk.Ith.VmemAlloc
import IteSdk.Ith.VmemRun
import IteSdk.Itp.Decompress
import IteSdk.Itp.DecompressRun
import IteSdk.Itp.Ir
import IteSdk.Itp.ItpNand
import IteSdk.Itp.ItpNor
import IteSdk.Itp.RtcAssist
import IteSdk.Itp.UartDma
import IteSdk.ItpFat.FatMount
import IteSdk.ItpFat.FatMountRun
import IteSdk.ItpFat.FatPartition
import IteSdk.ItpPosix.Cond
import IteSdk.ItpPosix.Thread
import IteSdk.ItpPosix.ThreadCreate
import IteSdk.ItpPosix.ThreadJoin
import IteSdk.ItpPosix.ThreadRun
import IteSdk.ItpPosix.ThreadTask
import IteSdk.ItpPosix.TimedWait
import IteSdk.Itu.Action
import IteSdk.Itu.ActionKept
import IteSdk.Itu.DelayQueue
import IteSdk.Itu.FlushRun
import IteSdk.Itu.FocusCycle
import IteSdk.Itu.FtDrawText
import IteSdk.Itu.ListBox
import IteSdk.Itu.MediaFileList
import IteSdk.Itu.SceneFocus
import IteSdk.Itu.TextBox
import IteSdk.Lib.BitMasks
import IteSdk.Lib.Bits
import IteSdk.Lib.Blocks
import IteSdk.Lib.Cells
import IteSdk.Lib.Chain
import IteSdk.Lib.Checked
import IteSdk.Lib.CircularList
import IteSdk.Lib.Counter
import IteSdk.Lib.CyclicOrder
import IteSdk.Lib.Decimal
import IteSdk.Lib.Dictionary
import IteSdk.Lib.DoublyLinked
import IteSdk.Lib.FirstBest
import IteSdk.Lib.FlatMemory
import IteSdk.Lib.Fuel
import IteSdk.Lib.KeyedList
import IteSdk.Lib.LinkedList
import IteSdk.Lib.ListReader
import IteSdk.Lib.Memory
import IteSdk.Lib.Outcome
import IteSdk.Lib.Packetiser
import IteSdk.Lib.Ring
import IteSdk.Lib.RingHeap
import IteSdk.Lib.SearchTree
import IteSdk.Lib.Threads
import IteSdk.Lib.Tiling
import IteSdk.Lib.Transition
import IteSdk.Lib.Volume
import IteSdk.Lib.XorRegister
import IteSdk.TsDemuxer.BitStreamKit
import IteSdk.TsDemuxer.EitFilter
import IteSdk.TsDemuxer.ListSwap
import IteSdk.TsDemuxer.LocalTimeOffset
import IteSdk.TsDemuxer.Mbt
import IteSdk.TsDemuxer.MbtContext
import IteSdk.TsDemuxer.MbtDelete
import IteSdk.TsDemuxer.MbtInsert
import IteSdk.TsDemuxer.MbtRun
import IteSdk.TsDemuxer.MbtTree
import IteSdk.TsDemuxer.MbtVisit
import IteSdk.TsDemuxer.PatTable
import IteSdk.TsDemuxer.PesPacket
import IteSdk.TsDemuxer.PesPacketRun
import IteSdk.TsDemuxer.PesQueue
import IteSdk.TsDemuxer.PsiDate
import IteSdk.TsDemuxer.PsiPacket
import IteSdk.TsDemuxer.PsiPacketSafe
import IteSdk.TsDemuxer.PsiReassemble
import IteSdk.TsDemuxer.PsiReassembleRun
import IteSdk.TsDemuxer.PsiRedundant
import IteSdk.TsDemuxer.PsiSectionKit
import IteSdk.TsDemuxer.PsiTables
import IteSdk.TsDemuxer.PsiTablesSafe
import IteSdk.TsDemuxer.PsiTime
import IteSdk.TsDemuxer.PsiValid
import IteSdk.TsDemuxer.TsChannelList
import IteSdk.TsDemuxer.TsChannelMerge
import IteSdk.TsDemuxer.TsChannelRun
import IteSdk.TsDemuxer.TsPidFrame
import IteSdk.TsDemuxer.TsPidInvariant
import IteSdk.TsDemuxer.TsPidPat
import IteSdk.TsDemuxer.TsPidRun
import IteSdk.TsDemuxer.TsPidTable
import IteSdk.TsDemuxer.TsServiceList
import IteSdk.TsDemuxer.TsServiceMerge
import IteSdk.TsDemuxer.TsServiceRun
import IteSdk.TsDemuxer.TspSplit
import IteSdk.TsDemuxer.Utf8
import IteSdk.Tscam.CmdCollect
import IteSdk.Tscam.CmdGenerate
import IteSdk.Tscam.CmdGenerateSpec
import IteSdk.Tscam.CmdInside
import IteSdk.Tscam.CmdPkt
import IteSdk.Tscam.CmdQueue
import IteSdk.Tscam.CmdQueueRun
import IteSdk.Tscam.CmdRecovery
import IteSdk.Tscam.CmdRecoveryRun
import IteSdk.Tscam.CmdRoundTrip
import IteSdk.Tscam.RulesOutput
import IteSdk.Tscam.RulesOutputRoundTrip
import IteSdk.Tscam.StreamAnalyse
import IteSdk.Upgrade.Blocks
import IteSdk.Upgrade.Crc
import IteSdk.Upgrade.FileCrc
import IteSdk.Upgrade.FileCrcRun
import IteSdk.Upgrade.Mark
import IteSdk.Upgrade.Package
import IteSdk.Upgrade.PackageRun
import IteSdk.Upgrade.RawBackup
import IteSdk.Upgrade.RawBackupRun
import IteSdk.Upgrade.RawData
import IteSdk.Upgrade.RawDataSpec
import IteSdk.Xd.BinaryHeap
import IteSdk.Xd.BinaryHeapOrder
import IteSdk.Xd.BinaryHeapRun
import IteSdk.Xd.Card
import IteSdk.Xd.Ecc
import IteSdk.Xd.EccBits
import IteSdk.Xd.EccCorrect
import IteSdk.Xd.ReadMultiple
import IteSdk.Xd.TableChosen
import IteSdk.Xd.TableGenerated
import IteSdk.Xd.TableRecovery
import IteSdk.Xd.TranslationTable
