import PCemWeb.Codegen.StackOpsExact
import PCemWeb.Codegen.EffectiveAddressModRm
import PCemWeb.Codegen.EffectiveAddressExact
import PCemWeb.Codegen.EffectiveAddress
import PCemWeb.Codegen.WasmShiftsExact
import PCemWeb.Codegen.WasmShifts
import PCemWeb.Lib.WasmStack
import PCemWeb.Codegen.CodeMasks
import PCemWeb.Codegen.OracleExact
import PCemWeb.Codegen.Oracle
import PCemWeb.Lib.UndoLog
import PCemWeb.Codegen.DeadUopsExact
import PCemWeb.Codegen.DeadUops
import PCemWeb.Atapi.BusModes
import PCemWeb.Atapi.CdDrive
import PCemWeb.Codegen.BlockDiscipline
import PCemWeb.Codegen.EvictListRuns
import PCemWeb.Codegen.ImmediatesExact
import PCemWeb.Codegen.StackOps
import PCemWeb.Codegen.MemBlocksExact
import PCemWeb.Codegen.PageTreeExact
import PCemWeb.Codegen.SlotDiscipline
import PCemWeb.Codegen.WasmBodyExact
import PCemWeb.Codegen.WasmModuleExact
import PCemWeb.Cpu.FlagsExact
import PCemWeb.Cpu.DivisionExact
import PCemWeb.Cpu.SegLoadAtomic
import PCemWeb.Devices.FlashExact
import PCemWeb.Devices.KeyboardAt
import PCemWeb.Devices.KeyboardStreams
import PCemWeb.Devices.SbDsp
import PCemWeb.Devices.RtcExact
import PCemWeb.Floppy.DiscImgExact
import PCemWeb.Ide.IdeBounds
import PCemWeb.Ide.BackEndServed
import PCemWeb.Ide.BusMasterExact
import PCemWeb.Ide.IdeErrors
import PCemWeb.Ide.TransferExact
import PCemWeb.Lib.LinkedList
import PCemWeb.Lib.Run
import PCemWeb.Lib.WrapRing
import PCemWeb.Interrupts.PicRuns
import PCemWeb.Memory.Bytewise
import PCemWeb.Memory.InvalidateExact
import PCemWeb.Memory.LookupTracked
import PCemWeb.Memory.MmuExact
import PCemWeb.Network.Ne2000Card
import PCemWeb.Network.Ne2000Safe
import PCemWeb.Network.Ne2000Rx
import PCemWeb.Network.NetRelayExact
import PCemWeb.Platform.AudioRingWrap
import PCemWeb.Platform.DiskCacheMoves
import PCemWeb.Platform.DiskExport
import PCemWeb.Platform.DiskMailboxExact
import PCemWeb.Platform.DiskPreload
import PCemWeb.Platform.DiskResident
import PCemWeb.Platform.DiskRing
import PCemWeb.Platform.DiskSession
import PCemWeb.Platform.DiskSnapshot
import PCemWeb.Platform.EmuThreadWaits
import PCemWeb.Platform.MidiStreamExact
import PCemWeb.Platform.NetRingExact
import PCemWeb.Web.DeepLink
import PCemWeb.Web.DeepLinkExact
import PCemWeb.Web.Geometry
import PCemWeb.Web.MediaLive
import PCemWeb.Web.MediaTokens
import PCemWeb.Timer.TimerQueue
import PCemWeb.Devices.Dma
import PCemWeb.Devices.DmaSteps
import PCemWeb.Devices.DmaBase
import PCemWeb.Devices.DmaLaw
import PCemWeb.Devices.DmaBlocks
import PCemWeb.Devices.Pit
import PCemWeb.Devices.PitLatch
import PCemWeb.Devices.PitExact
