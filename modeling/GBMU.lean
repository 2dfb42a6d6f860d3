import GBMU.Lib.Machine
import GBMU.Lib.History
import GBMU.Lib.Bits
import GBMU.Lib.Outcome
import GBMU.Lib.BlockHeap
import GBMU.Lib.BankedMemory
import GBMU.Lib.BankedDevice
import GBMU.Common.Types
import GBMU.Common.Macro
import GBMU.Common.DBuffer
import GBMU.Config
import GBMU.Device.WRAM
import GBMU.Proof.BufferOwnership
import GBMU.Proof.WRAMBanks
import GBMU.Proof.WRAMEcho
import GBMU.Device.VRAM
import GBMU.Proof.VRAMBanks
import GBMU.Lib.PriorityServer
import GBMU.Device.Interrupt
import GBMU.Proof.InterruptLines
import GBMU.Proof.InterruptSchedule
import GBMU.Device.Joypad
import GBMU.Proof.JoypadKeys
import GBMU.Proof.JoypadInterrupts
import GBMU.Proof.JoypadMatrix
import GBMU.Common.Clock
import GBMU.Lib.SaturatingClock
import GBMU.Proof.ClockPrices
import GBMU.Proof.RegisterWriteBack
import GBMU.Lib.BitField
import GBMU.Proof.BitFields
import GBMU.Proof.BitSets
import GBMU.Proof.LowestBit
import GBMU.Lib.ReflectedWalk
import GBMU.Proof.ClockRuns
import GBMU.Proof.JoypadUnlinked
import GBMU.Proof.JoypadLines
import GBMU.Proof.WRAMRelative
import GBMU.Proof.BufferFailure
import GBMU.Common.Contents
import GBMU.Proof.BufferContents
import GBMU.Device.ORAM
import GBMU.Device.Objects
import GBMU.Proof.DeviceObjects
import GBMU.Proof.DeviceIsolation
import GBMU.Lib.Observation
import GBMU.Proof.Observability
import GBMU.Proof.Noninterference
import GBMU.Lib.PriorityTraffic
import GBMU.Proof.InterruptTraffic
import GBMU.Proof.JoypadService
import GBMU.Lib.ClampedWalk
import GBMU.Proof.ClockExact
import GBMU.Proof.BitUpdates
import GBMU.Proof.MemoriesExact
import GBMU.Common.Addresses
import GBMU.Proof.BufferAddresses
