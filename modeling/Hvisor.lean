import Hvisor.Arch.Aarch64Switch
import Hvisor.Arch.BootTables
import Hvisor.Arch.CmdRing
import Hvisor.Arch.Dabt
import Hvisor.Arch.GuestPageFault
import Hvisor.Arch.LoongEmulation
import Hvisor.Arch.LoongMmio
import Hvisor.Arch.LoongPages
import Hvisor.Arch.LoongPaging
import Hvisor.Arch.LoongPresence
import Hvisor.Arch.LoongRefill
import Hvisor.Arch.LoongSpace
import Hvisor.Arch.LoongSwitch
import Hvisor.Arch.LoongWalk
import Hvisor.Arch.RiscvSwitch
import Hvisor.Arch.RiscvTimer
import Hvisor.Arch.S2pt
import Hvisor.Arch.Smmu
import Hvisor.Arch.SmmuSync
import Hvisor.Arch.StreamTable
import Hvisor.Arch.Sv39
import Hvisor.Boot
import Hvisor.Boot.Order
import Hvisor.Boot.Progress
import Hvisor.Config
import Hvisor.Cpu
import Hvisor.Error
import Hvisor.Event.Bus
import Hvisor.Event.Gic
import Hvisor.Event.Loongarch
import Hvisor.Event.Riscv
import Hvisor.Hypercall
import Hvisor.Irqchip.Completion
import Hvisor.Irqchip.DistDispatch
import Hvisor.Irqchip.Gich
import Hvisor.Irqchip.GichInjection
import Hvisor.Irqchip.Gits
import Hvisor.Irqchip.HartLines
import Hvisor.Irqchip.HostPlic
import Hvisor.Irqchip.Injection
import Hvisor.Irqchip.ListRegisters
import Hvisor.Irqchip.PlicInit
import Hvisor.Irqchip.Redist
import Hvisor.Irqchip.SoftIrq
import Hvisor.Irqchip.SpiRouting
import Hvisor.Irqchip.Vgicv2
import Hvisor.Irqchip.Vgicv3
import Hvisor.Irqchip.Vplic
import Hvisor.Irqchip.VplicAccess
import Hvisor.Ivc
import Hvisor.Ivc.ControlTable
import Hvisor.Ivc.Entries
import Hvisor.Ivc.Isolation
import Hvisor.Ivc.Joins
import Hvisor.Ivc.Peers
import Hvisor.Ivc.Rejoin
import Hvisor.Ivc.Runs
import Hvisor.Ivc.Windows
import Hvisor.Lib.BitMask
import Hvisor.Lib.BlockStore
import Hvisor.Lib.ByteMemory
import Hvisor.Lib.CountedArray
import Hvisor.Lib.FallibleLoop
import Hvisor.Lib.FirstFit
import Hvisor.Lib.Grants
import Hvisor.Lib.Ledger
import Hvisor.Lib.Mailbox
import Hvisor.Lib.OpcodeTable
import Hvisor.Lib.PairStack
import Hvisor.Lib.Progress
import Hvisor.Lib.RadixTree
import Hvisor.Lib.RegisterMachine
import Hvisor.Lib.Rendezvous
import Hvisor.Lib.RingBuffer
import Hvisor.Lib.SortedMap
import Hvisor.Lib.StartOnce
import Hvisor.Lib.TlbRefill
import Hvisor.Lib.TransitionSystem
import Hvisor.Lib.TreeGrowth
import Hvisor.Lib.WorldSwitch
import Hvisor.Lib.WrapRing
import Hvisor.Memory.AddressSpace
import Hvisor.Memory.BestEffort
import Hvisor.Memory.Cleared
import Hvisor.Memory.Clone
import Hvisor.Memory.Frame
import Hvisor.Memory.Frame16
import Hvisor.Memory.FrameAlign
import Hvisor.Memory.FrameOwners
import Hvisor.Memory.Growth
import Hvisor.Memory.Mappable
import Hvisor.Memory.MemorySet
import Hvisor.Memory.Mmio
import Hvisor.Memory.PageOps
import Hvisor.Memory.Paging
import Hvisor.Memory.PagingTree
import Hvisor.Memory.Recorded
import Hvisor.Memory.Region
import Hvisor.Memory.RegionMap
import Hvisor.Memory.Stage2Space
import Hvisor.Memory.Sv39Space
import Hvisor.Memory.TableCost
import Hvisor.Memory.Writes
import Hvisor.Pci.Bar
import Hvisor.Pci.BarMapping
import Hvisor.Pci.Init
import Hvisor.Pci.Isolation
import Hvisor.Pci.Phantom
import Hvisor.Virtio.CfgAccess
import Hvisor.Virtio.IrqLists
import Hvisor.Virtio.RequestRing
import Hvisor.Virtio.Trampoline
import Hvisor.Zone.CpuOn
import Hvisor.Zone.CpuOnOnce
import Hvisor.Zone.Create
import Hvisor.Zone.Effects
import Hvisor.Zone.HartStart
import Hvisor.Zone.HartWake
import Hvisor.Zone.IrqZones
import Hvisor.Zone.Lifecycle
import Hvisor.Zone.LoongMemory
import Hvisor.Zone.LoongRestart
import Hvisor.Zone.MemoryIsolation
import Hvisor.Zone.Mmio
import Hvisor.Zone.Overlap
import Hvisor.Zone.Ownership
import Hvisor.Zone.Quiescence
import Hvisor.Zone.RootPrivilege
import Hvisor.Zone.Sequential
import Hvisor.Zone.StartFailure
import Hvisor.Zone.Teardown
import Hvisor.Zone.TeardownPaths
import Hvisor.Zone.Traps
import Hvisor.Zone.Validation
import Hvisor.Zone.Virqs
import Hvisor.Zone.VirtioIrqs
