import KernelRocks.BarrierMachineProofs
import KernelRocks.BarrierOwnershipProofs
import KernelRocks.LockOrderProofs
import KernelRocks.BarrierDeadlockProofs
import KernelRocks.BarrierRoundProofs
import KernelRocks.BarrierTotalProofs
import KernelRocks.BarrierWakeupProofs
import KernelRocks.BarrierDestroyProofs
import KernelRocks.BarrierSequentialProofs
import KernelRocks.BarrierSoloProofs
import KernelRocks.BarrierIdsProofs
import KernelRocks.BarrierFindProofs
import KernelRocks.BarrierManagerProofs
import KernelRocks.BarrierTendedProofs
import KernelRocks.BarrierSyscallProofs
import KernelRocks.BarrierReleaseProofs
import KernelRocks.BarrierProgressProofs
import KernelRocks.BarrierTestProofs
import KernelRocks.BarrierTestPlacesProofs
import KernelRocks.BarrierTestRoundsProofs
import KernelRocks.BarrierTestRestProofs
import KernelRocks.Ht530TableProofs
import KernelRocks.Ht530UserProofs
import KernelRocks.Ht530HeapProofs
import KernelRocks.Ht530TestProofs
import KernelRocks.Ht530TestRestProofs
import KernelRocks.MprobeRingProofs
import KernelRocks.MprobeWriteProofs
import KernelRocks.MprobeRestProofs
import KernelRocks.HcSr04DeviceProofs
import KernelRocks.HcSr04InterfaceProofs
import KernelRocks.HcSr04LockProofs
import KernelRocks.HcSr04PollProofs
import KernelRocks.HcSr04MachineProofs
import KernelRocks.HcSr04BufferProofs
import KernelRocks.HcSr04DeadlockProofs
import KernelRocks.HcSr04RestProofs
import KernelRocks.HcSr04DistanceProofs
import KernelRocks.HcSr04DriverProofs
import KernelRocks.HcSr04NodeProofs
import KernelRocks.HcSr04EnableProofs
import KernelRocks.HcSr04InterruptProofs
import KernelRocks.HcSr04IrqProofs
import KernelRocks.HcSr04HoldingProofs
import KernelRocks.HcSr04UndoProofs
import KernelRocks.HcSr04StoreProofs
import KernelRocks.HcSr04ShowProofs
import KernelRocks.HcSr04ModeProofs
import KernelRocks.HcSr04ReconfigureProofs
import KernelRocks.HcSr04SamplesProofs
import KernelRocks.HcSr04SendProofs
import KernelRocks.HcSr04SessionProofs
import KernelRocks.HcSr04ThreadProofs
