import NusaKernel.Kernel.Mutex
import NusaKernel.Kernel.Semaphore
import NusaKernel.Kernel.TimerWindow
import NusaKernel.Kernel.WaitTimeout
import NusaKernel.Kernel.PreemptTimer
import NusaKernel.Kernel.Join
import NusaKernel.Kernel.PortDelivery
import NusaKernel.Kernel.PortWakeup
import NusaKernel.Cbuf.Wakeup
import NusaKernel.Vm.PageConservation
import NusaKernel.Vm.PageOwnership
import NusaKernel.Klog.Recover
import NusaKernel.Klog.Rings
import NusaKernel.Bio.DefaultIo
import NusaKernel.Bio.References
import NusaKernel.Bcache.Transparent
import NusaKernel.Ptable.Failure
import NusaKernel.Fs.Lifetime
import NusaKernel.Tcp.Edge
import NusaKernel.Tcp.Lifetime
import NusaKernel.Tcp.Receive
import NusaKernel.Sysparam.Persist
import NusaKernel.Spifs.Persist
import NusaKernel.Minip.NetTimer
import NusaKernel.Minip.Transmit
import NusaKernel.Virtio.Block
import NusaKernel.Tftp.Tftp
import NusaKernel.Virtio.NineP
import NusaKernel.Heap.MiniheapContract
import NusaKernel.Heap.MiniheapTrim
import NusaKernel.Sysparam.Scan
import NusaKernel.Vm.FirstFit
import NusaKernel.Minip.Chksum
import NusaKernel.Fs.Memfs
import NusaKernel.Pci.Bridge
import NusaKernel.Libc.Memory
import NusaKernel.FixedPoint.FixedPoint
