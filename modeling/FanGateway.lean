import FanGateway.Lib.Machine
import FanGateway.Lib.Buffer
import FanGateway.Lib.Crc
import FanGateway.Lib.BitwiseCrc
import FanGateway.Lib.Layout
import FanGateway.Lib.Preemptible
import FanGateway.Lib.Mutex
import FanGateway.Lib.Ring
import FanGateway.Lib.Snapshot
import FanGateway.Lib.Log
import FanGateway.Lib.Lifetime
import FanGateway.Modbus.Reply
import FanGateway.Stm32.Crc
import FanGateway.Stm32.Usart
import FanGateway.Stm32.Master
import FanGateway.Stm32.Polling
import FanGateway.Stm32.Isolation
import FanGateway.Stm32.Freshness
import FanGateway.Stm32.Indexes
import FanGateway.Stm32.Transceiver
import FanGateway.Malloc.Pool
import FanGateway.Malloc.Session
import FanGateway.Malloc.Preemption
import FanGateway.Malloc.Batch
import FanGateway.Arm.Private
import FanGateway.Arm.Demo
import FanGateway.Arm.Payload
import FanGateway.Arm.Length
import FanGateway.Arm.Reassembly
import FanGateway.Arm.HandOff
import FanGateway.Arm.Mutex
import FanGateway.Port.Mailbox
import FanGateway.Port.Timeout
import FanGateway.Port.Clock
import FanGateway.Enc28j60.Chip
import FanGateway.Enc28j60.Driver
import FanGateway.Enc28j60.Banks
import FanGateway.Enc28j60.Packet
import FanGateway.Enc28j60.Fifo
import FanGateway.Enc28j60.Init
import FanGateway.Enc28j60.Receive
import FanGateway.Enc28j60.Bus
import FanGateway.Enc28j60.Simulation
import FanGateway.Enc28j60.Flat
import FanGateway.Enc28j60.Transparency
import FanGateway.Enc28j60.Length
import FanGateway.Enc28j60.OnChip
import FanGateway.Enc28j60.Transmit
import FanGateway.Net.CommInit
import FanGateway.Malloc.Placement
import FanGateway.Malloc.Memory
import FanGateway.Malloc.Realloc
import FanGateway.Net.Startup
import FanGateway.Net.Pacing
import FanGateway.Net.Ethernet
import FanGateway.Net.Critical
import FanGateway.Net.Exhaustion
import FanGateway.Net.Gather
import FanGateway.Net.TcpClient
import FanGateway.Net.UdpDemo
import FanGateway.Gateways.Checksum
import FanGateway.Gateways.Agreement
import FanGateway.Stm32.Snapshot
import FanGateway.Stm32.Areas
import FanGateway.Lib.PriorityTable
import FanGateway.Kernel.Queue
import FanGateway.Kernel.State
import FanGateway.Kernel.Calls
import FanGateway.Kernel.Runs
import FanGateway.Kernel.Tasks
import FanGateway.Kernel.Frames
import FanGateway.Kernel.Scheduling
import FanGateway.Kernel.Messages
import FanGateway.Kernel.Timing
import FanGateway.Kernel.Refinement
import FanGateway.Kernel.Mailboxes
import FanGateway.Lib.OnesComplement
import FanGateway.Lwip.Checksum
import FanGateway.Lwip.Verification
import FanGateway.Lib.DeltaList
import FanGateway.Lwip.Timers
import FanGateway.Lib.RefCount
import FanGateway.Lwip.Pbuf
import FanGateway.Lwip.Ownership
import FanGateway.Lwip.Shortening
import FanGateway.Lwip.Packets
import FanGateway.Lib.Blocks
import FanGateway.Lwip.Heap
import FanGateway.Lwip.Blocks
import FanGateway.Lwip.HeapCalls
import FanGateway.Lwip.HeapRuns
import FanGateway.Lib.Stock
import FanGateway.Lwip.Pools
import FanGateway.Lwip.PoolRuns
import FanGateway.Lwip.Search
import FanGateway.Lwip.Copies
import FanGateway.Lwip.Chains
