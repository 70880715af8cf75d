import Aesd.Library.Machine
import Aesd.Library.Cut
import Aesd.Library.SlotRing
import Aesd.Library.Memory
import Aesd.Library.Word
import Aesd.Library.Separation
import Aesd.Library.Critical
import Aesd.Library.Section
import Aesd.Library.LinkChain
import Aesd.Kernel
import Aesd.CircularBuffer
import Aesd.CircularBufferSearch
import Aesd.Driver
import Aesd.DriverLock
import Aesd.CommandStore
import Aesd.DriverWrite
import Aesd.DriverHistory
import Aesd.DriverOwnership
import Aesd.DriverLeaks
import Aesd.DriverReaders
import Aesd.DriverRead
import Aesd.DriverSeek
import Aesd.DriverReach
import Aesd.DriverFaults
import Aesd.DriverPositions
import Aesd.FileWorker
import Aesd.ReceiveWindow
import Aesd.FileServer
import Aesd.FileStream
import Aesd.SeekCommand
import Aesd.SeekParser
import Aesd.Timestamp
import Aesd.DeviceWorker
import Aesd.DriverSession
import Aesd.SeekHarmless
import Aesd.DriverConcurrent
import Aesd.SeekBounds
import Aesd.DeviceDump
import Aesd.DeviceServer
import Aesd.DeviceService
import Aesd.ModeSimulation
import Aesd.FileMutex
import Aesd.Descriptors
import Aesd.Handover
import Aesd.TailQueue
import Aesd.ConnectionQueue
import Aesd.ModuleLifetime
import Aesd.Library.GrowingLog
import Aesd.Library.Codec
import Aesd.SharedFile
import Aesd.Shutdown
import Aesd.ServerProcess
import Aesd.Library.Client
import Aesd.DeviceCalls
import Aesd.LockedServer
import Aesd.FileService
