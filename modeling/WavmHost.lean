import WavmHost.Runtime
import WavmHost.Vm
import WavmHost.Resolver
import WavmHost.Link
import WavmHost.MemoryAccess
import WavmHost.Calls
import WavmHost.Host
import WavmHost.Isolation
import WavmHost.System
import WavmHost.Separation
import WavmHost.Registration
import WavmHost.Memories
import WavmHost.Clones
import WavmHost.CallSafety
