import Libmacro.ActiveModifiers
import Libmacro.Blocking
import Libmacro.ContextChange
import Libmacro.DispatchLoop
import Libmacro.DispatcherHistory
import Libmacro.FlagCalls
import Libmacro.Inert
import Libmacro.Instances
import Libmacro.Playback
import Libmacro.Registries.Allocators
import Libmacro.Registries.InterruptSweep
import Libmacro.SelfInterrupt
import Libmacro.Serial.RoundTrip
import Libmacro.Serial.Vocabularies
import Libmacro.Sharing
import Libmacro.Threads.EnabledRegistered
import Libmacro.Threads.ExactCount
import Libmacro.Threads.FailedStart
import Libmacro.Threads.Handles
import Libmacro.Threads.InterruptAll
import Libmacro.Threads.InterruptAllTransient
import Libmacro.Threads.InterruptOnce
import Libmacro.Threads.Pass
import Libmacro.Threads.Pause
import Libmacro.Threads.PausedShutdown
import Libmacro.Threads.Queue
import Libmacro.Threads.Quiet
import Libmacro.Threads.SignalList
import Libmacro.Threads.Sticky
import Libmacro.TriggerModes
