import RadarRT.Lib.Lts
import RadarRT.Lib.Tally
import RadarRT.Lib.InPlace
import RadarRT.Lib.BitReversal
import RadarRT.Lib.Fourier
import RadarRT.Lib.Spectrum
import RadarRT.Lib.Periodic
import RadarRT.Lib.ReleaseAcquire
import RadarRT.Queue.ThreadSafeQueue
import RadarRT.Queue.Ledger
import RadarRT.Queue.Accounting
import RadarRT.Queue.EndOfStream
import RadarRT.Queue.Monitor
import RadarRT.Queue.WakeUps
import RadarRT.Queue.Release
import RadarRT.Queue.Outcomes
import RadarRT.System.Shared
import RadarRT.System.Threads
import RadarRT.System.Application
import RadarRT.System.Moves
import RadarRT.System.Phases
import RadarRT.System.Schedules
import RadarRT.System.Conservation
import RadarRT.System.Backlog
import RadarRT.System.Drain
import RadarRT.System.Refinement
import RadarRT.System.Ordering
import RadarRT.System.LogDrops
import RadarRT.System.Diagnostics
import RadarRT.System.Exceptions
import RadarRT.System.Pacing
import RadarRT.System.Schedulability
import RadarRT.System.LogFormat
import RadarRT.System.LogTail
import RadarRT.System.Liveness
import RadarRT.System.WeakMetrics
import RadarRT.System.WeakBacklog
import RadarRT.Threading.ManagedThread
import RadarRT.Threading.ShutdownToken
import RadarRT.Dsp.BitReversal
import RadarRT.Dsp.Fft
import RadarRT.Dsp.Pipeline
import RadarRT.Dsp.Ideal
import RadarRT.Dsp.Robustness
import RadarRT.Dsp.Tone
import RadarRT.Watchdog.Beats
import RadarRT.Watchdog.Monitored
import RadarRT.Watchdog.Verdicts
import RadarRT.Watchdog.Backpressure
import RadarRT.Watchdog.StallTest
import RadarRT.Watchdog.WeakMemory
import RadarRT.Watchdog.Hangs
import RadarRT.Realtime.RealtimeManager
import RadarRT.System.Process
import RadarRT.System.Waiting
import RadarRT.System.ExitStatus
import RadarRT.System.Detections
