import EventBus.Bus.State
import EventBus.Config.Basic

/-!
The settings of a bus as a configuration has them.
-/

namespace EventBus

/-- A span in milliseconds; a started millisecond counts. -/
def Span.milliseconds (span : Span) : Nat := span.seconds * 1000 + (span.nanos + 999999) / 1000000

def Config.busSettings (config : Config) : Bus.Settings where
  workers := config.workers
  maxReplay := config.maxReplay
  consumerTimeout := config.consumerTimeout.milliseconds
  workersTimeout := config.workersTimeout.milliseconds

end EventBus
