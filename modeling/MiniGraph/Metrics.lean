import Mathlib.Algebra.Group.Nat.Defs

/-!
# Metrics (`src/metrics.rs`)

The counters, each a 64-bit atomic: `fetch_add` wraps around, the sums of the samples saturate.
-/

namespace MiniGraph

structure Metrics where
  actorCmdDropsTotal : UInt64 := 0
  fanoutDropsTotal : UInt64 := 0
  walEventsConsumedTotal : UInt64 := 0
  walEventsDroppedTotal : UInt64 := 0
  walLagSeconds : UInt64 := 0
  walLsn : UInt64 := 0
  walSlotActive : UInt64 := 0
  walRetainedBytes : UInt64 := 0
  serverCpuUsageX100 : UInt64 := 0
  serverMemoryBytes : UInt64 := 0
  serverSamplesTotal : UInt64 := 0
  serverCpuUsageX100Sum : UInt64 := 0
  serverCpuUsageX100Max : UInt64 := 0
  serverMemoryBytesSum : UInt64 := 0
  serverMemoryBytesMax : UInt64 := 0
deriving DecidableEq, Repr

/-- `u64::saturating_add`, which is also what the loop of `saturating_fetch_add` ends with. -/
def saturatingAdd (current value : UInt64) : UInt64 :=
  if current.toNat + value.toNat < 2 ^ 64 then current + value else UInt64.ofNat (2 ^ 64 - 1)

namespace Metrics

def incActorCmdDrop (m : Metrics) : Metrics :=
  { m with actorCmdDropsTotal := m.actorCmdDropsTotal + 1 }

def incFanoutDrop (m : Metrics) : Metrics :=
  { m with fanoutDropsTotal := m.fanoutDropsTotal + 1 }

def incWalEventsConsumed (m : Metrics) : Metrics :=
  { m with walEventsConsumedTotal := m.walEventsConsumedTotal + 1 }

def incWalEventsDropped (m : Metrics) : Metrics :=
  { m with walEventsDroppedTotal := m.walEventsDroppedTotal + 1 }

def setWalLagSeconds (lagSeconds : UInt64) (m : Metrics) : Metrics :=
  { m with walLagSeconds := lagSeconds }

def setWalLsn (lsn : UInt64) (m : Metrics) : Metrics :=
  { m with walLsn := lsn }

def setWalSlotActive (active : Bool) (m : Metrics) : Metrics :=
  { m with walSlotActive := if active then 1 else 0 }

def setWalRetainedBytes (retainedBytes : UInt64) (m : Metrics) : Metrics :=
  { m with walRetainedBytes := retainedBytes }

def recordResourceSample (cpuUsageX100 memoryBytes : UInt64) (m : Metrics) : Metrics :=
  { m with
    serverCpuUsageX100 := cpuUsageX100
    serverMemoryBytes := memoryBytes
    serverSamplesTotal := m.serverSamplesTotal + 1
    serverCpuUsageX100Sum := saturatingAdd m.serverCpuUsageX100Sum cpuUsageX100
    serverCpuUsageX100Max := max m.serverCpuUsageX100Max cpuUsageX100
    serverMemoryBytesSum := saturatingAdd m.serverMemoryBytesSum memoryBytes
    serverMemoryBytesMax := max m.serverMemoryBytesMax memoryBytes }

end Metrics

structure MetricsSnapshot where
  actorCmdDropsTotal : UInt64
  fanoutDropsTotal : UInt64
  walEventsConsumedTotal : UInt64
  walEventsDroppedTotal : UInt64
  walLagSeconds : UInt64
  walLsn : UInt64
  walSlotActive : UInt64
  walRetainedBytes : UInt64
  serverSamplesTotal : UInt64
  serverCpuUsageX100 : UInt64
  serverCpuUsageX100Avg : UInt64
  serverCpuUsageX100Max : UInt64
  serverMemoryBytes : UInt64
  serverMemoryBytesAvg : UInt64
  serverMemoryBytesMax : UInt64
deriving DecidableEq, Repr

/-- The atomics that `snapshot` loads. -/
inductive Atomic where
  | actorCmdDropsTotal
  | fanoutDropsTotal
  | walEventsConsumedTotal
  | walEventsDroppedTotal
  | walLagSeconds
  | walLsn
  | walSlotActive
  | walRetainedBytes
  | serverCpuUsageX100
  | serverMemoryBytes
  | serverSamplesTotal
  | serverCpuUsageX100Sum
  | serverCpuUsageX100Max
  | serverMemoryBytesSum
  | serverMemoryBytesMax
deriving DecidableEq, Repr

def Metrics.load (m : Metrics) : Atomic → UInt64
  | .actorCmdDropsTotal => m.actorCmdDropsTotal
  | .fanoutDropsTotal => m.fanoutDropsTotal
  | .walEventsConsumedTotal => m.walEventsConsumedTotal
  | .walEventsDroppedTotal => m.walEventsDroppedTotal
  | .walLagSeconds => m.walLagSeconds
  | .walLsn => m.walLsn
  | .walSlotActive => m.walSlotActive
  | .walRetainedBytes => m.walRetainedBytes
  | .serverCpuUsageX100 => m.serverCpuUsageX100
  | .serverMemoryBytes => m.serverMemoryBytes
  | .serverSamplesTotal => m.serverSamplesTotal
  | .serverCpuUsageX100Sum => m.serverCpuUsageX100Sum
  | .serverCpuUsageX100Max => m.serverCpuUsageX100Max
  | .serverMemoryBytesSum => m.serverMemoryBytesSum
  | .serverMemoryBytesMax => m.serverMemoryBytesMax

/-- `Metrics::snapshot`, from what each of its loads returns: other tasks may take steps in between. -/
def snapshotOf (load : Atomic → UInt64) : MetricsSnapshot :=
  let samples := load .serverSamplesTotal
  { actorCmdDropsTotal := load .actorCmdDropsTotal
    fanoutDropsTotal := load .fanoutDropsTotal
    walEventsConsumedTotal := load .walEventsConsumedTotal
    walEventsDroppedTotal := load .walEventsDroppedTotal
    walLagSeconds := load .walLagSeconds
    walLsn := load .walLsn
    walSlotActive := load .walSlotActive
    walRetainedBytes := load .walRetainedBytes
    serverSamplesTotal := samples
    serverCpuUsageX100 := load .serverCpuUsageX100
    serverCpuUsageX100Avg := if samples = 0 then 0 else load .serverCpuUsageX100Sum / samples
    serverCpuUsageX100Max := load .serverCpuUsageX100Max
    serverMemoryBytes := load .serverMemoryBytes
    serverMemoryBytesAvg := if samples = 0 then 0 else load .serverMemoryBytesSum / samples
    serverMemoryBytesMax := load .serverMemoryBytesMax }

/-- The snapshot when nothing happens in between. -/
def Metrics.snapshot (m : Metrics) : MetricsSnapshot := snapshotOf m.load

end MiniGraph
