import Mathlib.Algebra.Order.BigOperators.Group.List
import Mathlib.Algebra.Order.Ring.Nat
import Mathlib.Data.List.Induction
import MiniGraph.Metrics

/-!
# The resource samples (`src/metrics.rs`)

One task takes a sample of the processor and of the memory at a time and records both. `Tally` says
what the three registers of a resource hold after any series of samples, `recordResourceSample` keeps
it, and `snapshot` reads its figures off the registers. The sum saturates sample by sample, while the
number of samples keeps growing: `Tally.sum` is the one clamp of the exact sum that this comes to.
-/

namespace MiniGraph

/-! ### The saturating sum -/

variable {current value : UInt64}

theorem toNat_saturatingAdd :
    (saturatingAdd current value).toNat = min (current.toNat + value.toNat) (2 ^ 64 - 1) := by
  unfold saturatingAdd
  split_ifs with h
  · rw [UInt64.toNat_add, Nat.mod_eq_of_lt h]
    omega
  · have htop : (UInt64.ofNat (2 ^ 64 - 1)).toNat = 2 ^ 64 - 1 := by decide
    rw [htop]
    omega

/-- `AtomicU64::compare_exchange_weak`: it may fail though `target` holds `current`, and hands back
what it found. -/
def compareExchangeWeak (spurious : Bool) (target current next : UInt64) : Except UInt64 UInt64 :=
  if target = current ∧ spurious = false then .ok next else .error target

/-- The loop of `saturating_fetch_add`, with `attempts` the attempts that fail for no reason, and the
value that it stores; `none` when it is still trying after them. Nobody else writes to `target`. -/
def saturatingFetchAddLoop (target value : UInt64) : List Bool → UInt64 → Option UInt64
  | [], _ => none
  | spurious :: attempts, current =>
    match compareExchangeWeak spurious target current (saturatingAdd current value) with
    | .ok stored => some stored
    | .error updated => saturatingFetchAddLoop target value attempts updated

def saturatingFetchAdd (attempts : List Bool) (target value : UInt64) : Option UInt64 :=
  saturatingFetchAddLoop target value attempts target

theorem saturatingFetchAdd_eq {attempts : List Bool} {target : UInt64} (h : false ∈ attempts) :
    saturatingFetchAdd attempts target value = some (saturatingAdd target value) := by
  unfold saturatingFetchAdd
  induction attempts with
  | nil => cases h
  | cons spurious attempts ih =>
    unfold saturatingFetchAddLoop compareExchangeWeak
    cases spurious with
    | false => simp
    | true =>
      have hrest : false ∈ attempts := by simpa using h
      simpa using ih hrest

/-! ### The registers of one resource -/

def exactSum (values : List UInt64) : Nat := (values.map UInt64.toNat).sum

/-- `max` is the greatest sample of the series, 0 of none. -/
structure IsMaximum (values : List UInt64) (max : UInt64) : Prop where
  ge : ∀ v ∈ values, v ≤ max
  mem : max ∈ values ∨ values = [] ∧ max = 0

/-- What the registers of a resource hold after the samples `values`. -/
structure Tally (values : List UInt64) (last sum max : UInt64) : Prop where
  last_eq : last = values.getLast?.getD 0
  sum_eq : sum.toNat = min (exactSum values) (2 ^ 64 - 1)
  isMaximum : IsMaximum values max

variable {values : List UInt64} {v last sum max samples : UInt64}

theorem exactSum_append_singleton : exactSum (values ++ [v]) = exactSum values + v.toNat := by
  simp [exactSum]

theorem IsMaximum.nil : IsMaximum [] 0 := ⟨by simp, .inr ⟨rfl, rfl⟩⟩

theorem IsMaximum.fetchMax (h : IsMaximum values max) : IsMaximum (values ++ [v]) (Max.max max v) := by
  have hmax : Max.max max v = if max ≤ v then v else max := rfl
  rw [hmax]
  split_ifs with hle
  · refine ⟨fun w hw => ?_, .inl (by simp)⟩
    rcases List.mem_append.1 hw with hw | hw
    · exact UInt64.le_trans (h.ge w hw) hle
    · rw [List.mem_singleton.1 hw]
      exact UInt64.le_refl v
  · have hlt : v ≤ max := (UInt64.le_total max v).resolve_left hle
    refine ⟨fun w hw => ?_, .inl ?_⟩
    · rcases List.mem_append.1 hw with hw | hw
      · exact h.ge w hw
      · rwa [List.mem_singleton.1 hw]
    · rcases h.mem with hmem | ⟨-, rfl⟩
      · exact List.mem_append_left _ hmem
      · exact absurd (UInt64.zero_le) hle

theorem IsMaximum.exactSum_le (h : IsMaximum values max) :
    exactSum values ≤ values.length * max.toNat := by
  have hle : ∀ n ∈ values.map UInt64.toNat, n ≤ max.toNat := by
    intro n hn
    obtain ⟨w, hw, rfl⟩ := List.mem_map.1 hn
    exact UInt64.le_iff_toNat_le.1 (h.ge w hw)
  have hsum := List.sum_le_card_nsmul _ _ hle
  rwa [List.length_map, Nat.nsmul_eq_mul] at hsum

namespace Tally

theorem nil : Tally [] 0 0 0 := ⟨rfl, rfl, .nil⟩

/-- One more sample: clamping the sum at every step comes to clamping it once. -/
theorem record (h : Tally values last sum max) :
    Tally (values ++ [v]) v (saturatingAdd sum v) (Max.max max v) := by
  refine ⟨by simp, ?_, h.isMaximum.fetchMax⟩
  rw [toNat_saturatingAdd, exactSum_append_singleton, h.sum_eq]
  omega

end Tally

/-! ### What a snapshot reports -/

/-- The figures reported of a series of samples: the last one, the average and the maximum. -/
structure Report (values : List UInt64) (last avg max : UInt64) : Prop where
  last_eq : last = values.getLast?.getD 0
  isMaximum : IsMaximum values max
  avg_eq : avg.toNat = if values = [] then 0 else min (exactSum values) (2 ^ 64 - 1) / values.length
  avg_le_max : avg ≤ max
  avg_le_mean : avg.toNat ≤ exactSum values / values.length
  avg_eq_mean : exactSum values < 2 ^ 64 → avg.toNat = exactSum values / values.length

/-- How `snapshot` computes an average. -/
def average (sum samples : UInt64) : UInt64 := if samples = 0 then 0 else sum / samples

theorem toNat_average : (average sum samples).toNat = sum.toNat / samples.toNat := by
  unfold average
  split_ifs with h
  · simp [h]
  · exact UInt64.toNat_div ..

theorem Tally.report (h : Tally values last sum max) (hsamples : samples.toNat = values.length) :
    Report values last (average sum samples) max := by
  have havg : (average sum samples).toNat = min (exactSum values) (2 ^ 64 - 1) / values.length := by
    rw [toNat_average, h.sum_eq, hsamples]
  have hmean : (average sum samples).toNat ≤ exactSum values / values.length :=
    havg ▸ Nat.div_le_div_right (Nat.min_le_left _ _)
  refine ⟨h.last_eq, h.isMaximum, ?_, ?_, hmean, fun hlt => ?_⟩
  · rw [havg]
    split_ifs with hnil
    · simp [hnil]
    · rfl
  · -- the exact mean is at most the maximum, and the average at most the exact mean
    have hle : exactSum values / values.length ≤ max.toNat :=
      Nat.div_le_of_le_mul h.isMaximum.exactSum_le
    exact UInt64.le_iff_toNat_le.2 (Nat.le_trans hmean hle)
  · rw [havg, Nat.min_eq_left (by omega)]

/-! ### The run of the sampler -/

structure ResourceSample where
  cpuUsageX100 : UInt64
  memoryBytes : UInt64
deriving DecidableEq, Repr

namespace Metrics

def record (m : Metrics) (sample : ResourceSample) : Metrics :=
  m.recordResourceSample sample.cpuUsageX100 sample.memoryBytes

/-- The metrics after the samples, recorded one after another from the start of the server. -/
def recordAll (samples : List ResourceSample) : Metrics := samples.foldl record {}

/-- The registers of both resources after the samples. -/
structure Recorded (samples : List ResourceSample) (m : Metrics) : Prop where
  total : m.serverSamplesTotal = UInt64.ofNat samples.length
  cpu : Tally (samples.map (·.cpuUsageX100)) m.serverCpuUsageX100 m.serverCpuUsageX100Sum
    m.serverCpuUsageX100Max
  memory : Tally (samples.map (·.memoryBytes)) m.serverMemoryBytes m.serverMemoryBytesSum
    m.serverMemoryBytesMax

variable {samples : List ResourceSample} {m : Metrics}

theorem Recorded.record (h : Recorded samples m) (sample : ResourceSample) :
    Recorded (samples ++ [sample]) (m.record sample) := by
  refine ⟨?_, ?_, ?_⟩
  · show m.serverSamplesTotal + 1 = _
    rw [h.total, List.length_append, List.length_singleton, UInt64.ofNat_add]
    rfl
  · rw [List.map_append]
    exact h.cpu.record
  · rw [List.map_append]
    exact h.memory.record

theorem recorded_recordAll (samples : List ResourceSample) : Recorded samples (recordAll samples) := by
  induction samples using List.reverseRecOn with
  | nil => exact ⟨rfl, .nil, .nil⟩
  | append_singleton samples sample ih =>
    unfold recordAll at ih ⊢
    rw [List.foldl_append]
    exact ih.record sample

/-- What a snapshot reports after fewer than `2 ^ 64` samples. -/
theorem snapshot_recordAll (samples : List ResourceSample) (h : samples.length < 2 ^ 64) :
    (recordAll samples).snapshot.serverSamplesTotal.toNat = samples.length ∧
    Report (samples.map (·.cpuUsageX100)) (recordAll samples).snapshot.serverCpuUsageX100
      (recordAll samples).snapshot.serverCpuUsageX100Avg
      (recordAll samples).snapshot.serverCpuUsageX100Max ∧
    Report (samples.map (·.memoryBytes)) (recordAll samples).snapshot.serverMemoryBytes
      (recordAll samples).snapshot.serverMemoryBytesAvg
      (recordAll samples).snapshot.serverMemoryBytesMax := by
  have hrec := recorded_recordAll samples
  have htotal : (recordAll samples).serverSamplesTotal.toNat = samples.length := by
    rw [hrec.total]
    exact UInt64.toNat_ofNat_of_lt' h
  refine ⟨htotal, ?_, ?_⟩
  · exact hrec.cpu.report (htotal.trans (List.length_map _).symm)
  · exact hrec.memory.report (htotal.trans (List.length_map _).symm)

/-- The sum is past the top of a word: two full samples have the average of one. -/
theorem snapshot_recordAll_saturated :
    (recordAll [⟨3, UInt64.ofNat (2 ^ 64 - 1)⟩, ⟨4, 5⟩]).snapshot.serverMemoryBytesAvg.toNat =
      (2 ^ 64 - 1) / 2 := by
  have h := (snapshot_recordAll [⟨3, UInt64.ofNat (2 ^ 64 - 1)⟩, ⟨4, 5⟩] (by decide)).2.2.avg_eq
  rw [h]
  decide +kernel

end Metrics
end MiniGraph
