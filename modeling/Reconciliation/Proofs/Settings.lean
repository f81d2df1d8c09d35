import Reconciliation.Bus
import Reconciliation.Proofs.Delays
import Reconciliation.Runner
import Reconciliation.Settings

/-!
# Normal settings

`Setting` lists the settings one by one, and `Setting.value` gives their values as integers, on a
machine with so many processors.  `Settings.normalized` replaces the values that are not usable
and no others (`Setting.value_normalized`).  So it changes nothing where all values are usable
(`Settings.normalized_of_isUsable`), in particular nothing of what it has made itself, and there is
one warning for each value that is replaced (`Settings.warnings_eq`).

What components do with values that they find unusable themselves is no concern of normal settings
(`Settings.plan_normalized`).
-/

namespace Reconciliation

/-- The settings, one by one. -/
inductive Setting where
  | runnerCapacity
  | busCapacity
  | workerThreads
  | stopTimeout
  | workers
  | maxRetries
  | baseBackoff
  deriving DecidableEq, Repr

namespace Setting

/-- All settings, in the order in which they are checked. -/
def all : List Setting :=
  [.runnerCapacity, .busCapacity, .workerThreads, .stopTimeout, .workers, .maxRetries, .baseBackoff]

/-- The settings of the consumer. -/
def isConsumers : Setting → Bool
  | .runnerCapacity | .busCapacity | .workerThreads | .stopTimeout => false
  | .workers | .maxRetries | .baseBackoff => true

/-- The key of a setting, in the table of the consumer if it is one of the consumer's. -/
def key : Setting → String
  | .runnerCapacity => "runner_capacity"
  | .busCapacity => "bus_capacity"
  | .workerThreads => "worker_threads"
  | .stopTimeout => "stop_timeout_ms"
  | .workers => "workers"
  | .maxRetries => "max_retries"
  | .baseBackoff => "base_backoff_ms"

/-- The name of a setting in the log. -/
def name : Setting → String
  | .workers => "consumer.workers"
  | .maxRetries => "consumer.max_retries"
  | .baseBackoff => "consumer.base_backoff_ms"
  | k => k.key

/-- The value of a setting on a machine with so many processors. -/
def value (cpus : Nat) (s : Settings) : Setting → Int
  | .runnerCapacity => s.runnerCapacity
  | .busCapacity => s.busCapacity
  | .workerThreads => s.workerThreads.getD cpus
  | .stopTimeout => s.stopTimeoutMillis
  | .workers => s.consumer.workers
  | .maxRetries => s.consumer.maxRetries
  | .baseBackoff => s.consumer.baseBackoffMillis

/-- A value that a run can work with: one from zero on for the number of repeated calls, and any
but zero for the others. -/
def isUsable (n : Int) : Setting → Bool
  | .maxRetries => 0 ≤ n
  | .runnerCapacity | .busCapacity | .workerThreads | .stopTimeout | .workers | .baseBackoff =>
    n != 0

/-- What stands in for a value that is not usable: no repeated calls, or the default. -/
def substitute (cpus : Nat) : Setting → Int
  | .maxRetries => 0
  | k => k.value cpus .defaults

/-- A value that gives way to another one. -/
def isReplaced (cpus : Nat) (s : Settings) (k : Setting) : Bool :=
  k.value cpus s.normalized != k.value cpus s

/-- What is logged where a value gives way. -/
def warning (s : Settings) : Setting → LogEntry
  | .maxRetries => .retriesDisabled s.consumer.maxRetries
  | .workerThreads => .settingReplaced (name .workerThreads) "0" "cpus"
  | k => .settingReplaced k.name "0" (k.value 0 .defaults).toNat.repr

theorem count_all (k : Setting) :
  all.count k = 1
  := by
  cases k with
  | runnerCapacity | busCapacity | workerThreads | stopTimeout | workers | maxRetries
  | baseBackoff => rfl

/-- The key of a setting tells which one it is. -/
theorem key_injective :
  Function.Injective key
  := by
  have hfind : ∀ k : Setting, all.find? (fun i => i.key == k.key) = some k := by
    intro k
    cases k with
    | runnerCapacity | busCapacity | workerThreads | stopTimeout | workers | maxRetries
    | baseBackoff => rfl
  intro j k h
  apply Option.some_injective
  rw [← hfind j, ← hfind k, h]

variable {n : Int} {k : Setting}

theorem isUsable_iff (hk : k ≠ .maxRetries) :
  k.isUsable n ↔ ¬ n = 0
  := by
  cases k with
  | maxRetries => exact absurd rfl hk
  | runnerCapacity | busCapacity | workerThreads | stopTimeout | workers | baseBackoff =>
    exact bne_iff_ne

theorem substitute_eq (hk : k ≠ .maxRetries) (cpus : Nat) :
  k.substitute cpus = k.value cpus .defaults
  := by
  cases k with
  | maxRetries => exact absurd rfl hk
  | runnerCapacity | busCapacity | workerThreads | stopTimeout | workers | baseBackoff => rfl

variable {cpus : Nat} {s : Settings}

theorem natCast_replaceZero (n default : Nat) :
  (Settings.replaceZero n default : Int) = if (n : Int) != 0 then (n : Int) else default
  := by
  rw [Settings.replaceZero]
  by_cases h : n = 0
  · simp [h]
  · simp [h]

/-- Values that are usable stay, and the others are replaced. -/
theorem value_normalized (cpus : Nat) (s : Settings) (k : Setting) :
  k.value cpus s.normalized
    = if k.isUsable (k.value cpus s) then k.value cpus s else k.substitute cpus
  := by
  cases k with
  | runnerCapacity | busCapacity | stopTimeout | workers | baseBackoff =>
    exact natCast_replaceZero _ _
  | maxRetries =>
    show max s.consumer.maxRetries 0
      = if decide (0 ≤ s.consumer.maxRetries) then s.consumer.maxRetries else 0
    by_cases h : 0 ≤ s.consumer.maxRetries
    · rw [if_pos (decide_eq_true h), max_eq_left h]
    · rw [if_neg (by simpa using h), max_eq_right (Int.le_of_not_le h)]
  | workerThreads =>
    show ((s.workerThreads.filter (· != 0)).getD cpus : Int)
      = if (s.workerThreads.getD cpus : Int) != 0 then (s.workerThreads.getD cpus : Int) else cpus
    cases s.workerThreads with
    | none => simp
    | some n =>
      by_cases h : n = 0
      · simp [h, Option.filter_some]
      · simp [h, Option.filter_some]

theorem isUsable_substitute (hcpus : 0 < cpus) (k : Setting) :
  k.isUsable (k.substitute cpus)
  := by
  cases k with
  | workerThreads =>
    show ((cpus : Int) != 0) = true
    simp only [bne_iff_ne, ne_eq]
    omega
  | runnerCapacity | busCapacity | stopTimeout | workers | maxRetries | baseBackoff => rfl

theorem isUsable_normalized (hcpus : 0 < cpus) (s : Settings) (k : Setting) :
  k.isUsable (k.value cpus s.normalized)
  := by
  rw [value_normalized]
  split
  · next h => exact h
  · exact isUsable_substitute hcpus k

/-- The values that give way are those that are not usable. -/
theorem isReplaced_eq (hcpus : 0 < cpus) (s : Settings) (k : Setting) :
  k.isReplaced cpus s = !k.isUsable (k.value cpus s)
  := by
  rw [isReplaced, value_normalized]
  cases h : k.isUsable (k.value cpus s) with
  | true => simp
  | false =>
    have hne : k.substitute cpus ≠ k.value cpus s := by
      intro heq
      have husable := isUsable_substitute hcpus k
      rw [heq, h] at husable
      cases husable
    simpa using hne

end Setting

namespace Settings

variable {cpus : Nat} {s : Settings}

theorem ne_zero_of_bne {n : Nat} (h : (n : Int) != 0) :
  n ≠ 0
  := by simpa using h

theorem replaceZero_of_bne {n : Nat} (h : (n : Int) != 0) (default : Nat) :
  replaceZero n default = n
  := if_neg (ne_zero_of_bne h)

/-- Settings whose values are usable stay as they are. -/
theorem normalized_of_isUsable (h : ∀ k : Setting, k.isUsable (k.value cpus s)) :
  s.normalized = s
  := by
  have hthreads : s.workerThreads.filter (· != 0) = s.workerThreads := by
    have husable := h .workerThreads
    cases hs : s.workerThreads with
    | none => rfl
    | some n =>
      have hn : n ≠ 0 := by
        simpa [Setting.isUsable, Setting.value, hs] using husable
      simp [hn, Option.filter_some]
  have hretries : max s.consumer.maxRetries 0 = s.consumer.maxRetries :=
    max_eq_left (of_decide_eq_true (h .maxRetries))
  rw [normalized, hthreads, hretries, replaceZero_of_bne (h .runnerCapacity),
    replaceZero_of_bne (h .busCapacity), replaceZero_of_bne (h .stopTimeout),
    replaceZero_of_bne (h .workers), replaceZero_of_bne (h .baseBackoff)]

theorem normalized_normalized (s : Settings) :
  s.normalized.normalized = s.normalized
  := normalized_of_isUsable (Setting.isUsable_normalized Nat.one_pos s)

theorem replacement_eq (field : String) (n : Nat) (default : String) :
  replacement field n default = if !((n : Int) != 0) then [.settingReplaced field "0" default] else []
  := by
  rw [replacement]
  by_cases h : n = 0
  · subst h
    rfl
  · simp [h]

/-- There is one warning for each value that is replaced. -/
theorem warnings_eq (hcpus : 0 < cpus) (s : Settings) :
  s.warnings = (Setting.all.filter (Setting.isReplaced cpus s)).map (Setting.warning s)
  := by
  have hcons : ∀ k l, ((k :: l).filter (Setting.isReplaced cpus s)).map (Setting.warning s)
      = (if !k.isUsable (k.value cpus s) then [k.warning s] else [])
        ++ (l.filter (Setting.isReplaced cpus s)).map (Setting.warning s) := by
    intro k l
    rw [List.filter_cons, Setting.isReplaced_eq hcpus]
    split
    · rfl
    · rfl
  have hthreads : (s.workerThreads.toList.flatMap fun n => replacement "worker_threads" n "cpus")
      = if !Setting.isUsable (Setting.value cpus s .workerThreads) .workerThreads
        then [Setting.warning s .workerThreads] else [] := by
    rw [Setting.value]
    cases s.workerThreads with
    | none =>
      rw [if_neg]
      · rfl
      · simp [Setting.isUsable, hcpus.ne']
    | some n => simp [replacement_eq, Setting.isUsable, Setting.warning, Setting.name, Setting.key]
  have hretries : (if s.consumer.maxRetries < 0 then [.retriesDisabled s.consumer.maxRetries] else [])
      = if !Setting.isUsable (Setting.value cpus s .maxRetries) .maxRetries
        then [Setting.warning s .maxRetries] else [] := by
    show _ = if !decide (0 ≤ s.consumer.maxRetries)
      then [LogEntry.retriesDisabled s.consumer.maxRetries] else []
    by_cases h : 0 ≤ s.consumer.maxRetries
    · rw [if_neg (Int.not_lt.2 h), decide_eq_true h]
      rfl
    · rw [if_pos (Int.not_le.1 h), decide_eq_false h]
      rfl
  rw [warnings, hthreads, hretries]
  simp only [Setting.all, hcons, replacement_eq, List.append_assoc, List.filter_nil, List.map_nil,
    List.append_nil]
  rfl

theorem warnings_normalized (s : Settings) :
  s.normalized.warnings = []
  := by
  have hkept : ∀ k ∈ Setting.all, ¬ Setting.isReplaced 1 s.normalized k := by
    intro k _
    rw [Setting.isReplaced_eq Nat.one_pos, Setting.isUsable_normalized Nat.one_pos]
    exact Bool.false_ne_true
  rw [warnings_eq Nat.one_pos, List.filter_eq_nil_iff.2 hkept, List.map_nil]

/-! ### Components -/

theorem runnerCapacity_normalized (s : Settings) :
  (Runner.ofCapacity s.normalized.runnerCapacity).capacity = s.normalized.runnerCapacity
  := if_neg (ne_zero_of_bne (Setting.isUsable_normalized Nat.one_pos s .runnerCapacity))

theorem busCapacity_normalized (s : Settings) :
  (Bus.ofCapacity s.normalized.busCapacity).capacity = s.normalized.busCapacity
  := max_eq_left <|
    Nat.pos_of_ne_zero (ne_zero_of_bne (Setting.isUsable_normalized Nat.one_pos s .busCapacity))

/-- Of the plan of normal settings, the workers of a pool change nothing but a number of repeated
calls above their cap. -/
theorem plan_normalized (s : Settings) :
  s.normalized.plan.normalized
    = { s.normalized.plan with retries := min s.normalized.plan.retries DeliveryPlan.retriesCap }
  := by
  have hworkers : s.normalized.plan.workers ≠ 0 :=
    ne_zero_of_bne (Setting.isUsable_normalized Nat.one_pos s .workers)
  have hmillis : s.normalized.consumer.baseBackoffMillis ≠ 0 :=
    ne_zero_of_bne (Setting.isUsable_normalized Nat.one_pos s .baseBackoff)
  have hdelay : s.normalized.plan.delay ≠ .zero :=
    Duration.ofMillis_ne_zero (Nat.pos_of_ne_zero hmillis)
  rw [DeliveryPlan.normalized, if_neg hworkers, if_neg hdelay]

end Settings

end Reconciliation
