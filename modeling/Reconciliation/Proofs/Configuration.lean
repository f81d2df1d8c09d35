import Mathlib
import Reconciliation.CommandLine
import Reconciliation.Proofs.Documents
import Reconciliation.Proofs.Equipment
import Reconciliation.Proofs.Settings
import Reconciliation.Proofs.Utf8

/-!
# What a run is configured with

A setting is given by an option of the command line, by an entry of a document, or by neither
(`Setting.flag?`, `Setting.written?`).  The keys of a document are distinct, so what it gives a
setting does not depend on the order of its entries (`read_of_foldlM`), and the settings that a
command line asks for have the value of the option, else that of the document, else the default
(`Setting.value_overlay_of_document`).  Each zero among these gives way to a default, also the zero
of an option: `Setting.effective` does not look at what the document says then.

The components of a run are made for these values, which they take as they are, and keep them as
long as it lasts (`Engine.worksWith_of_reachable`).
-/

namespace Reconciliation

open Toml

/-! ### What a document says -/

/-- The entries of the consumer's settings: those of a table, or the items of an array under the
names in their order. -/
def Settings.consumerEntries : Value → Table
  | .table _ entries => entries
  | .inline entries => entries
  | .array items => consumerNames.zip items
  | .integer _ | .text _ | .boolean _ | .real _ | .moment _ | .series _ => []

/-- What a document holds for a setting. -/
def Setting.entry? (t : Table) (k : Setting) : Option Value :=
  if k.isConsumers then (t.get? "consumer").bind fun v => (Settings.consumerEntries v).get? k.key
  else t.get? k.key

section

variable {σ β : Type} {set : σ → String × Value → Option σ} {read : σ → β} {of : Value → Option β}
  {key : String}

/-- A quantity to which one key contributes, and once at most, is what the entry of that key makes
it. -/
theorem read_of_foldlM
    (hset : ∀ s name v s', set s (name, v) = some s' →
      if name = key then of v = some (read s') else read s' = read s)
    {t : Table} (hkeys : (t.map Prod.fst).Nodup) {s s' : σ} (h : t.foldlM set s = some s') :
  (∀ v, t.get? key = some v → of v = some (read s')) ∧ (t.get? key = none → read s' = read s)
  := by
  induction t generalizing s with
  | nil =>
    cases h
    refine ⟨fun v hv => ?_, fun _ => rfl⟩
    cases hv
  | cons entry t ih =>
    obtain ⟨name, v⟩ := entry
    rw [List.map_cons, List.nodup_cons] at hkeys
    obtain ⟨s₁, hs₁, h⟩ := Option.bind_eq_some_iff.1 h
    have hentry := hset s name v s₁ hs₁
    obtain ⟨hsome, hnone⟩ := ih hkeys.2 h
    split at hentry
    · next hname =>
      subst hname
      rw [Keyed.get?, List.lookup_cons_self]
      refine ⟨fun w hw => ?_, fun hnot => ?_⟩
      · cases hw
        rw [hentry, hnone (Keyed.get?_eq_none_iff.2 hkeys.1)]
      · cases hnot
    · next hname =>
      have hskip : Keyed.get? ((name, v) :: t) key = Keyed.get? t key := by
        simp [Keyed.get?, List.lookup_cons, beq_eq_false_iff_ne.2 (Ne.symm hname)]
      rw [hskip, ← hentry]
      exact ⟨hsome, hnone⟩

end

namespace Settings

variable {cpus : Nat} {s s' : Settings} {c c' : ConsumerSettings} {t : Table} {name : String}
  {v : Value} {k : Setting}

theorem integer?_of_natural? {n : Nat} (h : natural? v = some n) :
  integer? v = some (n : Int)
  := by
  cases v with
  | integer m =>
    rw [natural?] at h
    split at h
    · next hm =>
      cases h
      rw [integer?, Int.toNat_of_nonneg hm]
    · cases h
  | text | boolean | real | moment | array | inline | table | series => cases h

/-- One setting gets a value, and the others keep theirs. -/
theorem reads_of_update (own : Setting) {k : Setting} {old new : Setting → Int} {n : Int}
    (hv : integer? v = some n) (hnew : ∀ k, new k = if k = own then n else old k) :
  if own.key = k.key then integer? v = some (new k) else new k = old k
  := by
  rw [hnew]
  by_cases h : k = own
  · rw [if_pos h, h, if_pos rfl]
    exact hv
  · rw [if_neg h, if_neg fun hkey => h (Setting.key_injective hkey).symm]

/-- An entry of a document gives its setting a value, or the consumer's settings theirs, and leaves
the others. -/
theorem reads_of_set? (cpus : Nat) (h : set? s (name, v) = some s') :
  (∀ k : Setting, k.isConsumers = false →
    if name = k.key then integer? v = some (k.value cpus s')
    else k.value cpus s' = k.value cpus s) ∧
  if name = "consumer" then consumer? v = some s'.consumer else s'.consumer = s.consumer
  := by
  unfold set? at h
  split at h
  · next heq =>
    cases heq
    obtain ⟨n, hn, rfl⟩ := Option.map_eq_some_iff.1 h
    exact ⟨fun k _ => reads_of_update .runnerCapacity (integer?_of_natural? hn)
      (by rintro ⟨⟩ <;> rfl), rfl⟩
  · next heq =>
    cases heq
    obtain ⟨n, hn, rfl⟩ := Option.map_eq_some_iff.1 h
    exact ⟨fun k _ => reads_of_update .busCapacity (integer?_of_natural? hn)
      (by rintro ⟨⟩ <;> rfl), rfl⟩
  · next heq =>
    cases heq
    obtain ⟨n, hn, rfl⟩ := Option.map_eq_some_iff.1 h
    exact ⟨fun k _ => reads_of_update .workerThreads (integer?_of_natural? hn)
      (by rintro ⟨⟩ <;> rfl), rfl⟩
  · next heq =>
    cases heq
    obtain ⟨n, hn, rfl⟩ := Option.map_eq_some_iff.1 h
    exact ⟨fun k _ => reads_of_update .stopTimeout (integer?_of_natural? hn)
      (by rintro ⟨⟩ <;> rfl), rfl⟩
  · next heq =>
    cases heq
    obtain ⟨c, hc, rfl⟩ := Option.map_eq_some_iff.1 h
    refine ⟨fun k hk => ?_, hc⟩
    cases k with
    | runnerCapacity | busCapacity | workerThreads | stopTimeout => rfl
    | workers | maxRetries | baseBackoff => cases hk
  · cases h

/-- An entry of the consumer's settings gives its setting a value, and leaves the others. -/
theorem reads_of_setConsumer? (cpus : Nat) (s : Settings) (k : Setting)
    (h : setConsumer? c (name, v) = some c') :
  if name = k.key then integer? v = some (k.value cpus { s with consumer := c' })
  else k.value cpus { s with consumer := c' } = k.value cpus { s with consumer := c }
  := by
  unfold setConsumer? at h
  split at h
  · next heq =>
    cases heq
    obtain ⟨n, hn, rfl⟩ := Option.map_eq_some_iff.1 h
    exact reads_of_update .workers (integer?_of_natural? hn) (by rintro ⟨⟩ <;> rfl)
  · next heq =>
    cases heq
    obtain ⟨n, hn, rfl⟩ := Option.map_eq_some_iff.1 h
    exact reads_of_update .maxRetries hn (by rintro ⟨⟩ <;> rfl)
  · next heq =>
    cases heq
    obtain ⟨n, hn, rfl⟩ := Option.map_eq_some_iff.1 h
    exact reads_of_update .baseBackoff (integer?_of_natural? hn) (by rintro ⟨⟩ <;> rfl)
  · cases h

theorem consumer?_eq_some (h : consumer? v = some c) :
  (consumerEntries v).foldlM setConsumer? {} = some c
  := by
  cases v with
  | table | inline | array => exact h
  | integer | text | boolean | real | moment | series => cases h

theorem nodup_consumerEntries (h : v.Distinct) :
  ((consumerEntries v).map Prod.fst).Nodup
  := by
  cases h with
  | inline hkeys | table hkeys => exact hkeys
  | @array items =>
    -- The names of a list are the first ones of the consumer's settings.
    rcases items with _ | ⟨_, _ | ⟨_, _ | ⟨_, _⟩⟩⟩
    all_goals exact of_decide_eq_true rfl
  | integer | text | boolean | real | moment | series => exact List.nodup_nil

/-- A setting of the consumer is a matter of the consumer's settings alone. -/
theorem value_consumer (hk : k.isConsumers) :
  k.value cpus s = k.value cpus { defaults with consumer := s.consumer }
  := by
  cases k with
  | workers | maxRetries | baseBackoff => rfl
  | runnerCapacity | busCapacity | workerThreads | stopTimeout => cases hk

/-- A setting has the value that the document gives it, or the default if the document gives it
none. -/
theorem reads_of_document (cpus : Nat) (ht : t.Distinct) (h : t.foldlM set? {} = some s)
    (k : Setting) :
  (∀ v, k.entry? t = some v → integer? v = some (k.value cpus s)) ∧
    (k.entry? t = none → k.value cpus s = k.value cpus defaults)
  := by
  rw [Setting.entry?]
  cases hk : k.isConsumers with
  | false => exact read_of_foldlM (fun _ _ _ _ h => (reads_of_set? cpus h).1 k hk) ht.keys h
  | true =>
    rw [value_consumer hk, if_pos rfl]
    obtain ⟨hsome, hnone⟩ :=
      read_of_foldlM (fun _ _ _ _ h => (reads_of_set? cpus h).2) ht.keys h
    cases hv : Keyed.get? t "consumer" with
    | none =>
      rw [hnone hv]
      refine ⟨fun v hv => ?_, fun _ => rfl⟩
      cases hv
    | some v =>
      have hc := consumer?_eq_some (hsome v hv)
      exact read_of_foldlM (fun _ _ _ _ => reads_of_setConsumer? cpus defaults k)
        (nodup_consumerEntries (ht.get? hv)) hc

end Settings

/-! ### The command line over the document over the defaults -/

namespace Setting

/-- The value that a document gives a setting. -/
def written? (t : Table) (k : Setting) : Option Int :=
  (k.entry? t).bind Settings.integer?

/-- The value that the command line gives a setting. -/
def flag? (a : Arguments) : Setting → Option Int
  | .runnerCapacity => a.runnerCapacity.map Int.ofNat
  | .busCapacity => a.busCapacity.map Int.ofNat
  | .workers => a.workers.map Int.ofNat
  | .maxRetries => a.maxRetries.map Int.ofNat
  | .baseBackoff => a.baseBackoffMillis.map Int.ofNat
  | .workerThreads => none
  | .stopTimeout => none

/-- The value that is asked for: that of the command line, else that of the document, else the
default. -/
def asked (cpus : Nat) (a : Arguments) (t : Table) (k : Setting) : Int :=
  ((k.flag? a).or (k.written? t)).getD (k.value cpus .defaults)

/-- The value that a run has: the value that is asked for, or the default if that is zero; but the
number of repeated calls is brought between zero and 64. -/
def effective (cpus : Nat) (a : Arguments) (t : Table) (k : Setting) : Int :=
  if k = .maxRetries then min 64 (max 0 (k.asked cpus a t))
  else if k.asked cpus a t = 0 then k.value cpus .defaults
  else k.asked cpus a t

variable {cpus : Nat} {a : Arguments} {s : Settings} {t : Table} {k : Setting}

theorem value_of_document (cpus : Nat) (ht : t.Distinct) (h : t.foldlM Settings.set? {} = some s)
    (k : Setting) :
  k.value cpus s = (k.written? t).getD (k.value cpus .defaults)
  := by
  obtain ⟨hsome, hnone⟩ := Settings.reads_of_document cpus ht h k
  rw [written?]
  cases hv : k.entry? t with
  | none => exact hnone hv
  | some v =>
    rw [Option.bind_some, hsome v hv]
    rfl

theorem natCast_getD (o : Option Nat) (n : Nat) :
  ((o.getD n : Nat) : Int) = (o.map Int.ofNat).getD n
  := by
  cases o with
  | none | some => rfl

theorem value_overlay (cpus : Nat) (a : Arguments) (s : Settings) (k : Setting) :
  k.value cpus (a.overlay s) = (k.flag? a).getD (k.value cpus s)
  := by
  cases k with
  | runnerCapacity | busCapacity | workers | baseBackoff => exact natCast_getD _ _
  | maxRetries | workerThreads | stopTimeout => rfl

/-- The settings of a run have the values that are asked for. -/
theorem value_overlay_of_document (cpus : Nat) (a : Arguments) (ht : t.Distinct)
    (h : t.foldlM Settings.set? {} = some s) (k : Setting) :
  k.value cpus (a.overlay s) = k.asked cpus a t
  := by
  rw [value_overlay, value_of_document cpus ht h, asked]
  cases k.flag? a with
  | none | some => rfl

/-- Normal settings have the values of the run, apart from the number of repeated calls. -/
theorem value_normalized_eq (hk : k ≠ .maxRetries) (hasked : k.value cpus s = k.asked cpus a t) :
  k.value cpus s.normalized = k.effective cpus a t
  := by
  rw [value_normalized, hasked, effective, if_neg hk, substitute_eq hk cpus,
    if_congr (isUsable_iff hk) rfl rfl, ite_not]

end Setting

namespace Arguments

/-- The document that the command line names, or one without entries if it names none. -/
def document? (a : Arguments) (files : Files) : Option Table :=
  match a.config with
  | none => some []
  | some path =>
    match files.readText path with
    | .ok text => Document.read? text
    | .error _ => none

variable {a : Arguments} {files : Files} {t : Table} {file : Settings}

theorem distinct_document (h : a.document? files = some t) :
  t.Distinct
  := by
  rw [document?] at h
  split at h
  · cases h
    exact Table.distinct_nil
  · split at h
    · exact Document.distinct_of_read? h
    · cases h

/-- No option of the command line is at odds with what the document holds. -/
theorem settings_of_document (ht : a.document? files = some t)
    (hfile : t.foldlM Settings.set? {} = some file) :
  a.settings files = .ok (a.overlay file)
  := by
  rw [document?] at ht
  rw [settings]
  cases hconfig : a.config with
  | none =>
    rw [hconfig] at ht
    cases ht
    cases hfile
    rfl
  | some path =>
    simp only [hconfig] at ht
    split at ht
    · next text htext =>
      have hread : Settings.ofText? text = some file := by
        rw [Settings.ofText?, ht, Option.bind_some, hfile]
      have hload : Settings.load files path = .ok file := by
        rw [Settings.load, htext]
        simp only [Settings.ofText, hread]
        rfl
      show (Settings.load files path).map a.overlay = .ok (a.overlay file)
      rw [hload]
      rfl
    · cases ht

end Arguments

/-! ### The components of a run -/

namespace Engine

/-- The components of a run have the values of its settings. -/
structure WorksWith (e : Engine) (value : Setting → Int) : Prop where
  slots : e.processor.runner.capacity = value .runnerCapacity
  room : e.processor.bus.capacity = value .busCapacity
  workers : e.pool.workers.length = value .workers
  retries : e.pool.plan.retries = value .maxRetries
  delay : e.pool.plan.delay = .ofMillis (value .baseBackoff).toNat

variable {cpus : Nat} {a : Arguments} {s : Settings} {t : Table} {e : Engine}

theorem plan_start (s : Settings) (ids : IdSource) (clock : Clock) (inputs : List Input) :
  (start s ids clock inputs).pool.plan = s.normalized.plan.normalized
  := rfl

theorem workers_start (s : Settings) (ids : IdSource) (clock : Clock) (inputs : List Input) :
  (start s ids clock inputs).pool.workers.length = s.normalized.plan.normalized.workers
  := by
  show ([] ++ List.map _ (List.map _ (List.range s.normalized.plan.normalized.workers))).length = _
  rw [List.nil_append, List.length_map, List.length_map, List.length_range]

theorem worksWith_start (ids : IdSource) (clock : Clock) (inputs : List Input)
    (hasked : ∀ k : Setting, k.value cpus s = k.asked cpus a t) :
  (start s ids clock inputs).WorksWith (Setting.effective cpus a t)
  := by
  have hvalue : ∀ k : Setting, k ≠ .maxRetries → k.value cpus s.normalized = k.effective cpus a t :=
    fun k hk => Setting.value_normalized_eq hk (hasked k)
  have hplan := (plan_start s ids clock inputs).trans s.plan_normalized
  constructor
  · rw [← hvalue .runnerCapacity (by decide)]
    exact congrArg Nat.cast s.runnerCapacity_normalized
  · rw [← hvalue .busCapacity (by decide)]
    exact congrArg Nat.cast s.busCapacity_normalized
  · rw [← hvalue .workers (by decide), workers_start, s.plan_normalized]
    rfl
  · rw [hplan]
    have hretries : max s.consumer.maxRetries 0 = max 0 (Setting.asked cpus a t .maxRetries) := by
      rw [← hasked .maxRetries, max_comm]
      rfl
    show ((min (min (max s.consumer.maxRetries 0).toNat 0xFFFFFFFF) 64 : Nat) : Int)
      = min 64 (max 0 (Setting.asked cpus a t .maxRetries))
    rw [hretries]
    omega
  · rw [hplan, ← hvalue .baseBackoff (by decide)]
    rfl

theorem WorksWith.of_isEquippedLike {e' : Engine} {value : Setting → Int} (h : e.WorksWith value)
    (he : e.IsEquippedLike e') :
  e'.WorksWith value
  where
    slots := (congrArg Nat.cast he.slots).trans h.slots
    room := (congrArg Nat.cast he.room).trans h.room
    workers := (congrArg Nat.cast he.workers).trans h.workers
    retries := (congrArg (fun p => (p.retries : Int)) he.plan).trans h.retries
    delay := (congrArg DeliveryPlan.delay he.plan).trans h.delay

theorem worksWith_of_reachable {ids : IdSource} {clock : Clock} {inputs : List Input}
    (hasked : ∀ k : Setting, k.value cpus s = k.asked cpus a t)
    (he : system.Reachable (start s ids clock inputs) e) :
  e.WorksWith (Setting.effective cpus a t)
  := (worksWith_start ids clock inputs hasked).of_isEquippedLike (isEquippedLike_of_reachable he)

end Engine

namespace Arguments

variable {cpus : Nat} {a : Arguments} {files : Files} {t : Table} {file : Settings}

/-- Every setting of a run is that of the command line, else that of the document, else the default,
and the default if that is zero; and notices are delivered again 64 times at most.  The components
of the run have these values from its start on.

Normal settings are the same when they are made normal again, usable values stay as they are, and
there is one warning for each value that is replaced.  Components have defaults of their own, and
those for the room on the bus and for the delay are others; but no normal setting gives way to
them. -/
theorem effective_configuration (hcpus : 0 < cpus) (ht : a.document? files = some t)
    (hfile : t.foldlM Settings.set? {} = some file) :
  (∃ s, a.settings files = .ok s ∧
    (∀ k : Setting, k ≠ .maxRetries → k.value cpus s.normalized = k.effective cpus a t) ∧
    s.normalized.stopTimeout = .ofMillis (Setting.effective cpus a t .stopTimeout).toNat ∧
    ∀ ids clock inputs e, Engine.system.Reachable (Engine.start s ids clock inputs) e →
      e.WorksWith (Setting.effective cpus a t)) ∧
  (∀ s : Settings,
    s.normalized.normalized = s.normalized ∧
    (∀ k : Setting, k.isUsable (k.value cpus s) → k.value cpus s.normalized = k.value cpus s) ∧
    s.warnings = (Setting.all.filter (Setting.isReplaced cpus s)).map (Setting.warning s) ∧
    s.normalized.warnings = [] ∧
    (Runner.ofCapacity s.normalized.runnerCapacity).capacity = s.normalized.runnerCapacity ∧
    (Bus.ofCapacity s.normalized.busCapacity).capacity = s.normalized.busCapacity ∧
    s.normalized.plan.normalized
      = { s.normalized.plan with retries := min s.normalized.plan.retries 64 }) ∧
  (∀ k, Setting.all.count k = 1) ∧
  (Bus.ofCapacity 0).capacity ≠ Settings.defaults.busCapacity ∧
  DeliveryPlan.usual.delay ≠ Settings.defaults.plan.delay
  := by
  have hasked := Setting.value_overlay_of_document cpus a (distinct_document ht) hfile
  have hvalue : ∀ k : Setting, k ≠ .maxRetries →
      k.value cpus (a.overlay file).normalized = k.effective cpus a t :=
    fun k hk => Setting.value_normalized_eq hk (hasked k)
  refine ⟨⟨a.overlay file, settings_of_document ht hfile, hvalue, ?_, ?_⟩, ?_, Setting.count_all,
    ?_, ?_⟩
  · rw [← hvalue .stopTimeout (by decide)]
    rfl
  · intro ids clock inputs e he
    exact Engine.worksWith_of_reachable hasked he
  · intro s
    refine ⟨s.normalized_normalized, ?_, s.warnings_eq hcpus, s.warnings_normalized,
      s.runnerCapacity_normalized, s.busCapacity_normalized, s.plan_normalized⟩
    intro k hk
    rw [Setting.value_normalized, if_pos hk]
  · decide
  · decide

/-- A command line that asks for no room on the bus, although the document asks for some. -/
def tuned : Arguments :=
  { inputs := ["a.csv"], config := some "tuned.toml", busCapacity := some 0
    baseBackoffMillis := some 7 }

/-- The document. -/
def tunedText : String :=
  "bus_capacity = 16\nworker_threads = 0\n[consumer]\nworkers = 2\nmax_retries = 5000000000\n"

/-- Files that all hold the document. -/
def tunedFiles : Files :=
  fun _ => .ok { bytes := Utf8.encodeString tunedText }

/-- The entries of the document. -/
def tunedTable : Table :=
  [("bus_capacity", .integer 16), ("worker_threads", .integer 0),
    ("consumer", .table .header [("workers", .integer 2), ("max_retries", .integer 5000000000)])]

/-- The settings of the document. -/
def tunedSettings : Settings :=
  { busCapacity := 16, workerThreads := some 0
    consumer := { workers := 2, maxRetries := 5000000000 } }

/-- There is room for 512 notices on the bus, although the document asks for 16: the zero of the
command line gives way to the default. -/
theorem effective_configuration_tuned :
  tuned.document? tunedFiles = some tunedTable ∧
  tunedTable.foldlM Settings.set? {} = some tunedSettings ∧
  (∃ s, tuned.settings tunedFiles = .ok s ∧
    ∀ ids clock inputs e, Engine.system.Reachable (Engine.start s ids clock inputs) e →
      e.WorksWith (Setting.effective 8 tuned tunedTable)) ∧
  Setting.all.map (Setting.effective 8 tuned tunedTable) = [10, 512, 8, 5000, 2, 64, 7]
  := by
  have hcpus : 0 < 8 := by decide
  have htext : tunedFiles.readText "tuned.toml" = .ok tunedText := by
    simp only [Files.readText, tunedFiles, Utf8.encodeString, Utf8.decodeString_encode,
      String.ofList_toList]
  have hread : tuned.document? tunedFiles = some tunedTable := by
    simp only [document?, tuned, htext]
    cbv
  have hfold : tunedTable.foldlM Settings.set? {} = some tunedSettings := by decide
  obtain ⟨⟨s, hs, -, -, hworks⟩, -⟩ := effective_configuration hcpus hread hfold
  exact ⟨hread, hfold, ⟨s, hs, hworks⟩, by decide⟩

end Arguments

end Reconciliation
