import Workforce.Duration
import Workforce.Failure

/-
  The settings of a pool. A pool keeps `core` workers, grows to at most `max`, lets workers
  above the core retire after `keepAlive`, and names its threads after `threadName`.
  `Config.validate` accepts a setting exactly when `Config.Valid` holds.
-/

namespace Workforce

/-- Sizing and lifecycle settings of a pool. -/
structure Config where
  /-- The least number of live workers, and the first parallelism limit. -/
  core : Nat
  /-- The most workers that may live at a time. -/
  max : Nat
  /-- How long a worker above the core may idle before it retires. -/
  keepAlive : Duration
  /-- Start of the worker thread names; empty for unnamed threads. -/
  threadName : String
  deriving Repr, DecidableEq

namespace Config

/-- The ceiling on live workers unless the core is larger. -/
def defaultMax : Nat := 1024

/-- The core size where the parallelism of the hardware is not known. -/
def fallbackCore : Nat := 8

def defaultThreadName : String := "tidepool-worker"

/-- The default settings around a core size. -/
def ofCore (core : Nat) : Config :=
  { core, max := Nat.max defaultMax core, keepAlive := ⟨60, 0⟩, threadName := defaultThreadName }

/-- What a pool needs of its settings. -/
structure Valid (c : Config) : Prop where
  core_pos : 0 < c.core
  core_le_max : c.core ≤ c.max
  nameable : '\x00' ∉ c.threadName.toList

/-- Checks the settings; of several faults the first in this order is reported. -/
def validate (c : Config) : Except Failure Unit := do
  Failure.requireSetting (0 < c.core) "self.core_pool_size > 0"
  Failure.requireSetting (c.core ≤ c.max) "self.max_pool_size >= self.core_pool_size"
  Failure.requireArgument (!c.threadName.toList.contains '\x00') "thread_name_prefix"
    "!self.thread_name_prefix.contains('\\0')"

/-- The name of the worker with a sequence number. -/
def workerName (c : Config) (seq : Nat) : Option String :=
  if c.threadName.isEmpty then none else some (c.threadName ++ "-" ++ toString seq)

theorem validate_ok_iff (c : Config) : c.validate = .ok () ↔ c.Valid := by
  constructor
  · intro h
    unfold validate Failure.requireSetting Failure.requireArgument at h
    by_cases h1 : 0 < c.core
    · by_cases h2 : c.core ≤ c.max
      · by_cases h3 : '\x00' ∈ c.threadName.toList
        · simp [h1, h2, h3, bind, Except.bind] at h
        · exact ⟨h1, h2, h3⟩
      · simp [h1, h2, bind, Except.bind] at h
    · simp [h1, bind, Except.bind] at h
  · intro h
    simp [validate, Failure.requireSetting, Failure.requireArgument, h.core_pos, h.core_le_max,
      h.nameable, bind, Except.bind]

end Config

end Workforce
