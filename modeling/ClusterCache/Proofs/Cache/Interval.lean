/-
# The time between two sweeps

Settings keep the time between two sweeps as whole milliseconds in a signed word of 64 bits, and a time
that is no longer than zero means that there are no sweeps.  On the way into the word the milliseconds
are counted in 128 bits and cut to the largest word if there are too many of them; on the way out the
word is taken as an unsigned one.  Nothing wraps on either way (`Duration.toNat_millisWord`,
`Config.toInt_saturated`, `toNat_toUInt64_of_pos`), so the period is what was asked for, rounded down
(`Config.Asks.nanos_eq`).

Rounded down, a time shorter than a millisecond is zero.  So it is not only at zero that there are no
sweeps, but below a millisecond (`Builder.swept_from_millisecond`): half a millisecond makes the same
settings as none at all, and a cache that is never swept (`Builder.never_swept_half_millisecond`).
-/

import ClusterCache.Proofs.Cache.Builder

namespace ClusterCache

/-! ### Words -/

/-- A signed word above zero is the same as an unsigned one. -/
theorem toNat_toUInt64_of_pos {i : Int64} (h : 0 < i.toInt) : (i.toUInt64.toNat : Int) = i.toInt :=
  (BitVec.toInt_eq_toNat_of_lt (BitVec.toInt_pos_iff.1 h.le)).symm

/-- The whole milliseconds counted in 128 bits: those of the whole seconds, and those beyond them. -/
def Duration.millisWord (d : Duration) : BitVec 128 :=
  .ofNat 128 d.seconds * 1000 + .ofNat 128 (d.subsecondNanos / 1000000)

/-- 128 bits are enough for the milliseconds of the longest span. -/
theorem Duration.toNat_millisWord (d : Duration) : d.millisWord.toNat = d.millis := by
  have hlt := d.nanos_lt
  unfold millisWord millis seconds subsecondNanos
  unfold UInt64.size nanosPerSecond at *
  rw [BitVec.toNat_add, BitVec.toNat_mul, BitVec.toNat_ofNat, BitVec.toNat_ofNat,
    show (1000 : BitVec 128).toNat = 1000 from rfl]
  omega

namespace Config

variable {c : Config} {d e p : Duration}

/-- The shortest time between two sweeps that settings can tell. -/
def shortestPeriod : Duration := .ofMillis 1

/-- The longest time between two sweeps that settings can tell. -/
def longestPeriod : Duration := .ofMillis 0x7fffffffffffffff

/-- A count as a signed word, or the largest one if the count does not fit. -/
def saturated (n : BitVec 128) : Int64 :=
  if n.toNat ≤ longestPeriod.millis then .ofNat n.toNat else .maxValue

/-- The shortest period is a millisecond. -/
theorem nanos_shortestPeriod : shortestPeriod.nanos = 1000000 := by decide

/-- The longest period is as many milliseconds as the largest signed word. -/
theorem nanos_longestPeriod : longestPeriod.nanos = 0x7fffffffffffffff * 1000000 := by decide

/-- The milliseconds of the longest period fill the largest signed word. -/
theorem millis_longestPeriod : longestPeriod.millis = 0x7fffffffffffffff := by decide

/-- A saturated count is the least of the count and the largest word. -/
theorem toInt_saturated (n : BitVec 128) :
    (saturated n).toInt = min n.toNat longestPeriod.millis := by
  rw [saturated, millis_longestPeriod]
  split
  · rw [Int64.toInt_ofNat_of_lt (by omega), min_eq_left (by omega)]
  · rw [Int64.toInt_maxValue, min_eq_right (by omega)]
    rfl

/-! ### Into the settings and out of them -/

/-- Settings have no period exactly if their word is not positive. -/
theorem wakeUpInterval_eq_none_iff (c : Config) :
    c.wakeUpInterval = none ↔ c.wakeUpIntervalMillis.toInt ≤ 0 := by
  have hpos : 0 < c.wakeUpIntervalMillis ↔ 0 < c.wakeUpIntervalMillis.toInt :=
    Int64.lt_iff_toInt_lt
  rw [wakeUpInterval, ← not_lt, ← hpos]
  split
  · exact iff_of_false (Option.some_ne_none _) (not_not_intro ‹_›)
  · exact iff_of_true rfl ‹_›

/-- The period of settings is as many milliseconds as their word says. -/
theorem nanos_of_wakeUpInterval (h : c.wakeUpInterval = some p) :
    (p.nanos : Int) = c.wakeUpIntervalMillis.toInt * 1000000 := by
  have hpos : 0 < c.wakeUpIntervalMillis.toInt := by
    by_contra hle
    have hnone : c.wakeUpInterval = none := (wakeUpInterval_eq_none_iff c).2 (by omega)
    rw [hnone] at h
    cases h
  rw [wakeUpInterval] at h
  split at h
  · obtain rfl := Option.some.inj h
    rw [← toNat_toUInt64_of_pos hpos]
    rfl
  · cases h

/-- Times with the same whole milliseconds make the same settings. -/
theorem withWakeUpInterval_congr (c : Config) (h : d.millis = e.millis) :
    c.withWakeUpInterval d = c.withWakeUpInterval e := by
  rw [withWakeUpInterval, withWakeUpInterval, h]

/-- The settings ask for a sweep every `d`. -/
def Asks (c : Config) (d : Duration) : Prop := c.wakeUpIntervalMillis = saturated d.millisWord

/-- What is kept of a time is the count of its milliseconds, cut to the largest word. -/
theorem asks_withWakeUpInterval (c : Config) (d : Duration) : (c.withWakeUpInterval d).Asks d := by
  -- Both words hold the least of the count and the largest word, so nothing is left to wrap.
  rw [Asks, ← Int64.toInt_inj, toInt_saturated, d.toNat_millisWord, millis_longestPeriod]
  exact Int64.toInt_ofInt_of_le (by omega) (by omega)

/-- The word of settings is the least of what was asked for and the largest word. -/
theorem Asks.toInt_eq (h : c.Asks d) :
    c.wakeUpIntervalMillis.toInt = min d.millis longestPeriod.millis := by
  rw [h, toInt_saturated, d.toNat_millisWord]

/-- **There is no period exactly if less than the shortest one was asked for.** -/
theorem Asks.eq_none_iff (h : c.Asks d) :
    c.wakeUpInterval = none ↔ d.nanos < shortestPeriod.nanos := by
  rw [wakeUpInterval_eq_none_iff, h.toInt_eq, millis_longestPeriod, nanos_shortestPeriod,
    Duration.millis]
  omega

/-- **The period is the whole milliseconds that were asked for, or the longest one.** -/
theorem Asks.nanos_eq (h : c.Asks d) (hp : c.wakeUpInterval = some p) :
    p.nanos = min d.millis longestPeriod.millis * 1000000 := by
  have hnanos := nanos_of_wakeUpInterval hp
  rw [h.toInt_eq] at hnanos
  omega

/-- The period is not longer than what was asked for, and not a millisecond shorter, unless it is the
longest one. -/
theorem Asks.bounds (h : c.Asks d) (hp : c.wakeUpInterval = some p) :
    0 < p.nanos ∧ p.nanos ≤ d.nanos ∧
      min (d.nanos - shortestPeriod.nanos) longestPeriod.nanos ≤ p.nanos := by
  have hsome : ¬ d.nanos < shortestPeriod.nanos := by
    rw [← h.eq_none_iff, hp]
    exact Option.some_ne_none p
  have hnanos := h.nanos_eq hp
  rw [millis_longestPeriod, Duration.millis] at hnanos
  rw [nanos_shortestPeriod] at hsome ⊢
  rw [nanos_longestPeriod]
  omega

end Config

/-! ### A sweeper that was just started -/

namespace Controller

variable {config : Config} {controller : Controller}

/-- **How often a sweeper comes by in the time after its start**: as many times as its period goes into
that time, if there is a sweeper. -/
theorem elapse_start (h : create config = .ok controller) (window : Duration) :
    (controller.start.elapse window).1 =
      if config.order.isBounded then
        config.wakeUpInterval.elim 0 fun period => window.nanos / period.nanos
      else 0 := by
  obtain rfl := create_eq_ok h
  cases hbounded : config.order.isBounded <;> cases hperiod : config.wakeUpInterval <;>
    simp [start, elapse, hbounded, hperiod]

end Controller

/-! ### Settings gathered step by step -/

namespace Builder

variable {K V : Type} [DecidableEq K] [Hashable K] {b : Builder} {d : Duration}

/-- One thing that is chosen for a cache. -/
inductive Choice where
  | config (config : Config)
  | order (order : EvictionOrder)
  | wakeUpInterval (d : Duration)
  | lockStriping (useLockStriping : Bool)
  | shards (shards : Nat)

/-- The builder after a choice. -/
def choose (b : Builder) : Choice → Builder
  | .config config => b.withConfig config
  | .order order => b.withOrder order
  | .wakeUpInterval d => b.withWakeUpInterval d
  | .lockStriping useLockStriping => b.withLockStriping useLockStriping
  | .shards shards => b.withShards shards

/-- Whether a choice is about the time between two sweeps, alone or with all the other settings. -/
def Choice.setsInterval : Choice → Bool
  | .config _ | .wakeUpInterval _ => true
  | .order _ | .lockStriping _ | .shards _ => false

/-- A choice that is not about the period leaves it as it was asked for. -/
theorem asks_choose {choice : Choice} (h : b.config.Asks d) (hchoice : choice.setsInterval = false) :
    (b.choose choice).config.Asks d := by
  cases choice with
  | config _ => cases hchoice
  | wakeUpInterval _ => cases hchoice
  | order _ => exact h
  | lockStriping _ => exact h
  | shards _ => exact h

/-- What is asked for is kept by all choices that are not about it. -/
theorem asks_foldl_choose {later : List Choice} (h : b.config.Asks d)
    (hlater : ∀ choice ∈ later, choice.setsInterval = false) :
    (later.foldl choose b).config.Asks d := by
  induction later generalizing b with
  | nil => exact h
  | cons choice later ih =>
    rw [List.forall_mem_cons] at hlater
    exact ih (asks_choose h hlater.1) hlater.2

/-- **There are sweeps exactly from a millisecond on.**  A time between two sweeps was chosen, and
whatever was chosen later is not about it.  Then the settings have no period exactly if the time is
shorter than a millisecond.  Otherwise they have a period, which is not longer than that time, and
shorter by less than a millisecond or the longest one that a signed word tells.  A cache with a bound
that is built is never swept in the first case, and in the second one at least as often as was asked
for. -/
theorem swept_from_millisecond (b : Builder) (d : Duration) (later : List Choice)
    (hlater : ∀ choice ∈ later, choice.setsInterval = false) :
    let built := later.foldl choose (b.withWakeUpInterval d)
    (built.config.wakeUpInterval = none ↔ d.nanos < Config.shortestPeriod.nanos) ∧
    (∀ p, built.config.wakeUpInterval = some p → 0 < p.nanos ∧ p.nanos ≤ d.nanos ∧
      min (d.nanos - Config.shortestPeriod.nanos) Config.longestPeriod.nanos ≤ p.nanos) ∧
    ∀ (hash : K → UInt64) (c : Cache (built.config.strategy K) V),
      built.config.order ≠ .none → built.build K V hash = .ok c →
        (d.nanos < Config.shortestPeriod.nanos → ∀ window, (c.controller.elapse window).1 = 0) ∧
        (Config.shortestPeriod.nanos ≤ d.nanos →
          ∀ window : Duration, window.nanos / d.nanos ≤ (c.controller.elapse window).1) := by
  intro built
  have hasks : built.config.Asks d :=
    asks_foldl_choose (b.config.asks_withWakeUpInterval d) hlater
  refine ⟨hasks.eq_none_iff, fun p hp => hasks.bounds hp, ?_⟩
  intro hash c hbounded hbuild
  obtain ⟨controller, hcontroller, hcreate⟩ := build_eq_ok hbuild
  have hsweeps window := (Controller.elapse_start hcontroller window).trans
    (if_pos (decide_eq_true hbounded))
  rw [(Cache.create_eq_ok hcreate).2.2]
  refine ⟨fun hshort window => ?_, fun hlong window => ?_⟩
  · rw [hsweeps, hasks.eq_none_iff.2 hshort]
    rfl
  · obtain ⟨p, hp⟩ : ∃ p, built.config.wakeUpInterval = some p :=
      Option.ne_none_iff_exists'.1 fun hnone => by
        have := hasks.eq_none_iff.1 hnone
        omega
    rw [hsweeps, hp]
    -- A period that was rounded down goes into any time at least as often as what was asked for.
    obtain ⟨hpos, hle, -⟩ := hasks.bounds hp
    exact Nat.div_le_div_left hle hpos

/-- The longest span is asked for, and the other things are chosen after it. -/
theorem swept_from_millisecond_longest :
    let later : List Choice := [.order .fifo, .lockStriping false, .shards 3]
    let built := later.foldl choose ((Builder.new 4).withWakeUpInterval .max)
    (∀ choice ∈ later, choice.setsInterval = false) ∧
    built.config.wakeUpInterval = some Config.longestPeriod ∧
    Config.longestPeriod.nanos ≤ Duration.max.nanos ∧
    min (Duration.max.nanos - Config.shortestPeriod.nanos) Config.longestPeriod.nanos ≤
      Config.longestPeriod.nanos ∧
    built.config.order ≠ .none ∧
    ∃ c : Cache (built.config.strategy Nat) Nat, built.build Nat Nat Nat.toUInt64 = .ok c ∧
      1 ≤ (c.controller.elapse .max).1 := by
  intro later built
  have hlater : ∀ choice ∈ later, choice.setsInterval = false := by decide
  have hperiod : built.config.wakeUpInterval = some Config.longestPeriod := by rfl
  have hbounded : built.config.order ≠ .none := by decide
  obtain ⟨-, hbounds, hswept⟩ :=
    swept_from_millisecond (K := Nat) (V := Nat) (Builder.new 4) .max later hlater
  obtain ⟨-, hle, hge⟩ := hbounds _ hperiod
  refine ⟨hlater, hperiod, hle, hge, hbounded, _, rfl, ?_⟩
  exact (hswept Nat.toUInt64 _ hbounded rfl).2 (by decide) .max

/-- **Half a millisecond is not zero, and still there are no sweeps**: the settings are those that ask for
none. -/
theorem never_swept_half_millisecond :
    let d : Duration := ⟨500000, by decide⟩
    let b := (Builder.new 4).withWakeUpInterval d
    b.config.order ≠ .none ∧ ¬ (b.config.wakeUpInterval = none ↔ d = .zero) ∧
    b.config = ((Builder.new 4).withWakeUpInterval .zero).config ∧
    ∃ c : Cache (b.config.strategy Nat) Nat, b.build Nat Nat Nat.toUInt64 = .ok c ∧
      ∀ window, (c.controller.elapse window).1 = 0 := by
  intro d b
  have hnone : b.config.wakeUpInterval = none :=
    (Config.asks_withWakeUpInterval _ d).eq_none_iff.2 (by decide)
  have hzero : d ≠ .zero := by decide
  have hsame : b.config = ((Builder.new 4).withWakeUpInterval .zero).config :=
    Config.withWakeUpInterval_congr _ (by decide)
  refine ⟨by decide, fun h => hzero (h.1 hnone), hsame, _, rfl, fun window => ?_⟩
  have hsweeps := @Controller.elapse_start b.config _ rfl window
  rwa [hnone] at hsweeps

end Builder
end ClusterCache
