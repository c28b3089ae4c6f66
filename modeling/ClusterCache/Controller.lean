/-
# Who looks after the bound

A controller says whether a cache keeps to its bound at all, and whether a background sweeper looks
after it.  It runs from the start until it is stopped, once and for all.  A sweeper is started only
while the controller runs, and only if the settings ask for sweeps.  It sweeps at equal intervals, as
long as the controller runs and the thing that it looks after is there.
-/

import ClusterCache.Config

namespace ClusterCache

/-- The state of a controller. -/
structure Controller where
  config : Config
  /-- Whether the bound is enforced. -/
  running : Bool
  /-- The sweeper, if there is one, as the nanoseconds since it last swept or was started. -/
  sweeper : Option Nat
  /-- Whether the thing that a sweeper looks after is there. -/
  target : Bool

namespace Controller

/-- A running controller without a sweeper, if the settings can be used. -/
def create (config : Config) : Except Fault Controller :=
  config.validate.map fun _ => ⟨config, true, none, true⟩

/-- Starts the sweeper, unless there is one already or nothing to do for one. -/
def start (c : Controller) : Controller :=
  if c.sweeper.isNone && c.running && c.config.order.isBounded && c.config.wakeUpInterval.isSome then
    { c with sweeper := some 0 }
  else c

/-- Stops enforcing the bound, and the sweeper with it. -/
def stop (c : Controller) : Controller := { c with running := false, sweeper := none }

/-- The thing that a sweeper looks after is gone. -/
def loseTarget (c : Controller) : Controller := { c with target := false }

/-- Lets a span of time pass; answers how many sweeps the sweeper made in it. -/
def elapse (c : Controller) (window : Duration) : Nat × Controller :=
  match c.sweeper, c.config.wakeUpInterval with
  | some since, some interval =>
    let time := since + window.nanos
    (if c.target then time / interval.nanos else 0,
      { c with sweeper := some (time % interval.nanos) })
  | _, _ => (0, c)

/-- Lets time pass until the sweeper has made `n` sweeps, but not more than `limit`; answers whether
it has. -/
def awaitSweeps (c : Controller) (n : Nat) (limit : Duration) : Bool × Controller :=
  match c.sweeper, c.config.wakeUpInterval with
  | some since, some interval =>
    if n = 0 then (true, c)
    else if c.target && n * interval.nanos ≤ since + limit.nanos then
      (true, { c with sweeper := some 0 })
    else (false, (c.elapse limit).2)
  | _, _ => (n = 0, c)

/-- The parts of the controller. -/
def outline (c : Controller) : Text.Outline :=
  .record "EvictionController" [("config", c.config.outline), ("running", .bool c.running)]

end Controller
end ClusterCache
