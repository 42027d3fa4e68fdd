/-!
# The clock

Time is counted in nanoseconds from the start of the host. Nothing here knows the real time: a clock
is a *source* of readings and two counters. The source says what the next reading is, from the number
of readings taken so far and from the time deliberately waited so far, so that one source can stand
for any sequence of readings and another for a machine whose waits take their time.

## Main definitions

* `Clock.read` : take a reading.
* `Clock.wait` : let time pass.
-/

namespace CellHost

/-- Nanoseconds in a millisecond. -/
def nanosPerMilli : Nat := 1000000

/-- A source of readings, with what was taken from it so far. -/
structure Clock where
  /-- The next reading, from the readings taken and the nanoseconds waited so far. -/
  source : Nat → Nat → Nat
  reads : Nat := 0
  waited : Nat := 0

namespace Clock

/-- The reading that the clock gives next. -/
def now (c : Clock) : Nat := c.source c.reads c.waited

/-- The clock after a reading. -/
def tick (c : Clock) : Clock := { c with reads := c.reads + 1 }

/-- Take a reading. -/
def read (c : Clock) : Nat × Clock := (c.now, c.tick)

/-- Let time pass without a reading. -/
def wait (c : Clock) (nanos : Nat) : Clock := { c with waited := c.waited + nanos }

/-- A host on which a reading costs a microsecond and nothing else takes time but waits. -/
def steady : Clock where
  source := fun reads waited => waited + 1000 * reads

end Clock

end CellHost
