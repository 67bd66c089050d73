import Mathlib.Algebra.Group.Nat.Defs
import QDaemon.Linked.Family
import QDaemon.Transition.Run

/-!
# The timer wheel

A wheel has four levels of 256 slots.  A timer waits in a slot of a level that
fits its distance from the current tick; when the tick reaches a multiple of 256
the next slot of level one is cascaded, that is, its timers are placed again, and
so on for the upper levels.  Timers of the slot that a tick leaves are moved to
the `expired` list and fired at the end of the call.

The lists are intrusive: a node is a head of the wheel, a head on the stack of a
function, or the link field of a timer.  A call of `qd_timer_wheel_tick` is
divided into the rounds of its loop, the cascades and the final phase; the inner
loops, which run until a list is empty, take a bound on their rounds and have no
result if it does not suffice.
-/

namespace QDaemon.Timer

open Linked Transition

universe u

/-- The link fields: the slots `wheels[level][slot]`, the head `expired`, the
local heads of `cascade_timers` and `qd_timer_wheel_tick`, and the timers. -/
inductive Node (T : Type u)
  | slot (level slot : Nat)
  | expired
  | tmp
  | fired
  | timer (timer : T)
  deriving DecidableEq

/-- `qd_timer_state_t`. -/
inductive TimerState
  | idle
  | scheduled
  | running
  | cancelled
  deriving DecidableEq

/-- `struct qd_timer`, without its links; `periodic` is the flag
`QD_TIMER_PERIODIC`. -/
structure QdTimer where
  expires : Nat
  interval : Nat
  periodic : Bool
  state : TimerState
  slot : Int
  wheelLevel : Int
  deriving DecidableEq

/-- `qd_timer_init`. -/
def timerInit : QdTimer :=
  ⟨0, 0, false, .idle, -1, -1⟩

/-- A start of a timer or a call of its callback. -/
inductive Event (T : Type u)
  | start (timer : T)
  | fire (timer : T)
  deriving DecidableEq

/-- `struct qd_timer_wheel` with its timers and the events so far, latest
first. -/
structure Wheel (T : Type u) where
  currentTick : Nat
  tickIntervalMs : Nat
  baseTime : Nat
  numTimers : BitVec 32
  links : Links (Node T)
  timers : T → QdTimer
  history : List (Event T)

variable {T : Type u}

/-- `qd_timer_wheel_create`, with all timers initialised. -/
def timerWheelCreate (tickIntervalMs now : BitVec 64) : Wheel T where
  currentTick := 0
  tickIntervalMs := if 0 < tickIntervalMs.toNat then tickIntervalMs.toNat else 1
  baseTime := now.toNat
  numTimers := 0
  links := ⟨id, id⟩
  timers _ := timerInit
  history := []

/-- `calculate_slot`: the level and the slot of an expiry. -/
def calculateSlot (currentTick expires : Nat) : Nat × Nat :=
  let delta := (expires + 2 ^ 64 - currentTick) % 2 ^ 64
  let sum := (currentTick + delta) % 2 ^ 64
  if delta < 256 then (0, sum &&& 255)
  else if delta < 2 ^ 16 then (1, (sum >>> 8) &&& 255)
  else if delta < 2 ^ 24 then (2, (sum >>> 16) &&& 255)
  else (3, (sum >>> 24) &&& 255)

variable [DecidableEq T] (wheel : Wheel T)

namespace Wheel

/-- Change the fields of one timer. -/
def setTimer (timer : T) (change : QdTimer → QdTimer) : Wheel T :=
  { wheel with timers := Function.update wheel.timers timer (change (wheel.timers timer)) }

/-- `add_timer_internal`. -/
def addTimerInternal (timer : T) : Wheel T :=
  let place := calculateSlot wheel.currentTick (wheel.timers timer).expires
  { wheel.setTimer timer fun fields =>
      { fields with
        wheelLevel := place.1
        slot := place.2 } with
    links := wheel.links.addTail (.timer timer) (.slot place.1 place.2) }

/-- `qd_list_del_init` on a timer. -/
def unlink (timer : T) : Wheel T :=
  { wheel with links := wheel.links.delInit (.timer timer) }

/-- `remove_timer_internal`. -/
def removeTimerInternal (timer : T) : Wheel T :=
  if 0 ≤ (wheel.timers timer).slot then
    (wheel.unlink timer).setTimer timer fun fields =>
      { fields with
        slot := -1
        wheelLevel := -1 }
  else wheel

/-- A delay or an interval in ticks, at least one. -/
def ticks (ms : BitVec 64) : Nat :=
  if ms.toNat / wheel.tickIntervalMs = 0 then 1 else ms.toNat / wheel.tickIntervalMs

/-- The common part of `qd_timer_start` and `qd_timer_start_periodic`. -/
def startWith (periodic : Bool) (wheel : Wheel T) (timer : T) (ms : BitVec 64) : Wheel T :=
  let wheel := wheel.removeTimerInternal timer
  let wheel := wheel.setTimer timer fun fields =>
    { fields with
      expires := (wheel.currentTick + wheel.ticks ms) % 2 ^ 64
      interval := wheel.ticks ms
      periodic := periodic }
  let wheel := wheel.addTimerInternal timer
  let wheel := wheel.setTimer timer fun fields => { fields with state := .scheduled }
  { wheel with
    numTimers := wheel.numTimers + 1#32
    history := .start timer :: wheel.history }

/-- `qd_timer_start`. -/
def timerStart (timer : T) (delayMs : BitVec 64) : Wheel T :=
  startWith false wheel timer delayMs

/-- `qd_timer_start_periodic`. -/
def timerStartPeriodic (timer : T) (intervalMs : BitVec 64) : Wheel T :=
  startWith true wheel timer intervalMs

/-- `qd_timer_stop`. -/
def timerStop (timer : T) : Wheel T :=
  let wheel :=
    if 0 ≤ (wheel.timers timer).slot then
      { wheel.removeTimerInternal timer with numTimers := wheel.numTimers - 1#32 }
    else wheel
  wheel.setTimer timer fun fields => { fields with state := .cancelled }

/-! ## The parts of a tick -/

/-- The loop `while (!qd_list_empty(head))` over the first entry.  There is no
result if the rounds do not suffice or the first entry is not a timer. -/
def whileFirst (body : Wheel T → T → Wheel T) (head : Node T) : Nat → Wheel T → Option (Wheel T)
  | 0, wheel => if wheel.links.Empty head then some wheel else none
  | rounds + 1, wheel =>
      if wheel.links.Empty head then some wheel
      else
        match wheel.links.next head with
        | .timer timer => whileFirst body head rounds (body wheel timer)
        | _ => none

/-- Take a timer out of a list of the wheel. -/
def detach (timer : T) : Wheel T :=
  (wheel.unlink timer).setTimer timer fun fields => { fields with slot := -1 }

/-- A timer of the slot that the tick leaves: expired, or placed again. -/
def expireTimer (timer : T) : Wheel T :=
  let wheel := wheel.detach timer
  if (wheel.timers timer).expires ≤ wheel.currentTick then
    { wheel with links := wheel.links.addTail (.timer timer) .expired }
  else wheel.addTimerInternal timer

/-- The slot of the current tick on a level. -/
def tickSlot (level : Nat) : Nat :=
  (wheel.currentTick >>> (level * 8)) &&& 255

/-- One round of the loop of `qd_timer_wheel_tick`, up to the cascades. -/
def leaveSlot (rounds : Nat) (wheel : Wheel T) : Option (Wheel T) :=
  (whileFirst expireTimer (.slot 0 (wheel.tickSlot 0)) rounds wheel).map fun wheel =>
    { wheel with currentTick := (wheel.currentTick + 1) % 2 ^ 64 }

/-- `cascade_timers`. -/
def cascadeTimers (rounds : Nat) (level : Nat) (wheel : Wheel T) : Option (Wheel T) :=
  whileFirst (fun wheel timer => (wheel.detach timer).addTimerInternal timer) .tmp rounds
    { wheel with
      links := (wheel.links.init .tmp).splice (.slot level (wheel.tickSlot level)) .tmp }

/-- Call the callback of a timer, which does nothing to timers, and place the
timer again if it is periodic. -/
def fireTimer (timer : T) : Wheel T :=
  let wheel := (wheel.unlink timer).setTimer timer fun fields => { fields with state := .running }
  let wheel := { wheel with history := .fire timer :: wheel.history }
  if (wheel.timers timer).periodic then
    let wheel := wheel.setTimer timer fun fields =>
      { fields with expires := (wheel.currentTick + fields.interval) % 2 ^ 64 }
    (wheel.addTimerInternal timer).setTimer timer fun fields => { fields with state := .scheduled }
  else
    { wheel.setTimer timer fun fields => { fields with state := .idle } with
      numTimers := wheel.numTimers - 1#32 }

/-- The final phase of `qd_timer_wheel_tick`. -/
def fireExpired (rounds : Nat) (wheel : Wheel T) : Option (Wheel T) :=
  whileFirst fireTimer .fired rounds
    { wheel with links := (wheel.links.init .fired).splice .expired .fired }

/-- The tick that the clock has reached. -/
def targetTick (now : BitVec 64) : Nat :=
  ((now.toNat + 2 ^ 64 - wheel.baseTime) % 2 ^ 64) / wheel.tickIntervalMs

end Wheel

/-! ## The system -/

/-- Between calls, at the loop condition of `qd_timer_wheel_tick`, or before the
cascade of a level. -/
inductive Phase
  | outside
  | advance (target : Nat)
  | cascade (target level : Nat)
  deriving DecidableEq

structure State (T : Type u) where
  wheel : Wheel T
  phase : Phase

/-- A call, or the next part of a tick with a bound on the rounds of its inner
loop. -/
inductive Label (T : Type u)
  | start (timer : T) (delayMs : BitVec 64)
  | startPeriodic (timer : T) (intervalMs : BitVec 64)
  | stop (timer : T)
  | tick (now : BitVec 64)
  | advance (rounds : Nat)
  | cascade (rounds : Nat)
  | expire (rounds : Nat)

/-- Whether the current tick is a multiple of the ticks of one slot of a level. -/
def Wheel.AtBoundary (level : Nat) : Prop :=
  wheel.currentTick &&& (2 ^ (level * 8) - 1) = 0

instance (wheel : Wheel T) (level : Nat) : Decidable (wheel.AtBoundary level) :=
  inferInstanceAs (Decidable (_ = _))

/-- The step relation. -/
def step (state : State T) : Label T → Option (State T)
  | .start timer delayMs =>
      match state.phase with
      | .outside => some { state with wheel := state.wheel.timerStart timer delayMs }
      | _ => none
  | .startPeriodic timer intervalMs =>
      match state.phase with
      | .outside => some { state with wheel := state.wheel.timerStartPeriodic timer intervalMs }
      | _ => none
  | .stop timer =>
      match state.phase with
      | .outside => some { state with wheel := state.wheel.timerStop timer }
      | _ => none
  | .tick now =>
      match state.phase with
      | .outside =>
          if state.wheel.targetTick now ≤ state.wheel.currentTick then some state
          else some { state with phase := .advance (state.wheel.targetTick now) }
      | _ => none
  | .advance rounds =>
      match state.phase with
      | .advance target =>
          if state.wheel.currentTick < target then
            (state.wheel.leaveSlot rounds).map fun wheel => ⟨wheel, .cascade target 1⟩
          else none
      | _ => none
  | .cascade rounds =>
      match state.phase with
      | .cascade target level =>
          -- the test of each level is inside the branch of the level below
          if level < 4 ∧ state.wheel.AtBoundary level then
            (state.wheel.cascadeTimers rounds level).map fun wheel =>
              ⟨wheel, .cascade target (level + 1)⟩
          else some { state with phase := .advance target }
      | _ => none
  | .expire rounds =>
      match state.phase with
      | .advance target =>
          if state.wheel.currentTick < target then none
          else (state.wheel.fireExpired rounds).map fun wheel => ⟨wheel, .outside⟩
      | _ => none

/-- A new wheel. -/
def State.initial (tickIntervalMs now : BitVec 64) : State T :=
  ⟨timerWheelCreate tickIntervalMs now, .outside⟩

end QDaemon.Timer
