import QDaemon.Timer.Ticks

/-!
# Callbacks that control timers

The final phase of `qd_timer_wheel_tick` runs without the lock: it takes the timers
of its local list one by one and calls their callbacks, which may start and stop any
timer, the one that is firing and those that are still in the local list included.
Here each call of a callback is a step of its own, and so is each call that the
callback makes and the part of the loop after it has returned.
-/

namespace QDaemon.Timer

open Linked Transition

universe u

variable {T : Type u} [DecidableEq T]

namespace Wheel

/-- The loop of the final phase up to the call of the callback. -/
def beginCallback (wheel : Wheel T) (timer : T) : Wheel T :=
  let wheel := (wheel.unlink timer).setTimer timer fun fields => { fields with state := .running }
  { wheel with history := .fire timer :: wheel.history }

/-- The loop of the final phase after the callback has returned: a periodic timer is
placed again. -/
def endCallback (wheel : Wheel T) (timer : T) : Wheel T :=
  if (wheel.timers timer).periodic then
    let wheel := wheel.setTimer timer fun fields =>
      { fields with expires := (wheel.currentTick + fields.interval) % 2 ^ 64 }
    (wheel.addTimerInternal timer).setTimer timer fun fields => { fields with state := .scheduled }
  else
    { wheel.setTimer timer fun fields => { fields with state := .idle } with
      numTimers := wheel.numTimers - 1#32 }

/-- A callback that does nothing to timers. -/
theorem fireTimer_eq (wheel : Wheel T) (timer : T) :
    wheel.fireTimer timer = (wheel.beginCallback timer).endCallback timer := rfl

/-- `timer->interval * timer->wheel->tick_interval_ms`. -/
def intervalMs (wheel : Wheel T) (timer : T) : BitVec 64 :=
  BitVec.ofNat 64 ((wheel.timers timer).interval * wheel.tickIntervalMs)

/-- `qd_timer_restart`. -/
def timerRestart (wheel : Wheel T) (timer : T) : Wheel T :=
  if (wheel.timers timer).periodic then
    wheel.timerStartPeriodic timer (wheel.intervalMs timer)
  else wheel.timerStart timer (wheel.intervalMs timer)

end Wheel

namespace Callbacks

/-! ## Calls -/

/-- A call on a timer. -/
inductive Call (T : Type u)
  | start (timer : T) (delayMs : BitVec 64)
  | startPeriodic (timer : T) (intervalMs : BitVec 64)
  | restart (timer : T)
  | stop (timer : T)

def Call.timer : Call T → T
  | .start timer _ => timer
  | .startPeriodic timer _ => timer
  | .restart timer => timer
  | .stop timer => timer

def Call.run (wheel : Wheel T) : Call T → Wheel T
  | .start timer delayMs => wheel.timerStart timer delayMs
  | .startPeriodic timer intervalMs => wheel.timerStartPeriodic timer intervalMs
  | .restart timer => wheel.timerRestart timer
  | .stop timer => wheel.timerStop timer

/-- Whether a call starts its timer as a periodic one, and the time it asks for. -/
def Call.starts (wheel : Wheel T) : Call T → Option (Bool × BitVec 64)
  | .start _ delayMs => some (false, delayMs)
  | .startPeriodic _ intervalMs => some (true, intervalMs)
  | .restart timer => some ((wheel.timers timer).periodic, wheel.intervalMs timer)
  | .stop _ => none

section Calls

variable {wheel : Wheel T} {call : Call T}

theorem Call.run_of_starts {periodic : Bool} {ms : BitVec 64}
    (starts : call.starts wheel = some (periodic, ms)) :
    call.run wheel = Wheel.startWith periodic wheel call.timer ms := by
  cases call with
  | start timer delayMs =>
    cases starts
    rfl
  | startPeriodic timer intervalMs =>
    cases starts
    rfl
  | stop timer => cases starts
  | restart timer =>
    obtain ⟨periodicEq, rfl⟩ := Prod.mk.inj (Option.some.inj starts)
    rw [Call.run, Wheel.timerRestart, periodicEq]
    cases periodic <;> rfl

theorem Call.run_of_stops (stops : call.starts wheel = none) :
    call.run wheel = wheel.timerStop call.timer := by
  cases call with
  | stop timer => rfl
  | start | startPeriodic | restart => cases stops

end Calls

/-! ## The system -/

/-- A call that has returned, or a call of a callback. -/
inductive Event (T : Type u)
  | started (timer : T)
  | stopped (timer : T)
  | invoked (timer : T)
  deriving DecidableEq

/-- Between calls or in a phase of a tick, at the loop condition of the final phase,
or in the callback of a timer. -/
inductive Point (T : Type u)
  | phase (phase : Phase)
  | batch
  | callback (timer : T)
  deriving DecidableEq

/-- The wheel, the events so far, latest first, and for each timer the expiry that a
callback of the latest tick has asked for and no later call has overridden. -/
structure State (T : Type u) where
  wheel : Wheel T
  point : Point T
  log : List (Event T)
  requested : T → Option Nat

/-- A call, a part of a tick, or the return of a callback. -/
inductive Label (T : Type u)
  | call (call : Call T)
  | tick (now : BitVec 64)
  | advance (rounds : Nat)
  | cascade (rounds : Nat)
  | expire
  | next
  | done

/-- Make a call; `inCallback` says whether a callback makes it. -/
def State.call (state : State T) (inCallback : Bool) (call : Call T) : State T :=
  { state with
    wheel := call.run state.wheel
    log := match call.starts state.wheel with
      | some _ => .started call.timer :: state.log
      | none => .stopped call.timer :: state.log
    requested := Function.update state.requested call.timer <|
      if inCallback then (call.starts state.wheel).map fun start => state.wheel.expiry start.2
      else none }

/-- A part of a tick that makes no calls of callbacks. -/
def State.part (state : State T) (phase : Phase) (label : Timer.Label T) : Option (State T) :=
  (Timer.step ⟨state.wheel, phase⟩ label).map fun next =>
    { state with
      wheel := next.wheel
      point := .phase next.phase }

/-- The step relation. -/
def step (state : State T) : Label T → Option (State T)
  | .call call =>
      match state.point with
      | .phase .outside => some (state.call false call)
      | .callback _ => some (state.call true call)
      | _ => none
  | .tick now =>
      match state.point with
      | .phase phase => { state with requested := fun _ => none }.part phase (.tick now)
      | _ => none
  | .advance rounds =>
      match state.point with
      | .phase phase => state.part phase (.advance rounds)
      | _ => none
  | .cascade rounds =>
      match state.point with
      | .phase phase => state.part phase (.cascade rounds)
      | _ => none
  | .expire =>
      match state.point with
      | .phase (.advance target) =>
          if state.wheel.currentTick < target then none
          else some { state with
            wheel := { state.wheel with
              links := (state.wheel.links.init .fired).splice .expired .fired }
            point := .batch }
      | _ => none
  | .next =>
      match state.point with
      | .batch =>
          if state.wheel.links.Empty .fired then some { state with point := .phase .outside }
          else
            match state.wheel.links.next .fired with
            | .timer timer => some { state with
                wheel := state.wheel.beginCallback timer
                point := .callback timer
                log := .invoked timer :: state.log }
            | _ => none
      | _ => none
  | .done =>
      match state.point with
      | .callback timer => some { state with
          wheel := state.wheel.endCallback timer
          point := .batch }
      | _ => none

/-- A new wheel. -/
def State.initial (tickIntervalMs now : BitVec 64) : State T :=
  ⟨timerWheelCreate tickIntervalMs now, .phase .outside, [], fun _ => none⟩

end Callbacks

end QDaemon.Timer
