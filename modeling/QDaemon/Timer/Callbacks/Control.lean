import QDaemon.Timer.Callbacks.Accounting

/-!
# Control of timers from callbacks

If callbacks leave the timers of the local list alone, and do not start or stop their
own timer unless they stop a one-shot timer, then a stopped timer is not fired, a timer
that a callback starts is pending when the tick ends, and between ticks the timers in
the slots are those that are scheduled.
-/

namespace QDaemon.Timer.Callbacks

open Option Function Linked Transition

universe u

variable {T : Type u} [DecidableEq T]

/-! ## Properties -/

/-- Whether the latest call on a timer has stopped it. -/
def stoppedLast (timer : T) : List (Event T) → Bool
  | [] => false
  | .started other :: past => if other = timer then false else stoppedLast timer past
  | .stopped other :: past => if other = timer then true else stoppedLast timer past
  | .invoked _ :: past => stoppedLast timer past

/-- No callback has been invoked for a timer that had been stopped and not started
since. -/
def StopsRespected (log : List (Event T)) : Prop :=
  ∀ timer past, .invoked timer :: past <:+ log → stoppedLast timer past = false

/-- Stops are respected; and between ticks the timers that callbacks have started are
pending with the expiry they asked for, and a timer is in the list of a slot exactly if
it is scheduled. -/
structure Controlled (state : State T) : Prop where
  stops : StopsRespected state.log
  requested : state.point = .phase .outside → ∀ timer expires,
    state.requested timer = some expires → InSlotList state.wheel timer ∧
      (state.wheel.timers timer).state = .scheduled ∧
      (state.wheel.timers timer).expires = expires
  scheduled : state.point = .phase .outside → ∀ timer,
    InSlotList state.wheel timer ↔ (state.wheel.timers timer).state = .scheduled

/-- A callback stops no timer of the local list, and its own only if that is not
periodic. -/
def MayStop (state : State T) : Label T → Prop
  | .call call => call.starts state.wheel = none → state.firing.isSome →
      ¬ state.wheel.InBatch call.timer ∧
        (state.firing = some call.timer → (state.wheel.timers call.timer).periodic = false)
  | _ => True

/-- An orderly step that stops no timer that has expired in the current tick, or is
firing and periodic. -/
def Considerate (state : State T) (label : Label T) : Prop :=
  Orderly state label ∧ MayStop state label

instance Considerate.decidable [Fintype T] (state : State T) (label : Label T) :
    Decidable (Considerate state label) := by
  rcases label with _ | _ <;> unfold Considerate MayStop <;> infer_instance

/-! ## Invariant -/

/-- A timer that has been stopped last does not wait, and is not placed again if it is
firing. -/
structure Heeded (state : State T) (due : List T) : Prop where
  stops : StopsRespected state.log
  stopped : ∀ timer, stoppedLast timer state.log = true → ¬ Waiting state.wheel due timer ∧
    (state.firing = some timer → (state.wheel.timers timer).periodic = false)

/-- A timer that a callback has started is in a slot. -/
def Granted (state : State T) : Prop :=
  ∀ timer expires, state.requested timer = some expires →
    (state.wheel.timers timer).slot ≠ -1 ∧ (state.wheel.timers timer).expires = expires

theorem StopsRespected.cons {log : List (Event T)} {event : Event T} (stops : StopsRespected log)
    (silent : ∀ timer, event = .invoked timer → stoppedLast timer log = false) :
    StopsRespected (event :: log) := by
  intro timer past suffix_
  rcases List.suffix_cons_iff.mp suffix_ with same | earlier
  · obtain ⟨rfl, rfl⟩ := List.cons.inj same
    exact silent timer rfl
  · exact stops timer past earlier

section Steps

variable {state next : State T} {due left : List T}

section

variable (heeded : Heeded state due)
include heeded

theorem Heeded.start {call : Call T} (inCallback : Bool) {periodic : Bool} {ms : BitVec 64}
    (starts : call.starts state.wheel = some (periodic, ms)) :
    Heeded (state.call inCallback call) due := by
  have logEq : (state.call inCallback call).log = .started call.timer :: state.log := by
    simp [State.call, starts]
  have timersEq := call_timers_of_starts inCallback starts
  constructor
  · rw [logEq]
    exact heeded.stops.cons (by simp)
  · intro timer stopped
    rw [logEq, stoppedLast] at stopped
    split at stopped
    · cases stopped
    next other =>
      rw [waiting_of_ne timersEq (Ne.symm other), timersEq, update_of_ne (Ne.symm other)]
      exact heeded.stopped timer stopped

theorem Heeded.stop {call : Call T} (inCallback : Bool) (stops : call.starts state.wheel = none)
    (out : (state.wheel.stoppedFields call.timer).slot = -1) (notDue : call.timer ∉ due)
    (oneShot : state.firing = some call.timer → (state.wheel.timers call.timer).periodic = false) :
    Heeded (state.call inCallback call) due := by
  have logEq : (state.call inCallback call).log = .stopped call.timer :: state.log := by
    simp [State.call, stops]
  have timersEq := call_timers_of_stops inCallback stops
  constructor
  · rw [logEq]
    exact heeded.stops.cons (by simp)
  · intro timer stopped
    by_cases same : timer = call.timer
    · subst same
      rw [waiting_self timersEq, timersEq, update_self]
      refine ⟨fun waiting => waiting.elim (fun inSlot => inSlot out) notDue, fun firing => ?_⟩
      rw [stoppedFields_periodic]
      exact oneShot firing
    · rw [logEq, stoppedLast, if_neg (Ne.symm same)] at stopped
      rw [waiting_of_ne timersEq same, timersEq, update_of_ne same]
      exact heeded.stopped timer stopped

/-- A timer of the local list is fired: it had not been stopped. -/
theorem Heeded.invoke {timer : T} {left : List T} (dueEq : due = timer :: left) :
    Heeded { state with
      wheel := state.wheel.beginCallback timer
      point := .callback timer
      log := .invoked timer :: state.log } left := by
  subst dueEq
  have timersEq : (state.wheel.beginCallback timer).timers =
    update state.wheel.timers timer { state.wheel.timers timer with state := .running } := rfl
  have notStopped : stoppedLast timer state.log = false := by
    refine Bool.eq_false_of_not_eq_true fun stopped => (heeded.stopped timer stopped).1 ?_
    exact .inr List.mem_cons_self
  constructor
  · refine heeded.stops.cons ?_
    rintro other ⟨⟩
    exact notStopped
  · intro other stopped
    have different : other ≠ timer := by
      rintro rfl
      exact absurd (notStopped.symm.trans stopped) (by simp)
    rw [waiting_of_ne timersEq different]
    refine ⟨fun waiting => ?_, fun firing => absurd (some.inj firing).symm different⟩
    exact (heeded.stopped other stopped).1 (waiting.imp_right (List.mem_cons_of_mem timer))

/-- A timer that has been stopped by its own callback is not placed again. -/
theorem Heeded.done {timer : T} (firing : state.firing = some timer)
    (out : (state.wheel.timers timer).slot = -1) (gone : timer ∉ due) : Heeded { state with
      wheel := state.wheel.endCallback timer
      point := .batch } due := by
  refine ⟨heeded.stops, fun other stopped => ⟨?_, fun now => absurd now (by simp [State.firing])⟩⟩
  obtain ⟨notWaiting, oneShot⟩ := heeded.stopped other stopped
  by_cases same : other = timer
  · subst same
    have timersEq := congrArg Wheel.timers (endCallback_of_oneShot (oneShot firing))
    rw [waiting_self timersEq]
    exact fun waiting => waiting.elim (fun inSlot => inSlot out) gone
  · cases periodic : (state.wheel.timers timer).periodic with
    | false =>
      rwa [waiting_of_ne (congrArg Wheel.timers (endCallback_of_oneShot periodic)) same]
    | true => rwa [waiting_of_ne (endCallback_of_periodic periodic).1 same]

theorem Heeded.change {label : Label T} (change : Change state due label next left)
    (apart : ∀ call, label = .call call → call.starts state.wheel = none → call.timer ∉ due ∧
      (state.firing = some call.timer → (state.wheel.timers call.timer).periodic = false)) :
    Heeded next left := by
  cases change with
  | start starts notDue notFiring nonneg => exact heeded.start _ starts
  | stop stops out inSlot =>
    obtain ⟨notDue, oneShot⟩ := apart _ rfl stops
    exact heeded.stop _ stops out notDue oneShot
  | move moves logEq requestedEq nobody still =>
    refine ⟨logEq ▸ heeded.stops, fun timer stopped => ?_⟩
    rw [logEq] at stopped
    rw [moves.waiting, still]
    exact ⟨(heeded.stopped timer stopped).1, by simp⟩
  | invoke dueEq gone out nobody => exact heeded.invoke dueEq
  | done firing out gone => exact heeded.done firing out gone

end

/-- A change of one timer that no callback has asked for. -/
theorem Granted.update (granted : Granted state) {timer : T} {fields : QdTimer}
    (requestedEq : ∀ other, other ≠ timer → next.requested other = state.requested other)
    (timersEq : next.wheel.timers = update state.wheel.timers timer fields)
    (asked : ∀ expires, next.requested timer = some expires →
      fields.slot ≠ -1 ∧ fields.expires = expires) : Granted next := by
  intro other expires requested
  rw [timersEq]
  by_cases same : other = timer
  · subst same
    rw [update_self]
    exact asked expires requested
  · rw [update_of_ne same]
    rw [requestedEq other same] at requested
    exact granted other expires requested

theorem Granted.change {label : Label T} (granted : Granted state)
    (change : Change state due label next left) : Granted next := by
  -- a timer that is in no slot has not been asked for
  have notAsked {timer : T} {fields : QdTimer} (out : (state.wheel.timers timer).slot = -1)
      (expires : Nat) (requested : state.requested timer = some expires) :
      fields.slot ≠ -1 ∧ fields.expires = expires :=
    absurd out (granted timer expires requested).1
  cases change with
  | @start call periodic inCallback ms starts notDue notFiring nonneg =>
    refine granted.update (fun _ different => update_of_ne different _ _) (call_timers_of_starts _ starts) ?_
    intro expires requested
    refine ⟨slot_ne_of_natCast rfl, ?_⟩
    simp only [State.call, update_self, starts] at requested
    split at requested
    · exact some.inj requested
    · cases requested
  | @stop call inCallback stops out inSlot =>
    refine granted.update (fun _ different => update_of_ne different _ _) (call_timers_of_stops _ stops) ?_
    intro expires requested
    simp [State.call, stops] at requested
  | move moves logEq requestedEq nobody still =>
    rcases requestedEq with cleared | ⟨requestedEq, timersEq⟩
    · intro timer expires requested
      rw [cleared] at requested
      cases requested
    · intro timer expires requested
      rw [requestedEq] at requested
      rw [timersEq]
      exact granted timer expires requested
  | invoke dueEq gone out nobody =>
    exact granted.update (fun _ _ => rfl) rfl (notAsked out)
  | @done timer firing out gone =>
    cases periodic : (state.wheel.timers timer).periodic with
    | false =>
      exact granted.update (fun _ _ => rfl)
        (congrArg Wheel.timers (endCallback_of_oneShot periodic)) (notAsked out)
    | true =>
      exact granted.update (fun _ _ => rfl) (endCallback_of_periodic periodic).1 (notAsked out)

end Steps

/-! ## Runs -/

/-- Callbacks that leave expired timers alone control the others. -/
theorem timers_controlled {tickIntervalMs now : BitVec 64} {state : State T}
    (run : GuardedRun step Considerate (State.initial tickIntervalMs now) state) :
    Controlled state := by
  have inv := run.invariant
    (fun state => ∃ content due, Shape state content due ∧ Flagged state.wheel due ∧
      Heeded state due ∧ Granted state)
    ⟨initialContent, [], shape_initial tickIntervalMs now, flagged_initial tickIntervalMs now,
      ⟨?_, ?_⟩, ?_⟩ ?_
  · obtain ⟨content, due, shape, flagged, heeded, granted⟩ := inv
    refine ⟨heeded.stops, fun outside timer expires requested => ?_, fun outside timer => ?_⟩
    · obtain ⟨held, rfl⟩ := shape.outside outside
      obtain ⟨inSlot, expiresEq⟩ := granted timer expires requested
      exact ⟨(inSlotList_iff held timer).mpr inSlot, flagged.stored timer inSlot, expiresEq⟩
    · obtain ⟨held, rfl⟩ := shape.outside outside
      exact flagged.scheduled_iff held timer
  · intro timer past suffix_
    exact absurd (List.suffix_nil.mp suffix_) (by simp)
  · exact fun timer stopped => absurd stopped (by simp [stoppedLast, State.initial])
  · exact fun timer expires requested => absurd requested (by simp [State.initial])
  · rintro state label next ⟨content, due, shape, flagged, heeded, granted⟩ ⟨orderly, mayStop⟩ stepEq
    obtain ⟨changed, left, nextShape, change⟩ := shape.step orderly stepEq
    refine ⟨changed, left, nextShape, flagged.change change, heeded.change change ?_,
      granted.change change⟩
    rintro call rfl stops
    refine ⟨shape.not_mem_due stepEq fun calling => (mayStop stops calling).1, fun firing => ?_⟩
    exact (mayStop stops (by rw [firing]; rfl)).2 firing

/-- The callback of a timer stops a second one and starts a third one. -/
def stopAndStart : List (Label (Fin 3)) :=
  [.call (.start 0 1), .call (.startPeriodic 1 5), .tick 2, .advance 0, .cascade 0, .advance 1,
    .cascade 0, .expire, .next, .call (.stop 1), .call (.start 2 10), .done, .next]

theorem timers_controlled_stopAndStart :
    ∃ state, exec (guarded step Considerate) (State.initial 1 0) stopAndStart = some state ∧
      state.point = .phase .outside ∧ state.requested 2 = some 12 ∧
      state.log = [.started 2, .stopped 1, .invoked 0, .started 1, .started 0] ∧
      Controlled state := by
  apply exists_exec fun state => state.point = .phase .outside ∧ state.requested 2 = some 12 ∧
    state.log = [.started 2, .stopped 1, .invoked 0, .started 1, .started 0]
  · decide +kernel
  · rintro state stateEq ⟨outside, requested, log⟩
    exact ⟨outside, requested, log, timers_controlled (guardedRun_of_exec stateEq)⟩

/-- Two timers expire together, and the callback of the first stops the second. -/
def stopExpired : List (Label Bool) :=
  [.call (.start false 1), .call (.start true 1), .tick 2, .advance 0, .cascade 0, .advance 2,
    .cascade 0, .expire, .next, .call (.stop true), .done, .next]

/-- The callback of a one-shot timer starts it again. -/
def startAgain : List (Label Unit) :=
  [.call (.start () 1), .tick 2, .advance 0, .cascade 0, .advance 1, .cascade 0, .expire, .next,
    .call (.start () 5), .done, .next]

/-- The stopped timer is fired, and the timer that has been started again is idle when
the tick ends. -/
theorem not_controlled_stopExpired :
    (∃ state : State Bool, Reachable step (State.initial 1 0) state ∧
      state.log = [.invoked true, .stopped true, .invoked false, .started true, .started false] ∧
      ¬ Controlled state) ∧ ∃ state : State Unit, Reachable step (State.initial 1 0) state ∧
      state.point = .phase .outside ∧ state.requested () = some 7 ∧
      (state.wheel.timers ()).slot = 7 ∧ (state.wheel.timers ()).state = .idle ∧
      ¬ Controlled state := by
  constructor
  · refine exists_reachable stopExpired (fun state => state.log =
      [.invoked true, .stopped true, .invoked false, .started true, .started false])
      (by decide +kernel) ?_
    refine fun state log => ⟨log, fun controlled => ?_⟩
    have stops := controlled.stops
    rw [log] at stops
    exact absurd (stops true _ (List.suffix_refl _)) (by decide)
  · refine exists_reachable startAgain (fun state => state.point = .phase .outside ∧
      state.requested () = some 7 ∧ (state.wheel.timers ()).slot = 7 ∧
      (state.wheel.timers ()).state = .idle) (by decide +kernel) ?_
    rintro state ⟨outside, requested, slot, idle⟩
    refine ⟨outside, requested, slot, idle, fun controlled => ?_⟩
    have scheduled := (controlled.requested outside () 7 requested).2.1
    rw [idle] at scheduled
    cases scheduled

end QDaemon.Timer.Callbacks
