import Mathlib.Data.Finset.Card
import QDaemon.Timer.Callbacks.Invariant

/-!
# The number of timers

`num_timers` counts the timers that are in a slot, have expired, or are firing.  It is
incremented by every start, so it is the number of timers only if no timer is started
that is already scheduled.
-/

namespace QDaemon.Timer.Callbacks

open Function Linked Transition

universe u

variable {T : Type u} [DecidableEq T]

/-! ## Timer states -/

/-- The timers in a slot are scheduled, and a scheduled timer is in a slot or has
expired. -/
structure Flagged (wheel : Wheel T) (due : List T) : Prop where
  stored : ∀ timer, (wheel.timers timer).slot ≠ -1 → (wheel.timers timer).state = .scheduled
  scheduled : ∀ timer, (wheel.timers timer).state = .scheduled → Waiting wheel due timer

variable {fields : QdTimer}
variable {due left : List T} {timer : T} {call : Call T}

/-- A step that changes one timer. -/
theorem Flagged.update {wheel changed : Wheel T} (flagged : Flagged wheel due)
    (timersEq : changed.timers = update wheel.timers timer fields)
    (agrees : fields.slot ≠ -1 ↔ fields.state = .scheduled)
    (others : ∀ other, other ≠ timer → other ∈ due → other ∈ left) : Flagged changed left := by
  constructor
  · rw [timersEq]
    exact (forall_update_iff wheel.timers fun _ fields => fields.slot ≠ -1 → fields.state = .scheduled).mpr
      ⟨agrees.mp, fun other _ => flagged.stored other⟩
  · intro other scheduled
    by_cases same : other = timer
    · rw [same, timersEq, update_self] at scheduled
      rw [same, waiting_self timersEq]
      exact .inl (agrees.mpr scheduled)
    · rw [timersEq, update_of_ne same] at scheduled
      rw [waiting_of_ne timersEq same]
      exact (flagged.scheduled other scheduled).imp_right (others other same)

/-- A timer that has just been placed is in a slot. -/
theorem slot_ne_of_natCast {slot : Nat} (slotEq : fields.slot = slot) : fields.slot ≠ -1 := by
  rw [slotEq]
  exact fun negative => absurd (negative ▸ Int.natCast_nonneg slot) (by decide)

section Calls

variable {state : State T} {call : Call T} (inCallback : Bool)

theorem call_timers_of_starts {periodic : Bool} {ms : BitVec 64}
    (starts : call.starts state.wheel = some (periodic, ms)) :
    (state.call inCallback call).wheel.timers = update state.wheel.timers call.timer
      (state.wheel.startedFields periodic ms) :=
  (congrArg Wheel.timers (Call.run_of_starts starts)).trans (startWith_timers _ _ _ _)

theorem call_timers_of_stops (stops : call.starts state.wheel = none) :
    (state.call inCallback call).wheel.timers = update state.wheel.timers call.timer
      (state.wheel.stoppedFields call.timer) :=
  (congrArg Wheel.timers (Call.run_of_stops stops)).trans (timerStop_timers _ _)

end Calls

theorem Flagged.change {state next : State T} {label : Label T}
    (flagged : Flagged state.wheel due) (change : Change state due label next left) :
    Flagged next.wheel left := by
  cases change with
  | start starts notDue notFiring nonneg =>
    exact flagged.update (call_timers_of_starts _ starts)
      (iff_of_true (slot_ne_of_natCast rfl) rfl) fun _ _ mem => mem
  | stop stops out inSlot =>
    exact flagged.update (call_timers_of_stops _ stops)
      (iff_of_false (fun inSlot => inSlot out) (by simp [Wheel.stoppedFields])) fun _ _ mem => mem
  | move moves logEq requestedEq nobody still =>
    constructor
    · intro timer inSlot
      rw [moves.fields]
      exact flagged.stored timer (moves.stored timer inSlot)
    · intro timer scheduled
      rw [moves.fields] at scheduled
      exact (moves.waiting timer).mpr (flagged.scheduled timer scheduled)
  | @invoke timer left dueEq gone out nobody =>
    subst dueEq
    refine flagged.update rfl (iff_of_false (fun inSlot => inSlot out) (by simp)) ?_
    intro other different mem
    exact (List.mem_cons.mp mem).resolve_left different
  | @done timer firing out gone =>
    cases periodic : (state.wheel.timers timer).periodic with
    | false =>
      rw [endCallback_of_oneShot periodic]
      exact flagged.update rfl (iff_of_false (fun inSlot => inSlot out) (by simp))
        fun _ _ mem => mem
    | true =>
      exact flagged.update (endCallback_of_periodic periodic).1
        (iff_of_true (slot_ne_of_natCast rfl) rfl) fun _ _ mem => mem

omit [DecidableEq T] in
theorem flagged_initial (tickIntervalMs now : BitVec 64) :
    Flagged (State.initial tickIntervalMs now : State T).wheel [] where
  stored _ inSlot := absurd rfl inSlot
  scheduled _ scheduled := absurd scheduled (by simp [State.initial, timerWheelCreate, timerInit])

omit [DecidableEq T] in
theorem Flagged.scheduled_iff {wheel : Wheel T} {content : Content T} {reach : Nat → Nat}
    (flagged : Flagged wheel []) (held : Held wheel content none reach []) (timer : T) :
    InSlotList wheel timer ↔ (wheel.timers timer).state = .scheduled := by
  rw [inSlotList_iff held]
  refine ⟨flagged.stored timer, fun scheduled => ?_⟩
  exact (flagged.scheduled timer scheduled).resolve_right List.not_mem_nil

/-! ## Counting -/

/-- A timer waits or is firing. -/
def Pending (state : State T) (due : List T) (timer : T) : Prop :=
  Waiting state.wheel due timer ∨ state.firing = some timer

/-- `num_timers` is the number of timers that wait or are firing. -/
def Tallied (state : State T) (due : List T) : Prop :=
  ∃ pending : Finset T, (∀ timer, timer ∈ pending ↔ Pending state due timer) ∧
    pending.card < 2 ^ 31 ∧ state.wheel.numTimers = BitVec.ofNat 32 pending.card

/-- A timer is started only if it is in no slot, and only if the counter can still be
incremented. -/
def FirstStart (state : State T) : Label T → Prop
  | .call call => (call.starts state.wheel).isSome →
      (state.wheel.timers call.timer).slot < 0 ∧ state.wheel.numTimers.toInt + 1 < 2 ^ 31
  | _ => True

theorem toInt_ofNat_card {count : Nat} (bound : count < 2 ^ 31) :
    (BitVec.ofNat 32 count).toInt = count := by
  rw [BitVec.toInt_eq_toNat_of_lt]
  · rw [BitVec.toNat_ofNat, Nat.mod_eq_of_lt (by omega)]
  · rw [BitVec.toNat_ofNat]
    omega

theorem startWith_numTimers (periodic : Bool) (wheel : Wheel T) (timer : T) (ms : BitVec 64) :
    (Wheel.startWith periodic wheel timer ms).numTimers = wheel.numTimers + 1#32 := by
  unfold Wheel.startWith Wheel.removeTimerInternal
  split <;> rfl

section Tallied

variable {state next : State T} {due left : List T}

section

variable (tallied : Tallied state due)
include tallied

/-- One more timer. -/
theorem Tallied.add (timer : T)
    (room : state.wheel.numTimers.toInt + 1 < 2 ^ 31) (before : ¬ Pending state due timer)
    (after : Pending next left timer)
    (others : ∀ other, other ≠ timer → (Pending next left other ↔ Pending state due other))
    (countEq : next.wheel.numTimers = state.wheel.numTimers + 1#32) : Tallied next left := by
  obtain ⟨pending, pendingIff, bound, count⟩ := tallied
  have fresh : timer ∉ pending := fun mem => before ((pendingIff timer).mp mem)
  rw [count, toInt_ofNat_card bound] at room
  refine ⟨insert timer pending, fun other => ?_, ?_, ?_⟩
  · rw [Finset.mem_insert, pendingIff]
    by_cases same : other = timer
    · rw [same]
      exact iff_of_true (.inl rfl) after
    · rw [others other same]
      exact or_iff_right same
  · rw [Finset.card_insert_of_notMem fresh]
    omega
  · rw [Finset.card_insert_of_notMem fresh, countEq, count, BitVec.ofNat_add]

/-- One timer less. -/
theorem Tallied.remove (timer : T) (before : Pending state due timer)
    (after : ¬ Pending next left timer)
    (others : ∀ other, other ≠ timer → (Pending next left other ↔ Pending state due other))
    (countEq : next.wheel.numTimers = state.wheel.numTimers - 1#32) : Tallied next left := by
  obtain ⟨pending, pendingIff, bound, count⟩ := tallied
  have card := Finset.card_erase_add_one ((pendingIff timer).mpr before)
  refine ⟨pending.erase timer, fun other => ?_, ?_, ?_⟩
  · rw [Finset.mem_erase, pendingIff]
    by_cases same : other = timer
    · rw [same]
      exact iff_of_false (fun both => both.1 rfl) after
    · rw [others other same]
      exact and_iff_right same
  · omega
  · rw [countEq, count, ← card, BitVec.ofNat_add, BitVec.add_sub_cancel]

omit [DecidableEq T] in
/-- The same timers. -/
theorem Tallied.congr (same : ∀ timer, Pending next left timer ↔ Pending state due timer)
    (countEq : next.wheel.numTimers = state.wheel.numTimers) : Tallied next left := by
  obtain ⟨pending, pendingIff, bound, count⟩ := tallied
  exact ⟨pending, fun timer => (pendingIff timer).trans (same timer).symm, bound,
    countEq.trans count⟩

end

/-- A call does not change whether another timer is pending. -/
theorem pending_call {inCallback : Bool} {other : T}
    (timersEq : (state.call inCallback call).wheel.timers =
      update state.wheel.timers call.timer fields) (different : other ≠ call.timer) :
    Pending (state.call inCallback call) due other ↔ Pending state due other :=
  or_congr_left (waiting_of_ne timersEq different)

section

variable (tallied : Tallied state due)
include tallied

theorem Tallied.start (inCallback : Bool) {periodic : Bool} {ms : BitVec 64}
    (starts : call.starts state.wheel = some (periodic, ms))
    (first : FirstStart state (.call call)) (notDue : call.timer ∉ due)
    (notFiring : state.firing ≠ some call.timer)
    (nonneg : (state.wheel.timers call.timer).slot ≠ -1 →
      0 ≤ (state.wheel.timers call.timer).slot) : Tallied (state.call inCallback call) due := by
  obtain ⟨notIn, room⟩ := first (by rw [starts]; rfl)
  have timersEq := call_timers_of_starts inCallback starts
  refine tallied.add call.timer room ?_ (.inl ?_) (fun other => pending_call timersEq) ?_
  · rintro ((inSlot | mem) | firing)
    · exact absurd (nonneg inSlot) (Int.not_le.mpr notIn)
    · exact notDue mem
    · exact notFiring firing
  · exact (waiting_self timersEq).mpr (.inl (slot_ne_of_natCast rfl))
  · exact (congrArg Wheel.numTimers (Call.run_of_starts starts)).trans (startWith_numTimers _ _ _ _)

theorem Tallied.stop (inCallback : Bool) (stops : call.starts state.wheel = none)
    (out : (state.wheel.stoppedFields call.timer).slot = -1)
    (inSlot : (state.wheel.timers call.timer).slot ≠ -1 →
      0 ≤ (state.wheel.timers call.timer).slot ∧ call.timer ∉ due ∧
        state.firing ≠ some call.timer) : Tallied (state.call inCallback call) due := by
  have timersEq := call_timers_of_stops inCallback stops
  have countEq : (state.call inCallback call).wheel.numTimers =
      if 0 ≤ (state.wheel.timers call.timer).slot then state.wheel.numTimers - 1#32
      else state.wheel.numTimers :=
    (congrArg Wheel.numTimers (Call.run_of_stops stops)).trans (timerStop_numTimers _ _)
  by_cases stored : (state.wheel.timers call.timer).slot = -1
  · rw [if_neg (by rw [stored]; decide)] at countEq
    refine tallied.congr (fun timer => ?_) countEq
    by_cases same : timer = call.timer
    · rw [same, Pending, waiting_self timersEq, Pending, Waiting, out, stored]
      rfl
    · exact pending_call timersEq same
  · obtain ⟨nonneg, notDue, notFiring⟩ := inSlot stored
    rw [if_pos nonneg] at countEq
    refine tallied.remove call.timer (.inl (.inl stored)) ?_ (fun other => pending_call timersEq)
      countEq
    rintro (waiting | firing)
    · rcases (waiting_self timersEq).mp waiting with inSlot | mem
      · exact inSlot out
      · exact notDue mem
    · exact notFiring firing

theorem Tallied.invoke (dueEq : due = timer :: left) (nobody : state.firing = none) :
    Tallied { state with
      wheel := state.wheel.beginCallback timer
      point := .callback timer
      log := .invoked timer :: state.log } left := by
  subst dueEq
  refine tallied.congr (fun other => ?_) rfl
  have timersEq : (state.wheel.beginCallback timer).timers =
    update state.wheel.timers timer { state.wheel.timers timer with state := .running } := rfl
  by_cases same : other = timer
  · rw [same]
    exact iff_of_true (.inr rfl) (.inl (.inr List.mem_cons_self))
  · rw [Pending, Pending, waiting_of_ne timersEq same, nobody]
    simp [Waiting, State.firing, same, Ne.symm same]

theorem Tallied.done (firing : state.firing = some timer)
    (out : (state.wheel.timers timer).slot = -1) (gone : timer ∉ due) : Tallied { state with
      wheel := state.wheel.endCallback timer
      point := .batch } due := by
  have others {fields : QdTimer} (timersEq : (state.wheel.endCallback timer).timers =
      update state.wheel.timers timer fields) (other : T) (different : other ≠ timer) :
      Pending { state with wheel := state.wheel.endCallback timer, point := .batch } due other ↔
        Pending state due other := by
    rw [Pending, Pending, waiting_of_ne timersEq different, firing]
    simp [State.firing, Ne.symm different]
  cases periodic : (state.wheel.timers timer).periodic with
  | false =>
    have endEq := endCallback_of_oneShot periodic
    have timersEq := congrArg Wheel.timers endEq
    refine tallied.remove timer (.inr firing) ?_ (others timersEq) (congrArg Wheel.numTimers endEq)
    rintro (waiting | firing)
    · rcases (waiting_self timersEq).mp waiting with inSlot | mem
      · exact inSlot out
      · exact gone mem
    · cases firing
  | true =>
    obtain ⟨timersEq, -, -, countEq⟩ := endCallback_of_periodic periodic
    refine tallied.congr (fun other => ?_) countEq
    by_cases same : other = timer
    · rw [same]
      exact iff_of_true (.inl ((waiting_self timersEq).mpr (.inl (slot_ne_of_natCast rfl))))
        (.inr firing)
    · exact others timersEq other same

theorem Tallied.change {label : Label T} (first : FirstStart state label)
    (change : Change state due label next left) : Tallied next left := by
  cases change with
  | start starts notDue notFiring nonneg =>
    exact tallied.start _ starts first notDue notFiring nonneg
  | stop stops out inSlot => exact tallied.stop _ stops out inSlot
  | move moves logEq requestedEq nobody still =>
    refine tallied.congr (fun timer => ?_) moves.numTimers
    rw [Pending, Pending, moves.waiting, nobody, still]
  | invoke dueEq gone out nobody => exact tallied.invoke dueEq nobody
  | done firing out gone => exact tallied.done firing out gone

end

end Tallied

/-! ## Runs -/

/-- `num_timers` is not negative, and between calls it is the number of timers that are
scheduled, which are those in the lists of the slots. -/
def Accounted (state : State T) : Prop :=
  0 ≤ state.wheel.numTimers.toInt ∧
    (state.point = .phase .outside → ∃ scheduled : Finset T,
      (∀ timer, timer ∈ scheduled ↔ (state.wheel.timers timer).state = .scheduled) ∧
      (∀ timer, timer ∈ scheduled ↔ InSlotList state.wheel timer) ∧
      state.wheel.numTimers.toInt = scheduled.card)

/-- An orderly step that starts no scheduled timer. -/
def Accountable (state : State T) (label : Label T) : Prop :=
  Orderly state label ∧ FirstStart state label

instance Accountable.decidable [Fintype T] (state : State T) (label : Label T) :
    Decidable (Accountable state label) := by
  rcases label with _ | _ <;> unfold Accountable FirstStart <;> infer_instance

omit [DecidableEq T] in
theorem Tallied.accounted {state : State T} {content : Content T} (tallied : Tallied state due)
    (flagged : Flagged state.wheel due) (shape : Shape state content due) : Accounted state := by
  obtain ⟨pending, pendingIff, bound, count⟩ := tallied
  have countEq : state.wheel.numTimers.toInt = pending.card := by
    rw [count, toInt_ofNat_card bound]
  refine ⟨countEq ▸ Int.natCast_nonneg _, fun outside => ?_⟩
  obtain ⟨held, rfl⟩ := shape.outside outside
  have notFiring : state.firing = none := by rw [State.firing, outside]
  have inSlot (timer : T) : timer ∈ pending ↔ (state.wheel.timers timer).slot ≠ -1 := by
    rw [pendingIff, Pending, notFiring, Waiting]
    simp
  refine ⟨pending, fun timer => ?_, fun timer => ?_, countEq⟩
  · rw [inSlot, ← inSlotList_iff held, flagged.scheduled_iff held]
  · rw [inSlot, inSlotList_iff held]

theorem tracked {tickIntervalMs now : BitVec 64} {state : State T}
    (run : GuardedRun step Accountable (State.initial tickIntervalMs now) state) :
    ∃ content due, Shape state content due ∧ Flagged state.wheel due ∧ Tallied state due := by
  refine run.invariant
    (fun state => ∃ content due, Shape state content due ∧ Flagged state.wheel due ∧
      Tallied state due)
    ⟨initialContent, [], shape_initial tickIntervalMs now, flagged_initial tickIntervalMs now, ∅, ?_,
      ?_, rfl⟩ ?_
  · simp [Pending, Waiting, State.firing, State.initial, timerWheelCreate, timerInit]
  · exact Nat.two_pow_pos 31
  · rintro state label next ⟨content, due, shape, flagged, tallied⟩ ⟨orderly, first⟩ stepEq
    obtain ⟨changed, left, nextShape, change⟩ := shape.step orderly stepEq
    exact ⟨changed, left, nextShape, flagged.change change, tallied.change first change⟩

/-- If no step uses a stale head and a timer is started only when it is not scheduled
and has not expired, `num_timers` is the number of scheduled timers. -/
theorem numTimers_accounted {tickIntervalMs now : BitVec 64} {state : State T}
    (run : GuardedRun step Accountable (State.initial tickIntervalMs now) state) :
    Accounted state := by
  obtain ⟨content, due, shape, flagged, tallied⟩ := tracked run
  exact tallied.accounted flagged shape

/-- A periodic and a one-shot timer expire together, and the callback of the first
stops the second. -/
def stopOther : List (Label Bool) :=
  [.call (.startPeriodic false 1), .call (.start true 1), .tick 2, .advance 0, .cascade 0,
    .advance 2, .cascade 0, .expire, .next, .call (.stop true), .done, .next, .done, .next]

theorem numTimers_accounted_stopOther :
    ∃ state, exec (guarded step Accountable) (State.initial 1 0) stopOther = some state ∧
      state.point = .phase .outside ∧ state.wheel.numTimers = 1 ∧
      (state.wheel.timers false).state = .scheduled ∧ (state.wheel.timers true).state = .idle ∧
      Accounted state := by
  apply exists_exec fun state => state.point = .phase .outside ∧ state.wheel.numTimers = 1 ∧
    (state.wheel.timers false).state = .scheduled ∧ (state.wheel.timers true).state = .idle
  · decide +kernel
  · rintro state stateEq ⟨outside, count, first, second⟩
    exact ⟨outside, count, first, second, numTimers_accounted (guardedRun_of_exec stateEq)⟩

/-- A timer is started twice. -/
def startTwice : List (Label Unit) :=
  [.call (.start () 10), .call (.start () 20)]

/-- A timer fires at tick 1; the next tick finds it in the stale list `expired`. -/
def fireTwice : List (Label Unit) :=
  [.call (.start () 1), .tick 2, .advance 0, .cascade 0, .advance 1, .cascade 0, .expire, .next,
    .done, .next, .tick 3, .advance 0, .cascade 0, .expire, .next, .done, .next]

/-- A timer that is started twice counts as two, and one that is fired twice makes the
counter negative. -/
theorem not_accounted_startTwice : (∃ state : State Unit, Reachable step (State.initial 1 0) state ∧
      state.point = .phase .outside ∧ state.wheel.numTimers.toInt = 2 ∧ ¬ Accounted state) ∧
    ∃ state : State Unit, Reachable step (State.initial 1 0) state ∧
      state.point = .phase .outside ∧ state.wheel.numTimers.toInt = -1 ∧ ¬ Accounted state := by
  constructor
  · refine exists_reachable startTwice (fun state => state.point = .phase .outside ∧
      state.wheel.numTimers.toInt = 2) (by decide +kernel) ?_
    rintro state ⟨outside, count⟩
    refine ⟨outside, count, fun accounted => ?_⟩
    obtain ⟨scheduled, -, -, countEq⟩ := accounted.2 outside
    have atMostOne : scheduled.card ≤ 1 := Finset.card_le_one_of_subsingleton scheduled
    omega
  · refine exists_reachable fireTwice (fun state => state.point = .phase .outside ∧
      state.wheel.numTimers.toInt = -1) (by decide +kernel) ?_
    rintro state ⟨outside, count⟩
    refine ⟨outside, count, fun accounted => ?_⟩
    have nonneg := accounted.1
    omega

end QDaemon.Timer.Callbacks
