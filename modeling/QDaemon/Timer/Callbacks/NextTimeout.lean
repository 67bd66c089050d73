import QDaemon.Timer.Callbacks.Accounting

/-!
# The timeout of the event loop

`qd_timer_wheel_next_timeout` looks for the first slot of level zero that holds a
timer, and at the higher levels only if there is none.  So it may return more than
the time that is left to a timer of a higher level.
-/

namespace QDaemon.Timer

open Function List Linked Transition

universe u

variable {T : Type u}

/-! ## Level zero -/

section

variable {wheel : Wheel T} {content : Content T}
  (held : Held wheel content none (fun _ => wheel.currentTick) [])
include held

theorem Held.not_empty_iff {slot : Nat} (slotLt : slot < 256) :
    ¬ wheel.links.Empty (.slot 0 slot) ↔ ∃ timer, StoredAt (wheel.timers timer) 0 slot := by
  obtain ⟨list, listEq⟩ := Option.ne_none_iff_exists'.mp (held.bottom slot slotLt)
  have stored := held.represents.mem_slot listEq
  rw [(held.represents.rings.ring listEq).empty_iff]
  constructor
  · intro filled
    obtain ⟨node, mem⟩ := exists_mem_of_ne_nil list filled
    obtain ⟨timer, rfl⟩ := held.represents.entries listEq node mem
    exact ⟨timer, (stored timer).mp mem⟩
  · rintro ⟨timer, storedAt⟩
    exact ne_nil_of_mem ((stored timer).mpr storedAt)

/-- A timer of level zero is in the slot of its distance from the tick. -/
theorem Held.bottom_slot {timer : T} {slot : Nat} (storedAt : StoredAt (wheel.timers timer) 0 slot) :
    ∃ distance < 256, wheel.currentTick + distance = (wheel.timers timer).expires ∧
      slot = (wheel.currentTick + distance) &&& 255 := by
  have placed := held.placed storedAt
  obtain ⟨due, near⟩ := placed.ahead (by simp)
  refine ⟨(wheel.timers timer).expires - wheel.currentTick, by omega, by omega, ?_⟩
  rw [Nat.add_sub_cancel' due, placed.slotEq]
  exact (shiftRight_land_255 _ 0).symm

end

/-! ## The timeout -/

variable [DecidableEq T]

namespace Wheel

variable (wheel : Wheel T)

/-- `qd_timer_wheel_next_timeout`. -/
def nextTimeout : Int :=
  if wheel.numTimers = 0 then -1
  else
    match (range 256).find? fun i =>
        ¬ wheel.links.Empty (.slot 0 ((wheel.currentTick + i) &&& 255)) with
    | some i => (BitVec.ofNat 64 (i * wheel.tickIntervalMs)).toInt
    | none => (BitVec.ofNat 64 wheel.tickIntervalMs).toInt

/-- The timeout is not -1 and not later than any pending timer. -/
def InTime : Prop :=
  ∀ timer, (wheel.timers timer).state = .scheduled → wheel.nextTimeout ≠ -1 ∧
    wheel.nextTimeout ≤
      ((wheel.timers timer).expires - wheel.currentTick : Int) * wheel.tickIntervalMs

/-- A timer is on level zero. -/
def AtBottom (timer : T) : Prop :=
  (wheel.timers timer).state = .scheduled ∧ (wheel.timers timer).wheelLevel = 0

/-- The largest timeout is a positive `int64_t`, and if there are timers on level
zero, one of them is as early as any pending timer. -/
def BottomFirst : Prop :=
  255 * wheel.tickIntervalMs < 2 ^ 63 ∧ ∀ bottom, wheel.AtBottom bottom →
    ∀ timer, (wheel.timers timer).state = .scheduled →
      ∃ first, wheel.AtBottom first ∧ (wheel.timers first).expires ≤ (wheel.timers timer).expires

end Wheel

/-- A timeout that fits into `int64_t` is at most the distance of a later expiry. -/
theorem timeout_le {ticks interval tick expires : Nat} (later : tick + ticks ≤ expires)
    (fits : ticks * interval < 2 ^ 63) : (BitVec.ofNat 64 (ticks * interval)).toInt ≠ -1 ∧
      (BitVec.ofNat 64 (ticks * interval)).toInt ≤ (expires - tick : Int) * interval := by
  have product : (ticks * interval : Int) ≤ (expires - tick) * interval :=
    Int.mul_le_mul_of_nonneg_right (by omega) (Int.natCast_nonneg interval)
  rw [BitVec.toInt_ofNat', Int.bmod_eq_of_le (by omega) (by omega)]
  exact ⟨by omega, product⟩

/-- A wheel in order, with a counter that is not zero while a timer is pending. -/
theorem Held.inTime {wheel : Wheel T} {content : Content T}
    (held : Held wheel content none (fun _ => wheel.currentTick) [])
    (stored : ∀ timer, (wheel.timers timer).state = .scheduled ↔ (wheel.timers timer).slot ≠ -1)
    (counted : ∀ timer, (wheel.timers timer).state = .scheduled → wheel.numTimers ≠ 0)
    (bottomFirst : wheel.BottomFirst) : wheel.InTime := by
  obtain ⟨fits, first⟩ := bottomFirst
  have slotLt (n : Nat) : n &&& 255 < 256 := Nat.and_lt_two_pow n (n := 8) (by decide)
  have place {timer : T} (pending : (wheel.timers timer).state = .scheduled) :=
    (held.represents.inSlot timer).resolve_left ((stored timer).mp pending)
  intro timer pending
  rw [Wheel.nextTimeout, if_neg (counted timer pending)]
  split
  next i found =>
    obtain ⟨filled, mem, before⟩ := find?_range_eq_some.mp found
    obtain ⟨bottom, bottomAt⟩ := (held.not_empty_iff (slotLt _)).mp (of_decide_eq_true filled)
    have bottomPending := (stored bottom).mpr fun out => not_storedAt out _ _ bottomAt
    obtain ⟨early, ⟨earlyPending, levelEq⟩, earlier⟩ :=
      first bottom ⟨bottomPending, bottomAt.2⟩ timer pending
    obtain ⟨level, slot, list, -, -, earlyAt, -⟩ := place earlyPending
    obtain rfl : level = 0 := by
      have := earlyAt.2
      omega
    obtain ⟨distance, distanceLt, sum, rfl⟩ := held.bottom_slot earlyAt
    have le : i ≤ distance := by
      by_contra less
      have empty := before distance (Nat.not_le.mp less)
      simp only [decide_not, Bool.not_not, decide_eq_true_eq] at empty
      exact (held.not_empty_iff (slotLt _)).mpr ⟨early, earlyAt⟩ empty
    refine timeout_le (by omega) (Nat.lt_of_le_of_lt (Nat.mul_le_mul_right _ ?_) fits)
    omega
  next none_ =>
    obtain ⟨level, slot, list, -, -, storedAt, -⟩ := place pending
    cases level with
    | zero =>
      obtain ⟨distance, distanceLt, -, rfl⟩ := held.bottom_slot storedAt
      have empty := find?_range_eq_none.mp none_ distance distanceLt
      simp only [decide_not, Bool.not_not, decide_eq_true_eq] at empty
      exact absurd empty ((held.not_empty_iff (slotLt _)).mpr ⟨timer, storedAt⟩)
    | succ level =>
      have later := ((held.placed storedAt).ahead (by simp)).succ_le
      have single := timeout_le later (show 1 * wheel.tickIntervalMs < 2 ^ 63 by omega)
      rwa [Nat.one_mul] at single

namespace Callbacks

/-- If no step uses a stale head or starts a scheduled timer, the timeout is in time
wherever the earliest timer is on level zero or no timer is. -/
theorem inTime_of_run {tickIntervalMs now : BitVec 64} {state : State T}
    (run : GuardedRun step Accountable (State.initial tickIntervalMs now) state)
    (outside : state.point = .phase .outside) (bottomFirst : state.wheel.BottomFirst) :
    state.wheel.InTime := by
  obtain ⟨content, due, shape, flagged, tallied⟩ := tracked run
  obtain ⟨-, counted⟩ := tallied.accounted flagged shape
  obtain ⟨scheduled, stateIff, -, countEq⟩ := counted outside
  obtain ⟨held, rfl⟩ := shape.outside outside
  refine held.inTime (fun timer => ?_) (fun timer pending zero => ?_) bottomFirst
  · rw [← flagged.scheduled_iff held, inSlotList_iff held]
  · rw [zero] at countEq
    have none_ : scheduled = ∅ := Finset.card_eq_zero.mp (Int.natCast_eq_zero.mp countEq.symm)
    exact absurd ((stateIff timer).mpr pending) (by simp [none_])

/-- A timer that is due in three ticks. -/
theorem inTime_threeTicks : ∃ state : State Unit,
    exec (guarded step Accountable) (State.initial 1 0) [.call (.start () 3)] = some state ∧
      state.wheel.nextTimeout = 3 ∧ state.wheel.InTime := by
  refine exists_exec (fun state => state.point = .phase .outside ∧
    state.wheel.nextTimeout = 3 ∧ 255 * state.wheel.tickIntervalMs < 2 ^ 63 ∧
    (state.wheel.timers ()).state = .scheduled ∧ (state.wheel.timers ()).wheelLevel = 0)
    (by decide +kernel) ?_
  rintro state stateEq ⟨outside, timeout, fits, first⟩
  refine ⟨timeout, inTime_of_run (guardedRun_of_exec stateEq) outside ⟨fits, ?_⟩⟩
  exact fun _ _ _ _ => ⟨(), first, Nat.le_refl _⟩

/-- A timer is started for tick 256, on level one, and at tick 2 another one for tick
257, on level zero.  The timeout is 255 ticks, but the first timer is due in 254. -/
theorem not_inTime_levelOne : ∃ state : State Bool,
    exec step (State.initial 1 0) [.call (.start false 256), .tick 2, .advance 0, .cascade 0,
      .advance 0, .cascade 0, .expire, .next, .call (.start true 255)] = some state ∧
      state.point = .phase .outside ∧ ¬ state.wheel.InTime := by
  refine exists_exec (fun state =>
    state.point = .phase .outside ∧ (state.wheel.timers false).state = .scheduled ∧
      state.wheel.nextTimeout = 255 ∧ state.wheel.currentTick = 2 ∧ state.wheel.tickIntervalMs = 1 ∧
      (state.wheel.timers false).expires = 256) (by decide +kernel) ?_
  rintro state - ⟨outside, pending, timeout, tickEq, intervalEq, expiresEq⟩
  refine ⟨outside, fun inTime => ?_⟩
  have bound := (inTime false pending).2
  rw [timeout, tickEq, intervalEq, expiresEq] at bound
  cases bound

end Callbacks

end QDaemon.Timer
