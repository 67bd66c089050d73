import QDaemon.Timer.Parts

/-!
# Where the timers of a wheel are

A timer that waits is in a slot that the tick has not passed, or it has expired in
the tick that is going on.  This is kept by the calls that start and stop timers,
between ticks as well as from a callback, provided that the head of the slot that a
timer is started into is not stale.
-/

namespace QDaemon.Timer

open Function Linked

universe u

variable {T : Type u}

/-- A timer with this expiry belongs into the slot.  The timers of the slot that
is being cascaded may be there too late, but not later than their expiry. -/
structure Placed (tick : Nat) (reach : Nat → Nat) (moved : Option (Nat × Nat))
    (expires level slot : Nat) : Prop where
  slotEq : slot = slotOf expires level
  bounded : expires < 2 ^ 64
  due : tick ≤ expires
  ahead : moved ≠ some (level, slot) → Ahead (reach level) expires level

theorem Placed.of_ne {tick expires level slot : Nat} {reach : Nat → Nat}
    {moved : Option (Nat × Nat)} (placed : Placed tick reach moved expires level slot)
    (other : moved ≠ some (level, slot)) : Placed tick reach none expires level slot :=
  ⟨placed.slotEq, placed.bounded, placed.due, fun _ => placed.ahead other⟩

/-- The lists of a tick between its parts. -/
structure Ticking (content : Content T) (due : List T) : Prop where
  tmp : content .tmp = none
  fired : content .fired = none
  expired : content .expired = some (due.map .timer)

/-- The slots of a wheel.  Up to the tick `reach level` the timers of a level are in
the right slots; `due` are the timers that have expired and have not been fired. -/
structure Held (wheel : Wheel T) (content : Content T) (moved : Option (Nat × Nat))
    (reach : Nat → Nat) (due : List T) : Prop where
  represents : Represents wheel.links wheel.timers content moved
  bottom : ∀ slot < 256, content (.slot 0 slot) ≠ none
  placed : ∀ {timer level slot}, StoredAt (wheel.timers timer) level slot →
    Placed wheel.currentTick reach moved (wheel.timers timer).expires level slot
  out : ∀ timer ∈ due, (wheel.timers timer).slot = -1

/-- A timer is in a slot, or has expired and has not been fired. -/
def Waiting (wheel : Wheel T) (due : List T) (timer : T) : Prop :=
  (wheel.timers timer).slot ≠ -1 ∨ timer ∈ due

theorem held_timerWheelCreate (tickIntervalMs now : BitVec 64) :
    Held (timerWheelCreate tickIntervalMs now : Wheel T) initialContent none (fun _ => 0) [] where
  represents := (resting_timerWheelCreate tickIntervalMs now).represents
  bottom := by simp [initialContent]
  placed := fun storedAt => absurd storedAt (not_storedAt rfl _ _)
  out := by simp

variable [DecidableEq T] {wheel : Wheel T} {content : Content T} {moved : Option (Nat × Nat)}
  {reach : Nat → Nat} {due : List T} {timer : T}

section Waiting

variable {changed : Wheel T} {left : List T} {other : T} {fields : QdTimer}

variable (timersEq : changed.timers = update wheel.timers timer fields)
include timersEq

theorem waiting_self : Waiting changed left timer ↔ fields.slot ≠ -1 ∨ timer ∈ left := by
  rw [Waiting, timersEq, update_self]

theorem waiting_of_ne
    (different : other ≠ timer) : Waiting changed left other ↔ Waiting wheel left other := by
  rw [Waiting, timersEq, update_of_ne different, Waiting]

end Waiting

/-- Replacing the entries of heads in use keeps level zero in use. -/
theorem bottom_update (bottom : ∀ slot < 256, content (.slot 0 slot) ≠ none) (head : Node T)
    (list : List (Node T)) : ∀ slot < 256, update content head (some list) (.slot 0 slot) ≠ none :=
  fun slot slotLt unused => bottom slot slotLt (update_eq_none unused)

/-- A step that changes one timer. -/
theorem Held.update {changed : Wheel T} {next : Content T} {left : List T} {fields : QdTimer}
    (held : Held wheel content moved reach due)
    (represents : Represents changed.links changed.timers next moved)
    (bottom : ∀ slot < 256, next (.slot 0 slot) ≠ none)
    (tickEq : changed.currentTick = wheel.currentTick)
    (timersEq : changed.timers = update wheel.timers timer fields)
    (placed : ∀ {level slot}, StoredAt fields level slot →
      Placed wheel.currentTick reach moved fields.expires level slot)
    (others : ∀ other, other ≠ timer → other ∈ left → other ∈ due)
    (out : timer ∈ left → fields.slot = -1) : Held changed next moved reach left := by
  refine ⟨represents, bottom, fun {other} => ?_, ?_⟩
  · rw [tickEq, timersEq]
    exact (forall_update_iff wheel.timers fun _ fields => ∀ {level slot}, StoredAt fields level slot →
      Placed wheel.currentTick reach moved fields.expires level slot).mpr
        ⟨placed, fun _ _ => held.placed⟩ other
  · rw [timersEq]
    exact (forall_update_iff wheel.timers fun other fields => other ∈ left → fields.slot = -1).mpr
      ⟨out, fun other different mem => held.out other (others other different mem)⟩

omit [DecidableEq T] in
/-- A timer that is in a slot names it. -/
theorem Held.slot_nonneg (held : Held wheel content moved reach due)
    (inSlot : (wheel.timers timer).slot ≠ -1) : 0 ≤ (wheel.timers timer).slot := by
  obtain out | ⟨_, slot, _, _, _, storedAt, _⟩ := held.represents.inSlot timer
  · exact absurd out inSlot
  · exact storedAt.1 ▸ Int.natCast_nonneg slot

/-! ## Calls -/

/-- A timer is placed for the current tick. -/
theorem placed_calculateSlot {tick expires : Nat} (later : tick ≤ expires)
    (bounded : expires < 2 ^ 64) :
    Placed tick (fun _ => tick) none expires (calculateSlot tick expires).1
      (calculateSlot tick expires).2 := by
  obtain ⟨-, slotEq, ahead⟩ := calculateSlot_spec later bounded
  exact ⟨slotEq, bounded, later, fun _ => ahead⟩

/-- Starting a timer that is in none of the lists of a tick. -/
theorem Held.startWith (held : Held wheel content none (fun _ => wheel.currentTick) due)
    (periodic : Bool) (ms : BitVec 64)
    (notExpired : ∀ list, content .expired = some list → .timer timer ∉ list)
    (notFired : ∀ list, content .fired = some list → .timer timer ∉ list) (notDue : timer ∉ due)
    (bounded : wheel.currentTick + wheel.ticks ms < 2 ^ 64)
    (fresh : ¬ Stale wheel.links (.slot (wheel.startPlace ms).1 (wheel.startPlace ms).2)) :
    ∃ next, Held (Wheel.startWith periodic wheel timer ms) next none
        (fun _ => wheel.currentTick) due ∧ SameHeads content next := by
  have expiryEq : wheel.expiry ms = wheel.currentTick + wheel.ticks ms := Nat.mod_eq_of_lt bounded
  obtain ⟨levelLt, slotLt⟩ := calculateSlot_lt wheel.currentTick (wheel.expiry ms)
  obtain ⟨next, represents, same⟩ := held.represents.startWith periodic timer ms notExpired notFired
    (Option.ne_none_iff_exists'.mpr (held.represents.exists_of_not_stale levelLt slotLt fresh))
  have atPlace : StoredAt (wheel.startedFields periodic ms) (wheel.startPlace ms).1
      (wheel.startPlace ms).2 := ⟨rfl, rfl⟩
  refine ⟨next, held.update represents ?_ (startWith_clock periodic wheel timer ms)
    (startWith_timers periodic wheel timer ms) ?_ (fun _ _ mem => mem)
    fun mem => absurd mem notDue, same⟩
  · exact fun slot slotLt unused => held.bottom slot slotLt ((same.slots 0 slot).mp unused)
  · intro level slot storedAt
    obtain ⟨rfl, rfl⟩ := storedAt.unique atPlace
    have later : wheel.currentTick ≤ wheel.expiry ms := expiryEq ▸ Nat.le_add_right _ _
    have expiryLt : wheel.expiry ms < 2 ^ 64 := expiryEq ▸ bounded
    exact placed_calculateSlot later expiryLt

/-- The fields of a timer that is stopped now. -/
def Wheel.stoppedFields (wheel : Wheel T) (timer : T) : QdTimer :=
  { (wheel.removeTimerInternal timer).timers timer with state := .cancelled }

theorem timerStop_timers (wheel : Wheel T) (timer : T) :
    (wheel.timerStop timer).timers = update wheel.timers timer (wheel.stoppedFields timer) := by
  unfold Wheel.timerStop Wheel.stoppedFields Wheel.removeTimerInternal
  split <;> simp [Wheel.setTimer, Wheel.unlink]

theorem stoppedFields_periodic (wheel : Wheel T) (timer : T) :
    (wheel.stoppedFields timer).periodic = (wheel.timers timer).periodic := by
  unfold Wheel.stoppedFields Wheel.removeTimerInternal
  split <;> simp [Wheel.setTimer, Wheel.unlink]

theorem timerStop_clock (wheel : Wheel T) (timer : T) :
    (wheel.timerStop timer).currentTick = wheel.currentTick := by
  unfold Wheel.timerStop Wheel.removeTimerInternal
  split <;> rfl

theorem timerStop_numTimers (wheel : Wheel T) (timer : T) : (wheel.timerStop timer).numTimers =
      if 0 ≤ (wheel.timers timer).slot then wheel.numTimers - 1#32 else wheel.numTimers := by
  unfold Wheel.timerStop
  split <;> rfl

variable (held : Held wheel content none reach due)
include held

theorem Held.stoppedFields_slot (timer : T) : (wheel.stoppedFields timer).slot = -1 := by
  obtain ⟨-, -, -, out⟩ := held.represents.removeTimerInternal timer
  exact out

/-- Stopping a timer. -/
theorem Held.timerStop (timer : T) :
    ∃ next, Held (wheel.timerStop timer) next none reach due ∧ SameHeads content next := by
  obtain ⟨next, represents, same⟩ := held.represents.timerStop timer
  have out := held.stoppedFields_slot timer
  refine ⟨next, held.update represents ?_ (timerStop_clock wheel timer)
    (timerStop_timers wheel timer) ?_ (fun _ _ mem => mem) fun _ => out, same⟩
  · exact fun slot slotLt unused => held.bottom slot slotLt ((same.slots 0 slot).mp unused)
  · exact fun storedAt => absurd storedAt (not_storedAt out _ _)

end QDaemon.Timer
