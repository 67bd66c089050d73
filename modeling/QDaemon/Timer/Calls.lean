import QDaemon.Timer.Representation

/-!
# Starting and stopping timers

Between the calls of `qd_timer_wheel_tick` a timer is in the slot that its fields
name or in no list.  Starting and stopping keep that, provided that the head of
the slot that a timer is started into is not stale.
-/

namespace QDaemon.Timer

open Function Linked

universe u

variable {T : Type u} [DecidableEq T]

/-! ## The fields after a call -/

section Fields

variable (periodic : Bool) (wheel : Wheel T) (timer : T) (ms : BitVec 64)

theorem removeTimerInternal_ticks :
    (wheel.removeTimerInternal timer).currentTick = wheel.currentTick ∧
      (wheel.removeTimerInternal timer).ticks ms = wheel.ticks ms := by
  unfold Wheel.removeTimerInternal
  split <;> exact ⟨rfl, rfl⟩

theorem removeTimerInternal_timers : (wheel.removeTimerInternal timer).timers =
      update wheel.timers timer ((wheel.removeTimerInternal timer).timers timer) := by
  unfold Wheel.removeTimerInternal
  split
  · simp [Wheel.setTimer, Wheel.unlink]
  · rw [update_eq_self]

/-- The expiry of a timer that is started now. -/
def Wheel.expiry : Nat :=
  (wheel.currentTick + wheel.ticks ms) % 2 ^ 64

/-- The slot of a timer that is started now. -/
def Wheel.startPlace : Nat × Nat :=
  calculateSlot wheel.currentTick (wheel.expiry ms)

/-- The fields of a timer that is started now. -/
def Wheel.startedFields : QdTimer where
  expires := wheel.expiry ms
  interval := wheel.ticks ms
  periodic := periodic
  state := .scheduled
  slot := (wheel.startPlace ms).2
  wheelLevel := (wheel.startPlace ms).1

theorem startWith_timers : (Wheel.startWith periodic wheel timer ms).timers =
      update wheel.timers timer (wheel.startedFields periodic ms) := by
  obtain ⟨tickEq, ticksEq⟩ := removeTimerInternal_ticks wheel timer ms
  simp only [Wheel.startWith, Wheel.addTimerInternal, Wheel.setTimer, update_self,
    update_idem, tickEq, ticksEq]
  rw [removeTimerInternal_timers, update_idem]
  rfl

theorem startWith_links :
    (Wheel.startWith periodic wheel timer ms).links = (wheel.removeTimerInternal timer).links.addTail
      (.timer timer) (.slot (wheel.startPlace ms).1 (wheel.startPlace ms).2) := by
  obtain ⟨tickEq, ticksEq⟩ := removeTimerInternal_ticks wheel timer ms
  simp only [Wheel.startWith, Wheel.addTimerInternal, Wheel.setTimer, update_self, tickEq, ticksEq]
  rfl

theorem startWith_clock :
    (Wheel.startWith periodic wheel timer ms).currentTick = wheel.currentTick := by
  exact (removeTimerInternal_ticks wheel timer ms).1

end Fields

/-! ## Representation -/

/-- Two contents with the same heads in use, and the same entries outside of the
slots. -/
structure SameHeads (content changed : Content T) : Prop where
  others : ∀ node, (∀ level slot, node ≠ .slot level slot) → changed node = content node
  slots : ∀ level slot,
    changed (.slot level slot) = none ↔ content (.slot level slot) = none

omit [DecidableEq T] in
theorem SameHeads.trans {first second third : Content T} (left : SameHeads first second)
    (right : SameHeads second third) : SameHeads first third :=
  ⟨fun node notSlot => (right.others node notSlot).trans (left.others node notSlot),
    fun level slot => (right.slots level slot).trans (left.slots level slot)⟩

variable {content : Content T}

theorem sameHeads_update {level slot : Nat} {old : List (Node T)}
    (slotEq : content (.slot level slot) = some old) (new : List (Node T)) :
    SameHeads content (update content (.slot level slot) (some new)) := by
  refine ⟨fun node notSlot => update_of_ne (notSlot level slot) _ _, fun otherLevel otherSlot => ?_⟩
  by_cases same : (.slot otherLevel otherSlot : Node T) = .slot level slot
  · rw [same, slotEq]
    simp
  · rw [update_of_ne same]

/-- The wheel between two calls: no local list is in use, and `expired` is empty
or stale. -/
structure Resting (wheel : Wheel T) (content : Content T) : Prop where
  represents : Represents wheel.links wheel.timers content none
  tmp : content .tmp = none
  fired : content .fired = none
  expired : content .expired = none ∨ content .expired = some []

/-- The heads of a new wheel. -/
def initialContent : Content T
  | .slot _ _ => some []
  | .expired => some []
  | _ => none

omit [DecidableEq T] in
theorem initialContent_eq {head : Node T} {list : List (Node T)}
    (eq : initialContent head = some list) : list = [] := by
  cases head <;> simp_all [initialContent]

omit [DecidableEq T] in
theorem resting_timerWheelCreate (tickIntervalMs now : BitVec 64) :
    Resting (timerWheelCreate tickIntervalMs now : Wheel T) initialContent where
  represents := {
    rings := {
      ring := by
        intro head list eq
        rw [initialContent_eq eq]
        exact ⟨⟨rfl, rfl⟩, List.nodup_singleton head⟩
      apart := by
        intro head other list others eq otherEq different
        rw [initialContent_eq eq, initialContent_eq otherEq]
        simpa using different.symm }
    entries := by
      intro head list eq
      rw [initialContent_eq eq]
      simp
    heads := fun _ => rfl
    stored := by
      intro level slot list eq timer
      rw [initialContent_eq eq]
      exact iff_of_false List.not_mem_nil (not_storedAt rfl level slot)
    inSlot := fun _ => .inl rfl
    tmpInUse := fun inUse => absurd rfl inUse
    spliced := by simp
    staleSlot := by simp [initialContent]
    staleExpired := by simp [initialContent] }
  tmp := rfl
  fired := rfl
  expired := .inr rfl

variable {wheel : Wheel T}

omit [DecidableEq T] in
theorem Resting.of_sameHeads {changed : Wheel T} {next : Content T}
    (resting : Resting wheel content) (same : SameHeads content next)
    (represents : Represents changed.links changed.timers next none) : Resting changed next :=
  ⟨represents, by rw [same.others _ (by simp), resting.tmp],
    by rw [same.others _ (by simp), resting.fired],
    by rw [same.others _ (by simp)]; exact resting.expired⟩

omit [DecidableEq T] in
theorem not_mem_of_unused {entries : Option (List (Node T))} {node : Node T}
    (unused : entries = none ∨ entries = some []) (list : List (Node T))
    (eq : entries = some list) : node ∉ list := by
  subst eq
  rcases unused with eq | eq <;> cases eq
  exact List.not_mem_nil

section

variable (rep : Represents wheel.links wheel.timers content none)
include rep

/-- A removed timer names no slot. -/
theorem Represents.removeTimerInternal (timer : T) :
    ∃ next, Represents (wheel.removeTimerInternal timer).links
        (wheel.removeTimerInternal timer).timers next none ∧ SameHeads content next ∧
      ((wheel.removeTimerInternal timer).timers timer).slot = -1 := by
  rcases rep.inSlot timer with out | ⟨level, slot, list, -, -, storedAt, eq⟩
  · have unchanged : wheel.removeTimerInternal timer = wheel := if_neg (by rw [out]; decide)
    rw [unchanged]
    exact ⟨content, rep, ⟨fun _ _ => rfl, fun _ _ => Iff.rfl⟩, out⟩
  · rw [home_none] at eq
    have inside := (rep.mem_slot eq timer).mpr storedAt
    obtain ⟨front, back, rfl⟩ := List.append_of_mem inside
    have removed : wheel.removeTimerInternal timer =
        (wheel.unlink timer).setTimer timer fun fields =>
          { fields with
            slot := -1
            wheelLevel := -1 } := if_pos (by rw [storedAt.1]; exact Int.natCast_nonneg slot)
    rw [removed]
    refine ⟨_, rep.delInit eq rfl, sameHeads_update eq (front ++ back), ?_⟩
    simp [Wheel.setTimer]

/-- Starting a timer that is in none of the lists of a tick stores it in its slot. -/
theorem Represents.startWith (periodic : Bool) (timer : T) (ms : BitVec 64)
    (notExpired : ∀ list, content .expired = some list → .timer timer ∉ list)
    (notFired : ∀ list, content .fired = some list → .timer timer ∉ list)
    (inUse : content (.slot (wheel.startPlace ms).1 (wheel.startPlace ms).2) ≠ none) :
    ∃ next, Represents (Wheel.startWith periodic wheel timer ms).links
      (Wheel.startWith periodic wheel timer ms).timers next none ∧ SameHeads content next := by
  obtain ⟨levelLt, slotLt⟩ := calculateSlot_lt wheel.currentTick (wheel.expiry ms)
  obtain ⟨removed, removedRep, same, out⟩ := rep.removeTimerInternal timer
  obtain ⟨list, listEq⟩ := Option.ne_none_iff_exists'.mp
    (fun unused => inUse ((same.slots _ _).mp unused))
  have outside : Outside removed (.timer timer) := by
    apply removedRep.outside_of_free out
    · rwa [same.others _ (by simp)]
    · rwa [same.others _ (by simp)]
  have stored : Represents _ (update _ timer (wheel.startedFields periodic ms)) _ none :=
    removedRep.store listEq outside levelLt slotLt ⟨rfl, rfl⟩
  rw [removeTimerInternal_timers, update_idem, ← startWith_timers,
    ← startWith_links periodic wheel timer ms] at stored
  exact ⟨_, stored, same.trans (sameHeads_update listEq (list ++ [.timer timer]))⟩

/-- A stopped timer is taken out of its slot. -/
theorem Represents.timerStop (timer : T) :
    ∃ next, Represents (wheel.timerStop timer).links (wheel.timerStop timer).timers next none ∧
      SameHeads content next := by
  obtain ⟨removed, removedRep, same, -⟩ := rep.removeTimerInternal timer
  refine ⟨removed, ?_, same⟩
  have linksEq : (wheel.timerStop timer).links = (wheel.removeTimerInternal timer).links := by
    unfold Wheel.timerStop Wheel.removeTimerInternal
    split <;> rfl
  rw [linksEq]
  refine removedRep.congr fun other => ?_
  by_cases different : other = timer
  · subst different
    unfold Wheel.timerStop Wheel.removeTimerInternal
    split <;> simp [Wheel.setTimer]
  · unfold Wheel.timerStop Wheel.removeTimerInternal
    split <;> simp [Wheel.setTimer, different]

end

variable (resting : Resting wheel content)
include resting

/-- Starting a timer between two calls. -/
theorem Resting.startWith (periodic : Bool) (timer : T) (ms : BitVec 64)
    (inUse : content (.slot (wheel.startPlace ms).1 (wheel.startPlace ms).2) ≠ none) :
    ∃ next, Resting (Wheel.startWith periodic wheel timer ms) next ∧ SameHeads content next := by
  obtain ⟨next, stored, same⟩ := resting.represents.startWith periodic timer ms
    (not_mem_of_unused resting.expired) (by simp [resting.fired]) inUse
  exact ⟨next, resting.of_sameHeads same stored, same⟩

/-- Stopping a timer between two calls. -/
theorem Resting.timerStop (timer : T) :
    ∃ next, Resting (wheel.timerStop timer) next ∧ SameHeads content next := by
  obtain ⟨next, stopped, same⟩ := resting.represents.timerStop timer
  exact ⟨next, resting.of_sameHeads same stopped, same⟩

end QDaemon.Timer
