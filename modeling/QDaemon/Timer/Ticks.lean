import QDaemon.Timer.Held

/-!
# The parts of a tick

The slot that a tick leaves on level zero holds exactly the timers that expire
with this tick.  A cascade puts the timers of a slot on the right level again
before the tick passes the slot.  Both only move timers between lists.
-/

namespace QDaemon.Timer

open Option Function Linked

universe u

/-! ## Moving timers -/

/-- Timers have been moved between lists: nothing else about them has changed, and the
same timers are waiting.  No timer that has expired is put back into a slot. -/
structure Moves {T : Type u} (wheel : Wheel T) (due : List T) (next : Wheel T) (left : List T) :
    Prop where
  fields : ∀ timer, next.timers timer =
    { wheel.timers timer with
      slot := (next.timers timer).slot
      wheelLevel := (next.timers timer).wheelLevel }
  waiting : ∀ timer, Waiting next left timer ↔ Waiting wheel due timer
  stored : ∀ timer, (next.timers timer).slot ≠ -1 → (wheel.timers timer).slot ≠ -1
  history : next.history = wheel.history
  numTimers : next.numTimers = wheel.numTimers

theorem Moves.refl {T : Type u} (wheel : Wheel T) (due : List T) : Moves wheel due wheel due :=
  ⟨fun _ => rfl, fun _ => Iff.rfl, fun _ => id, rfl, rfl⟩

theorem Moves.trans {T : Type u} {first second third : Wheel T} {due left rest : List T}
    (before : Moves first due second left) (after : Moves second left third rest) :
    Moves first due third rest where
  fields timer := by
    rw [after.fields, before.fields]
  waiting timer := (after.waiting timer).trans (before.waiting timer)
  stored timer now := before.stored timer (after.stored timer now)
  history := after.history.trans before.history
  numTimers := after.numTimers.trans before.numTimers

variable {T : Type u} [DecidableEq T] {wheel : Wheel T} {content : Content T}
  {moved : Option (Nat × Nat)} {reach : Nat → Nat} {due : List T} {timer : T}

omit [DecidableEq T] in
theorem targetTick_lt (wheel : Wheel T) (now : BitVec 64) : wheel.targetTick now < 2 ^ 64 :=
  Nat.lt_of_le_of_lt (Nat.div_le_self _ _) (Nat.mod_lt _ (by decide))

variable {left : List T}

/-- One timer is moved that was in a slot. -/
theorem moves_update {next : Wheel T} {fields : QdTimer}
    (timersEq : next.timers = update wheel.timers timer fields)
    (fieldsEq : fields = { wheel.timers timer with
      slot := fields.slot
      wheelLevel := fields.wheelLevel })
    (others : ∀ other, other ≠ timer → (other ∈ left ↔ other ∈ due))
    (inSlot : (wheel.timers timer).slot ≠ -1) (waiting : fields.slot ≠ -1 ∨ timer ∈ left)
    (history : next.history = wheel.history) (numTimers : next.numTimers = wheel.numTimers) :
    Moves wheel due next left := by
  refine ⟨?_, fun other => ?_, ?_, history, numTimers⟩
  · rw [timersEq]
    exact (forall_update_iff wheel.timers fun other fields => fields = { wheel.timers other with
      slot := fields.slot
      wheelLevel := fields.wheelLevel }).mpr ⟨fieldsEq, fun _ _ => rfl⟩
  · by_cases different : other = timer
    · subst different
      exact iff_of_true ((waiting_self timersEq).mpr waiting) (.inl inSlot)
    · rw [waiting_of_ne timersEq different, Waiting, others other different, Waiting]
  · rw [timersEq]
    exact (forall_update_iff wheel.timers fun other fields => fields.slot ≠ -1 →
      (wheel.timers other).slot ≠ -1).mpr ⟨fun _ => inSlot, fun _ _ => id⟩

variable {rest : List (Node T)}

/-- A timer that has just been taken out of a slot belongs to no list. -/
theorem Held.outside_delInit (held : Held wheel content moved reach due) {head : Node T}
    (headEq : content head = some (.timer timer :: rest)) (isHead : head ≠ .expired ∧ head ≠ .fired)
    (expiredEq : content .expired = some (due.map .timer)) (firedEq : content .fired = none)
    (pending : timer ∉ due) : Represents (wheel.detach timer).links (wheel.detach timer).timers
        (Function.update content head (some rest)) moved ∧
      Outside (Function.update content head (some rest)) (.timer timer) := by
  have first : content head = some ([] ++ .timer timer :: rest) := headEq
  have represents : Represents (wheel.detach timer).links (wheel.detach timer).timers
      (Function.update content head (some rest)) moved :=
    held.represents.delInit first rfl
  refine ⟨represents, represents.outside_of_free ?_ (fun list eq => ?_) (fun list eq => ?_)⟩
  · simp [Wheel.detach, Wheel.setTimer]
  · rw [update_of_ne isHead.1.symm, expiredEq] at eq
    rw [← some.inj eq]
    simpa using pending
  · rw [update_of_ne isHead.2.symm, firedEq] at eq
    cases eq

/-! ## The slot that is left -/

theorem expireTimer_of_due (expires : (wheel.timers timer).expires ≤ wheel.currentTick) :
    wheel.expireTimer timer = { wheel.detach timer with
      links := (wheel.detach timer).links.addTail (.timer timer) .expired } := by
  refine if_pos ?_
  simpa [Wheel.detach, Wheel.setTimer, Wheel.unlink] using expires

/-- A round of the loop over the slot: the timer expires now. -/
theorem Held.expireTimer (held : Held wheel content none (fun _ => wheel.currentTick) due)
    (slotEq : content (.slot 0 (wheel.tickSlot 0)) = some (.timer timer :: rest))
    (expiredEq : content .expired = some (due.map .timer)) (firedEq : content .fired = none) :
    Held (wheel.expireTimer timer)
        (Function.update (Function.update content (.slot 0 (wheel.tickSlot 0)) (some rest)) .expired
          (some ((due ++ [timer]).map .timer))) none (fun _ => wheel.currentTick) (due ++ [timer]) ∧
      Moves wheel due (wheel.expireTimer timer) (due ++ [timer]) := by
  have storedAt : StoredAt (wheel.timers timer) 0 (wheel.tickSlot 0) :=
    (held.represents.mem_slot slotEq timer).mp List.mem_cons_self
  have placed := held.placed storedAt
  have expires : (wheel.timers timer).expires = wheel.currentTick := by
    refine expires_eq_of_slot (placed.ahead (by simp)) ?_
    rw [← placed.slotEq, tickSlot_eq]
  have pending : timer ∉ due := fun mem => not_storedAt (held.out timer mem) _ _ storedAt
  obtain ⟨represents, outside⟩ := held.outside_delInit slotEq (by simp) expiredEq firedEq pending
  have detached : ((wheel.detach timer).timers timer).slot = -1 := by
    simp [Wheel.detach, Wheel.setTimer]
  have expired := represents.expire (by rw [update_of_ne (by simp), expiredEq]) outside detached
  rw [update_eq_self] at expired
  have others (other : T) (different : other ≠ timer) : other ∈ due ++ [timer] ↔ other ∈ due := by
    simp [different]
  rw [expireTimer_of_due expires.le, List.map_append]
  constructor
  · refine held.update expired (bottom_update (bottom_update held.bottom _ _) _ _) rfl rfl ?_
      (fun other different => (others other different).mp) fun _ => rfl
    exact fun storedAt => absurd storedAt (not_storedAt rfl _ _)
  · refine moves_update rfl rfl others (fun out => ?_) (.inr (by simp)) rfl rfl
    exact not_storedAt out _ _ storedAt

/-- The tick that the timers of a level are placed for, when the levels below
`level` have been cascaded. -/
def reachBelow (level tick other : Nat) : Nat :=
  if other < level then tick else tick - 1

/-- The loop over the slot of a tick, which started with `source`, and the timers that
are left in the slot. -/
def Leaving (source : Wheel T) (before : List T) (left : List T) (wheel : Wheel T) : Prop :=
  wheel.currentTick = source.currentTick ∧ ∃ content due,
    Held wheel content none (fun _ => source.currentTick) due ∧ Ticking content due ∧
    content (.slot 0 (slotOf source.currentTick 0)) = some (left.map .timer) ∧
    Moves source before wheel due

section Leaving

variable {source : Wheel T} {before left : List T}

omit [DecidableEq T] in
theorem Leaving.ring (leaving : Leaving source before left wheel) :
    Ring wheel.links (.slot 0 (slotOf source.currentTick 0)) (left.map .timer) := by
  obtain ⟨-, content, due, held, -, slotEq, -⟩ := leaving
  exact held.represents.rings.ring slotEq

theorem Leaving.round (leaving : Leaving source before (timer :: left) wheel) :
    Leaving source before left (wheel.expireTimer timer) := by
  obtain ⟨tickEq, content, due, held, ticking, slotEq, moves⟩ := leaving
  rw [← tickEq, ← tickSlot_eq] at slotEq
  rw [← tickEq] at held
  obtain ⟨next, nextMoves⟩ := held.expireTimer slotEq ticking.expired ticking.fired
  rw [tickEq] at next
  refine ⟨?_, _, _, next, ⟨?_, ?_, ?_⟩, ?_, moves.trans nextMoves⟩
  · rw [← tickEq]
    unfold Wheel.expireTimer
    simp only
    split <;> rfl
  · rw [update_of_ne (by simp), update_of_ne (by simp), ticking.tmp]
  · rw [update_of_ne (by simp), update_of_ne (by simp), ticking.fired]
  · rw [update_self]
  · rw [update_of_ne (by simp), ← tickEq, ← tickSlot_eq, update_self]

end Leaving

variable {level : Nat}

variable {tick expires slot : Nat}

/-- When the slot is empty, the tick is incremented: level zero is placed for the
next tick. -/
theorem Placed.succ (placed : Placed tick (fun _ => tick) none expires level slot)
    (left : level = 0 → slot ≠ slotOf tick 0) :
    Placed (tick + 1) (reachBelow 1 (tick + 1)) none expires level slot := by
  obtain ⟨slotEq, bounded, -, ahead⟩ := placed
  have before := ahead (by simp)
  cases level with
  | zero =>
    have next : Ahead (tick + 1) expires 0 := before.succ_zero (slotEq ▸ left rfl)
    exact ⟨slotEq, bounded, next.le, fun _ => next⟩
  | succ level => exact ⟨slotEq, bounded, before.succ_le, fun _ => before⟩

/-- The loop over the slot, and the increment of the tick. -/
theorem Held.leaveSlot (held : Held wheel content none (fun _ => wheel.currentTick) due)
    (ticking : Ticking content due) (bounded : wheel.currentTick + 1 < 2 ^ 64) :
    ∃ final, Settles (wheel.leaveSlot) final ∧
      final.currentTick = wheel.currentTick + 1 ∧ ∃ content left,
        Held final content none (reachBelow 1 final.currentTick) left ∧ Ticking content left ∧
        Moves wheel due final left := by
  obtain ⟨list, slotEq⟩ := ne_none_iff_exists'.mp (held.bottom _ (slotOf_lt _ 0))
  obtain ⟨left, rfl⟩ := exists_map_timer (held.represents.entries slotEq)
  obtain ⟨emptied, ⟨tickEq, content, due, held, ticking, slotEq, moves⟩, settles⟩ :=
    settles_whileFirst (Leaving wheel due) Leaving.ring Leaving.round
      ⟨rfl, content, due, held, ticking, slotEq, .refl wheel due⟩
  have nextEq : (emptied.currentTick + 1) % 2 ^ 64 = wheel.currentTick + 1 := by
    rw [tickEq, Nat.mod_eq_of_lt bounded]
  rw [← tickSlot_eq] at settles
  refine ⟨_, settles.map _, nextEq, content, due, ?_, ticking,
    ⟨moves.fields, moves.waiting, moves.stored, moves.history, moves.numTimers⟩⟩
  refine { held with represents := held.represents, placed := fun {timer level slot} storedAt => ?_ }
  have placed := held.placed storedAt
  simp only [nextEq]
  rw [tickEq] at placed
  refine placed.succ ?_
  rintro rfl rfl
  exact absurd ((held.represents.mem_slot slotEq timer).mpr storedAt) (by simp)

/-! ## Cascades -/

/-- The slot that a timer is placed into now. -/
def Wheel.place (wheel : Wheel T) (timer : T) : Nat × Nat :=
  calculateSlot wheel.currentTick (wheel.timers timer).expires

/-- The slot that is cascaded is not stale, and each of its timers is placed into
another slot that is not stale either. -/
def Wheel.Cascadable (wheel : Wheel T) (level : Nat) : Prop :=
  ¬ Stale wheel.links (.slot level (wheel.tickSlot level)) ∧
    ∀ timer, StoredAt (wheel.timers timer) level (wheel.tickSlot level) →
      wheel.place timer ≠ (level, wheel.tickSlot level) ∧
      ¬ Stale wheel.links (.slot (wheel.place timer).1 (wheel.place timer).2)

/-- The fields of a timer that is placed again. -/
def Wheel.placedFields (wheel : Wheel T) (timer : T) : QdTimer :=
  { wheel.timers timer with
    slot := (wheel.place timer).2
    wheelLevel := (wheel.place timer).1 }

omit [DecidableEq T] in
theorem storedAt_placedFields (wheel : Wheel T) (timer : T) :
    StoredAt (wheel.placedFields timer) (wheel.place timer).1 (wheel.place timer).2 :=
  ⟨rfl, rfl⟩

theorem detach_addTimerInternal : (wheel.detach timer).addTimerInternal timer =
      { wheel with
        links := (wheel.detach timer).links.addTail (.timer timer)
          (.slot (wheel.place timer).1 (wheel.place timer).2)
        timers := update wheel.timers timer (wheel.placedFields timer) } := by
  simp [Wheel.detach, Wheel.addTimerInternal, Wheel.setTimer, Wheel.unlink, Wheel.placedFields,
    Wheel.place]

/-- A level that has been cascaded is placed for the current tick. -/
theorem Ahead.of_cascaded {cascaded : Nat} (ahead : Ahead tick expires level)
    (positive : 0 < cascaded) : Ahead (reachBelow cascaded tick level) expires level := by
  unfold reachBelow
  split
  · exact ahead
  · cases level with
    | zero => omega
    | succ level =>
      exact Nat.lt_of_le_of_lt (Nat.div_le_div_right (Nat.sub_le tick 1)) ahead

/-- The cascade of a level passes the slots of the level that it does not move. -/
theorem Placed.pass {cascaded : Nat}
    (placed : Placed tick (reachBelow cascaded tick) none expires level slot) (tickPos : 0 < tick)
    (positive : 0 < cascaded) :
    Placed tick (reachBelow (cascaded + 1) tick) (some (cascaded, slotOf tick cascaded))
      expires level slot := by
  obtain ⟨slotEq, bounded, due, ahead⟩ := placed
  refine ⟨slotEq, bounded, due, fun other => ?_⟩
  have before := ahead (by simp)
  unfold reachBelow at before ⊢
  rcases Nat.lt_trichotomy level cascaded with below | rfl | above
  · rw [if_pos below] at before
    rwa [if_pos (by omega)]
  · rw [if_neg (by omega)] at before
    rw [if_pos (by omega)]
    obtain ⟨level, rfl⟩ := Nat.exists_eq_succ_of_ne_zero positive.ne'
    obtain ⟨tick, rfl⟩ := Nat.exists_eq_succ_of_ne_zero tickPos.ne'
    refine before.succ_of_slot fun same => other ?_
    rw [slotEq, same]
    rfl
  · rw [if_neg (by omega)] at before
    rwa [if_neg (by omega)]

/-- A round of `cascade_timers`. -/
theorem Held.cascadeTimer {cascaded : Nat}
    (held : Held wheel content (some (level, slot)) (reachBelow cascaded wheel.currentTick) due)
    (positive : 0 < cascaded) {list : List (Node T)}
    (tmpEq : content .tmp = some (.timer timer :: rest))
    (expiredEq : content .expired = some (due.map .timer)) (firedEq : content .fired = none)
    (targetEq : content (.slot (wheel.place timer).1 (wheel.place timer).2) = some list) :
    Held ((wheel.detach timer).addTimerInternal timer)
        (Function.update (Function.update content .tmp (some rest))
          (.slot (wheel.place timer).1 (wheel.place timer).2) (some (list ++ [.timer timer])))
        (some (level, slot)) (reachBelow cascaded wheel.currentTick) due ∧
      Moves wheel due ((wheel.detach timer).addTimerInternal timer) due := by
  have storedAt := (held.represents.mem_tmp tmpEq timer).mp List.mem_cons_self
  have placed := held.placed storedAt
  have pending : timer ∉ due := fun mem => not_storedAt (held.out timer mem) _ _ storedAt
  obtain ⟨represents, outside⟩ := held.outside_delInit tmpEq (by simp) expiredEq firedEq pending
  obtain ⟨levelLt, slotLt⟩ : (wheel.place timer).1 < 4 ∧ (wheel.place timer).2 < 256 :=
    calculateSlot_lt _ _
  obtain ⟨-, slotEq, ahead⟩ := calculateSlot_spec placed.due placed.bounded
  have atPlace := storedAt_placedFields wheel timer
  have stored := represents.store (by rw [update_of_ne (by simp), targetEq]) outside
    levelLt slotLt atPlace
  rw [detach_addTimerInternal]
  constructor
  · refine held.update ?_ (bottom_update (bottom_update held.bottom _ _) _ _) rfl rfl ?_
      (fun _ _ mem => mem) fun mem => absurd mem pending
    · simpa [Wheel.detach, Wheel.setTimer, Wheel.unlink] using stored
    · intro otherLevel otherSlot otherAt
      obtain ⟨rfl, rfl⟩ := otherAt.unique atPlace
      exact ⟨slotEq, placed.bounded, placed.due, fun _ => ahead.of_cascaded positive⟩
  · refine moves_update rfl rfl (fun _ _ => Iff.rfl) (fun out => ?_) (.inl fun out => ?_) rfl rfl
    · exact not_storedAt out _ _ storedAt
    · exact not_storedAt out _ _ atPlace

/-- The loop of `cascade_timers`, which started with `source`, and the timers that are
left in the local list. -/
def Cascading (source : Wheel T) (level : Nat) (due left : List T) (wheel : Wheel T) : Prop :=
  wheel.currentTick = source.currentTick ∧ ∃ content,
    Held wheel content (some (level, slotOf wheel.currentTick level))
      (reachBelow (level + 1) wheel.currentTick) due ∧
    Moves source due wheel due ∧ content .tmp = some (left.map .timer) ∧ content .expired = some (due.map .timer) ∧
    content .fired = none ∧
    ∀ timer, StoredAt (wheel.timers timer) level (slotOf wheel.currentTick level) →
      wheel.place timer ≠ (level, slotOf wheel.currentTick level) ∧
      content (.slot (wheel.place timer).1 (wheel.place timer).2) ≠ none

omit [DecidableEq T] in
theorem Cascading.ring {source : Wheel T} (cascading : Cascading source level due left wheel) :
    Ring wheel.links .tmp (left.map .timer) := by
  obtain ⟨-, content, held, -, tmpEq, -⟩ := cascading
  exact held.represents.rings.ring tmpEq

theorem Cascading.round {source : Wheel T}
    (cascading : Cascading source level due (timer :: left) wheel) :
    Cascading source level due left ((wheel.detach timer).addTimerInternal timer) := by
  obtain ⟨tickEq, content, held, moves, tmpEq, expiredEq, firedEq, targets⟩ := cascading
  obtain ⟨elsewhere, inUse⟩ :=
    targets timer ((held.represents.mem_tmp tmpEq timer).mp List.mem_cons_self)
  obtain ⟨list, targetEq⟩ := ne_none_iff_exists'.mp inUse
  obtain ⟨next, nextMoves⟩ := held.cascadeTimer (Nat.succ_pos level) tmpEq expiredEq firedEq targetEq
  refine ⟨tickEq, _, next, moves.trans nextMoves, ?_, ?_, ?_, fun other otherAt => ?_⟩
  · rw [update_of_ne (by simp), update_self]
  · rw [update_of_ne (by simp), update_of_ne (by simp), expiredEq]
  · rw [update_of_ne (by simp), update_of_ne (by simp), firedEq]
  · rw [detach_addTimerInternal] at otherAt ⊢
    by_cases different : other = timer
    · -- the timer is not placed into the slot that it comes from
      subst different
      simp only [update_self] at otherAt
      obtain ⟨levelEq, slotEq⟩ := otherAt.unique (storedAt_placedFields wheel other)
      exact absurd (Prod.ext levelEq.symm slotEq.symm) elsewhere
    · simp only [Wheel.place, update_of_ne different] at otherAt ⊢
      obtain ⟨otherElsewhere, otherInUse⟩ := targets other otherAt
      refine ⟨otherElsewhere, fun unused => otherInUse ?_⟩
      exact update_eq_none (update_eq_none unused)

section

variable (held : Held wheel content none (reachBelow level wheel.currentTick) due)
include held

/-- The timers of the slot are in the local list. -/
theorem Held.cascading
    (ticking : Ticking content due) (levelPos : 0 < level) (tickPos : 0 < wheel.currentTick)
    (cascadable : wheel.Cascadable level) (notEmpty : left ≠ [])
    (slotEq : content (.slot level (wheel.tickSlot level)) = some (left.map .timer)) :
    Cascading wheel level due left { wheel with
      links := (wheel.links.init .tmp).splice (.slot level (wheel.tickSlot level)) .tmp } := by
  have rep := held.represents
  obtain ⟨-, targets⟩ := cascadable
  rw [tickSlot_eq] at slotEq targets ⊢
  have spliced := rep.beginCascade slotEq ticking.tmp (by simpa using notEmpty)
  refine ⟨rfl, _, { held with represents := spliced, bottom := ?_, placed := ?_ },
    ⟨fun _ => rfl, fun _ => Iff.rfl, fun _ => id, rfl, rfl⟩, update_self _ _ _, ?_, ?_, ?_⟩
  · intro slot slotLt
    rw [update_of_ne (by simp), update_of_ne (by simp [levelPos.ne])]
    exact held.bottom slot slotLt
  · exact fun storedAt => (held.placed storedAt).pass tickPos levelPos
  · rw [update_of_ne (by simp), update_of_ne (by simp), ticking.expired]
  · rw [update_of_ne (by simp), update_of_ne (by simp), ticking.fired]
  · intro timer storedAt
    obtain ⟨elsewhere, fresh⟩ := targets timer storedAt
    obtain ⟨levelLt, slotLt⟩ : (wheel.place timer).1 < 4 ∧ (wheel.place timer).2 < 256 :=
      calculateSlot_lt _ _
    refine ⟨elsewhere, ?_⟩
    rw [update_of_ne (by simp), update_of_ne ?_]
    · exact ne_none_iff_exists'.mpr (rep.exists_of_not_stale levelLt slotLt fresh)
    · intro same
      obtain ⟨levelEq, slotEq⟩ := Node.slot.inj same
      exact elsewhere (Prod.ext levelEq slotEq)

/-- `cascade_timers` leaves the level placed for the current tick. -/
theorem Held.cascadeTimers
    (ticking : Ticking content due) (levelPos : 0 < level) (levelLt : level < 4)
    (tickPos : 0 < wheel.currentTick) (cascadable : wheel.Cascadable level) :
    ∃ final, Settles (fun rounds => wheel.cascadeTimers rounds level) final ∧
      final.currentTick = wheel.currentTick ∧ ∃ content,
        Held final content none (reachBelow (level + 1) final.currentTick) due ∧
        Ticking content due ∧ Moves wheel due final due := by
  have slotLt : wheel.tickSlot level < 256 := by
    rw [tickSlot_eq]
    exact slotOf_lt _ _
  obtain ⟨list, slotEq⟩ := held.represents.exists_of_not_stale levelLt slotLt cascadable.1
  obtain ⟨left, rfl⟩ := exists_map_timer (held.represents.entries slotEq)
  by_cases isEmpty : left = []
  · subst isEmpty
    have empty := (held.represents.rings.ring slotEq).empty_iff.mpr rfl
    refine ⟨_, .of_forall (cascadeTimers_of_empty empty), rfl, content, ?_, ticking,
      ⟨fun _ => rfl, fun _ => Iff.rfl, fun _ => id, rfl, rfl⟩⟩
    have initialised := held.represents.init ticking.tmp (.inl rfl)
    refine { held with represents := initialised, placed := fun {timer _ _} storedAt => ?_ }
    refine ((held.placed storedAt).pass tickPos levelPos).of_ne ?_
    rintro ⟨⟩
    rw [tickSlot_eq] at slotEq
    exact absurd ((held.represents.mem_slot slotEq timer).mpr storedAt) (by simp)
  · obtain ⟨final, ⟨tickEq, content, finalHeld, moves, tmpEq, expiredEq, firedEq, -⟩, settles⟩ :=
      settles_whileFirst (Cascading wheel level due) Cascading.ring Cascading.round
        (held.cascading ticking levelPos tickPos cascadable isEmpty slotEq)
    refine ⟨final, settles, tickEq, _, { finalHeld with
      represents := finalHeld.represents.endCascade tmpEq
      bottom := ?_
      placed := fun {timer _ _} storedAt => ?_ }, ⟨update_self _ _ _, ?_, ?_⟩, moves⟩
    · intro slot slotLt
      exact finalHeld.bottom slot slotLt
    · refine (finalHeld.placed storedAt).of_ne ?_
      rintro ⟨⟩
      exact absurd ((finalHeld.represents.mem_tmp tmpEq timer).mpr storedAt) (by simp)
    · rw [update_of_ne (by simp), firedEq]
    · rw [update_of_ne (by simp), expiredEq]

end

/-- When a level is not cascaded, neither it nor the levels above are left
behind by the tick. -/
theorem Placed.settle {other : Nat}
    (placed : Placed tick (reachBelow level tick) none expires other slot) (otherLt : other < 4)
    (levelPos : 0 < level) (tickPos : 0 < tick) (last : ¬ (level < 4 ∧ tick % 256 ^ level = 0)) :
    Placed tick (fun _ => tick) none expires other slot := by
  refine ⟨placed.slotEq, placed.bounded, placed.due, fun notMoved => ?_⟩
  have before := placed.ahead notMoved
  unfold reachBelow at before
  split at before
  next below => exact before
  next above =>
    obtain ⟨tick, rfl⟩ := Nat.exists_eq_succ_of_ne_zero tickPos.ne'
    obtain ⟨upper, rfl⟩ : ∃ upper, other = upper + 1 := ⟨other - 1, by omega⟩
    refine Ahead.succ_of_not_boundary before fun atBoundary => last ⟨by omega, ?_⟩
    have divides : 256 ^ level ∣ 256 ^ (upper + 1) := Nat.pow_dvd_pow 256 (by omega)
    exact Nat.mod_eq_zero_of_dvd (divides.trans (Nat.dvd_of_mod_eq_zero atBoundary))

omit [DecidableEq T] in
theorem Held.cascaded (held : Held wheel content none (reachBelow level wheel.currentTick) due)
    (levelPos : 0 < level) (tickPos : 0 < wheel.currentTick)
    (last : ¬ (level < 4 ∧ wheel.AtBoundary level)) :
    Held wheel content none (fun _ => wheel.currentTick) due := by
  refine { held with placed := fun {timer other slot} storedAt => ?_ }
  have otherLt : other < 4 := by
    rcases held.represents.inSlot timer with out | ⟨level, slot, -, levelLt, -, atLevel, -⟩
    · exact absurd storedAt (not_storedAt out _ _)
    · exact (storedAt.unique atLevel).1 ▸ levelLt
  rw [atBoundary_iff] at last
  exact (held.placed storedAt).settle otherLt levelPos tickPos last

end QDaemon.Timer
