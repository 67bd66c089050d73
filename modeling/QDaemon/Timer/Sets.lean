import QDaemon.Timer.Ticks

/-!
# Placement and cascades

The wheel with its lists taken as sets: a timer is in a slot, or it has expired.  A
timer on level zero is in the slot that the tick leaves at its expiry, and a timer on
a higher level is in a slot that is cascaded before the tick has passed the expiry.
So every timer expires exactly at its expiry.
-/

namespace QDaemon.Timer

universe u

/-- The set that a timer is in. -/
inductive Place
  | slot (level slot : Nat)
  | expired
  deriving DecidableEq

/-- `struct qd_timer_wheel` with its lists as sets. -/
structure Sets (T : Type u) where
  currentTick : Nat
  expires : T → Nat
  place : T → Place

/-- The tick cascades the slot of a level. -/
def Cascades (tick level slot : Nat) : Prop :=
  tick &&& (2 ^ (level * 8) - 1) = 0 ∧ (tick >>> (level * 8)) &&& 255 = slot

namespace Sets

variable {T : Type u}

/-- `add_timer_internal`. -/
def addTimerInternal (sets : Sets T) (timer : T) : Place :=
  let place := calculateSlot sets.currentTick (sets.expires timer)
  .slot place.1 place.2

/-- The slot of the current tick on a level. -/
def tickSlot (sets : Sets T) (level : Nat) : Place :=
  .slot level ((sets.currentTick >>> (level * 8)) &&& 255)

/-- One round of the loop of `qd_timer_wheel_tick`, up to the cascades. -/
def leaveSlot (sets : Sets T) : Sets T :=
  { sets with
    currentTick := (sets.currentTick + 1) % 2 ^ 64
    place := fun timer =>
      if sets.place timer = sets.tickSlot 0 then
        if sets.expires timer ≤ sets.currentTick then .expired else sets.addTimerInternal timer
      else sets.place timer }

/-- `cascade_timers`. -/
def cascadeTimers (sets : Sets T) (level : Nat) : Sets T :=
  { sets with
    place := fun timer =>
      if sets.place timer = sets.tickSlot level then sets.addTimerInternal timer
      else sets.place timer }

/-- The cascades of `count` levels; the test of each level is inside the branch of the
level below. -/
def cascades (sets : Sets T) : Nat → Nat → Sets T
  | _, 0 => sets
  | level, count + 1 =>
      if sets.currentTick &&& (2 ^ (level * 8) - 1) = 0 then
        (sets.cascadeTimers level).cascades (level + 1) count
      else sets

/-- One round of the loop of `qd_timer_wheel_tick`. -/
def round (sets : Sets T) : Sets T :=
  sets.leaveSlot.cascades 1 3

end Sets

/-! ## Slots and cascades -/

variable {tick expires level slot : Nat}

theorem cascades_iff : Cascades tick level slot ↔
    tick % 256 ^ level = 0 ∧ slotOf tick level = slot := by
  rw [Cascades, shiftRight_land_255, Nat.and_two_pow_sub_one_eq_mod, Nat.mul_comm, Nat.pow_mul]

/-- The slot of an expiry that is ahead is cascaded at the expiry or before. -/
theorem Ahead.exists_cascade (ahead : Ahead tick expires (level + 1)) :
    ∃ cascade, tick < cascade ∧ cascade ≤ expires ∧
      Cascades cascade (level + 1) (slotOf expires (level + 1)) ∧
      ∀ later, tick < later → Cascades later (level + 1) (slotOf expires (level + 1)) →
        cascade ≤ later := by
  simp only [Ahead, cascades_iff, slotOf] at ahead ⊢
  have positive : 0 < 256 ^ (level + 1) := Nat.pow_pos (by decide)
  generalize 256 ^ (level + 1) = width at ahead positive ⊢
  -- the first lap of the level in which the slot is met again
  obtain ⟨lap, lapEq⟩ :
      ∃ lap, lap = tick / width + 1 + (expires / width - (tick / width + 1)) % 256 := ⟨_, rfl⟩
  refine ⟨lap * width, ?_, ?_, ⟨Nat.mul_mod_left lap width, ?_⟩, ?_⟩
  · exact (Nat.div_lt_iff_lt_mul positive).mp (by omega)
  · exact (Nat.mul_le_mul_right width (by omega)).trans (Nat.div_mul_le_self expires width)
  · rw [Nat.mul_div_cancel lap positive]
    omega
  · rintro later after ⟨boundary, same⟩
    obtain ⟨other, rfl⟩ := dvd_iff_exists_eq_mul_left.mp (Nat.dvd_of_mod_eq_zero boundary)
    rw [Nat.mul_div_cancel other positive] at same
    have past := (Nat.div_lt_iff_lt_mul positive).mpr after
    exact Nat.mul_le_mul_right width (by omega)

/-- A timer is put into a slot that is cascaded with the current tick only on the upper
level, if it expires at least a whole turn later. -/
theorem upper_of_passed (due : tick ≤ expires) (bounded : expires < 2 ^ 64)
    (placeEq : calculateSlot tick expires = (level, slot)) (upper : level ≠ 0)
    (passed : Cascades tick level slot) : level = 3 ∧ tick + 2 ^ 32 ≤ expires := by
  obtain ⟨-, slotEq, -⟩ := calculateSlot_spec due bounded
  obtain ⟨aligned, same⟩ := cascades_iff.mp passed
  simp only [placeEq] at slotEq
  simp only [calculateSlot] at placeEq
  simp only [slotEq, slotOf] at same
  split_ifs at placeEq <;> obtain ⟨rfl, -⟩ := Prod.mk.inj placeEq
  · exact absurd rfl upper
  · simp only [Nat.reducePow] at same aligned
    omega
  · simp only [Nat.reducePow] at same aligned
    omega
  · simp only [Nat.reducePow] at same aligned
    exact ⟨rfl, by omega⟩

/-! ## Runs -/

namespace Sets

variable {T : Type u} {sets : Sets T} {timer : T}

/-- The timer is in the slot it belongs to. -/
def InSlot (sets : Sets T) (reach : Nat → Nat) (timer : T) : Prop :=
  ∃ level slot, level < 4 ∧ sets.place timer = .slot level slot ∧
    Placed sets.currentTick reach none (sets.expires timer) level slot

theorem tickSlot_eq (level : Nat) :
    sets.tickSlot level = .slot level (slotOf sets.currentTick level) := by
  rw [tickSlot, shiftRight_land_255]

theorem InSlot.leaveSlot (inSlot : sets.InSlot (fun _ => sets.currentTick) timer) :
    (sets.expires timer = sets.currentTick ∧ sets.leaveSlot.place timer = .expired) ∨
      (sets.leaveSlot.currentTick = sets.currentTick + 1 ∧
        sets.leaveSlot.InSlot (reachBelow 1 sets.leaveSlot.currentTick) timer) := by
  obtain ⟨level, slot, levelLt, placeEq, placed⟩ := inSlot
  by_cases here : sets.place timer = sets.tickSlot 0
  · have same := here
    rw [placeEq, tickSlot_eq] at same
    obtain ⟨rfl, rfl⟩ := Place.slot.inj same
    have now := expires_eq_of_slot (placed.ahead (by simp)) placed.slotEq.symm
    exact .inl ⟨now, (if_pos here).trans (if_pos now.le)⟩
  · have next := placed.succ fun isZero slotIs => here (by rw [placeEq, tickSlot_eq, isZero, slotIs])
    have tickEq : sets.leaveSlot.currentTick = sets.currentTick + 1 :=
      Nat.mod_eq_of_lt (Nat.lt_of_le_of_lt next.due next.bounded)
    rw [← tickEq] at next
    exact .inr ⟨tickEq, level, slot, levelLt, (if_neg here).trans placeEq, next⟩

variable {level : Nat} (levelPos : 0 < level) (tickPos : 0 < sets.currentTick)
  (inSlot : sets.InSlot (reachBelow level sets.currentTick) timer)
include levelPos tickPos inSlot

theorem InSlot.cascadeTimers :
    (sets.cascadeTimers level).InSlot (reachBelow (level + 1) sets.currentTick) timer := by
  obtain ⟨other, slot, otherLt, placeEq, placed⟩ := inSlot
  by_cases here : sets.place timer = sets.tickSlot level
  · obtain ⟨againLt, slotEq, ahead⟩ := calculateSlot_spec placed.due placed.bounded
    exact ⟨_, _, againLt, if_pos here, slotEq, placed.bounded, placed.due,
      fun _ => ahead.of_cascaded (Nat.succ_pos level)⟩
  · refine ⟨other, slot, otherLt, (if_neg here).trans placeEq,
      (placed.pass tickPos levelPos).of_ne ?_⟩
    rintro ⟨⟩
    exact here (by rw [placeEq, tickSlot_eq])

theorem InSlot.settle (last : ¬ (level < 4 ∧ sets.currentTick % 256 ^ level = 0)) :
    sets.InSlot (fun _ => sets.currentTick) timer := by
  obtain ⟨other, slot, otherLt, placeEq, placed⟩ := inSlot
  exact ⟨other, slot, otherLt, placeEq, placed.settle otherLt levelPos tickPos last⟩

theorem InSlot.cascades {count : Nat} (sum : level + count = 4) :
    (sets.cascades level count).InSlot (fun _ => sets.currentTick) timer := by
  induction count generalizing sets level with
  | zero => exact inSlot.settle levelPos tickPos (by omega)
  | succ count ih =>
    rw [Sets.cascades, Nat.and_two_pow_sub_one_eq_mod, Nat.mul_comm, Nat.pow_mul]
    split
    · exact ih (Nat.succ_pos level) tickPos (inSlot.cascadeTimers levelPos tickPos) (by omega)
    next inside => exact inSlot.settle levelPos tickPos fun both => inside both.2

omit levelPos tickPos inSlot

/-- A cascade only moves timers between slots. -/
theorem cascades_frame (sets : Sets T) (timer : T) (level count : Nat) :
    (sets.cascades level count).currentTick = sets.currentTick ∧
      (sets.cascades level count).expires = sets.expires ∧
      (sets.place timer = .expired → (sets.cascades level count).place timer = .expired) := by
  induction count generalizing sets level with
  | zero => exact ⟨rfl, rfl, id⟩
  | succ count ih =>
    rw [Sets.cascades]
    split
    · obtain ⟨tickEq, expiresEq, stays⟩ := ih (sets.cascadeTimers level) (level + 1)
      refine ⟨tickEq, expiresEq, fun gone => stays ((if_neg ?_).trans gone)⟩
      simp [gone, tickSlot]
    · exact ⟨rfl, rfl, id⟩

/-- A timer is in its slot up to its expiry and has expired from then on. -/
theorem InSlot.rounds (inSlot : sets.InSlot (fun _ => sets.currentTick) timer) (count : Nat) :
    let after := round^[count] sets
    (sets.expires timer < sets.currentTick + count ∧ after.place timer = .expired) ∨
      (after.currentTick = sets.currentTick + count ∧ after.expires = sets.expires ∧
        after.InSlot (fun _ => after.currentTick) timer) := by
  induction count with
  | zero => exact .inr ⟨rfl, rfl, inSlot⟩
  | succ count ih =>
    simp only [Function.iterate_succ_apply']
    generalize round^[count] sets = after at ih ⊢
    obtain ⟨tickEq, expiresEq, stays⟩ := cascades_frame after.leaveSlot timer 1 3
    rcases ih with ⟨passed, gone⟩ | ⟨tickIs, expiresIs, here⟩
    · refine .inl ⟨Nat.lt_succ_of_lt passed, stays ((if_neg ?_).trans gone)⟩
      simp [gone, tickSlot]
    · rcases here.leaveSlot with ⟨now, gone⟩ | ⟨nextTick, next⟩
      · rw [expiresIs] at now
        exact .inl ⟨by omega, stays gone⟩
      · have settled := next.cascades Nat.one_pos (nextTick ▸ Nat.succ_pos _)
          (show 1 + 3 = 4 from rfl)
        rw [← tickEq] at settled
        exact .inr ⟨tickEq.trans (nextTick.trans (congrArg (· + 1) tickIs)),
          expiresEq.trans expiresIs, settled⟩

end Sets

/-- Placement and cascades are exact.  On level zero a timer is in the slot that is first
left at its expiry.  On a higher level it is in a slot that is first cascaded before its
expiry has passed, and it is then put into a slot that the same tick cascades only on the
upper level, if it expires at least a whole turn later.  Every timer is moved to
`expired` in the round of its expiry. -/
theorem placement_exact (due : tick ≤ expires) (bounded : expires < 2 ^ 64)
    (placeEq : calculateSlot tick expires = (level, slot)) : (level = 0 → expires &&& 255 = slot ∧
      ∀ later, tick ≤ later → later &&& 255 = slot → expires ≤ later) ∧
    (level ≠ 0 → ∃ cascade, tick < cascade ∧ cascade ≤ expires ∧ Cascades cascade level slot ∧
      (∀ later, tick < later → Cascades later level slot → cascade ≤ later) ∧
      ∀ again into, calculateSlot cascade expires = (again, into) → again ≠ 0 →
        Cascades cascade again into → again = 3 ∧ cascade + 2 ^ 32 ≤ expires) ∧
    ∀ {T : Type u} (sets : Sets T) (timer : T), sets.currentTick = tick →
      sets.expires timer = expires → sets.place timer = sets.addTimerInternal timer →
      ∀ count, (Sets.round^[count] sets).place timer = .expired ↔ expires < tick + count := by
  obtain ⟨levelLt, slotEq, ahead⟩ := calculateSlot_spec due bounded
  simp only [placeEq] at slotEq ahead
  refine ⟨?_, fun upper => ?_, ?_⟩
  · rintro rfl
    have land (n : Nat) : n &&& 255 = slotOf n 0 := shiftRight_land_255 n 0
    simp only [slotEq, land, true_and]
    intro later after same
    simp only [slotOf, Ahead] at same ahead
    omega
  · obtain ⟨level, rfl⟩ := Nat.exists_eq_succ_of_ne_zero upper
    obtain rfl := slotEq
    obtain ⟨cascade, after, before, cascades, first⟩ := ahead.exists_cascade
    exact ⟨cascade, after, before, cascades, first, fun _ _ => upper_of_passed before bounded⟩
  · rintro T sets timer rfl rfl placedNow count
    have inSlot : sets.InSlot (fun _ => sets.currentTick) timer :=
      ⟨_, _, levelLt, placedNow, placed_calculateSlot due bounded⟩
    rcases inSlot.rounds count with ⟨passed, gone⟩ | ⟨tickIs, expiresIs, _, _, -, here, placed⟩
    · exact iff_of_true gone passed
    · have still := placed.due
      rw [tickIs, expiresIs] at still
      exact iff_of_false (by simp [here]) (Nat.not_lt.mpr still)

/-- A timer that is placed at tick 255 for tick 511, on level one. -/
theorem placement_exact_levelOne :
    (∃ cascade, 255 < cascade ∧ cascade ≤ 511 ∧ Cascades cascade 1 1) ∧
      ∀ count, (Sets.round^[count] ⟨255, fun () => 511, fun () => .slot 1 1⟩).place () = .expired ↔
        511 < 255 + count := by
  have placeEq : calculateSlot 255 511 = (1, 1) := rfl
  obtain ⟨-, upper, rounds⟩ := placement_exact (by decide) (by decide) placeEq
  obtain ⟨cascade, after, before, cascades, -⟩ := upper (by decide)
  exact ⟨⟨cascade, after, before, cascades⟩, rounds _ () rfl rfl rfl⟩

/-- A timer that is due a turn and a slot of the upper level later is first cascaded at
tick `2 ^ 24` and put back into the slot that is being cascaded. -/
theorem passed_turn : calculateSlot 0 (2 ^ 32 + 2 ^ 24) = (3, 1) ∧ Cascades (2 ^ 24) 3 1 ∧
    (∀ tick, 0 < tick → Cascades tick 3 1 → 2 ^ 24 ≤ tick) ∧
    calculateSlot (2 ^ 24) (2 ^ 32 + 2 ^ 24) = (3, 1) := by
  refine ⟨rfl, ⟨rfl, rfl⟩, fun tick _ cascades => ?_, rfl⟩
  have slotEq := (cascades_iff.mp cascades).2
  simp only [slotOf] at slotEq
  omega

end QDaemon.Timer
