import QDaemon.Timer.OneShot.Invariant

/-!
# The parts of a tick with one-shot timers

The parts of a tick before the last one only move timers between lists.  The final
phase fires the expired timers.
-/

namespace QDaemon.Timer

open Function Linked

universe u

variable {T : Type u} [DecidableEq T] {wheel : Wheel T} {content : Content T}
  {reach : Nat → Nat} {due : List T} {timer : T}
variable {left : List T}

/-! ## Firing -/

theorem fireTimer_of_oneShot (oneShot : (wheel.timers timer).periodic = false) :
    wheel.fireTimer timer =
      { wheel with
        numTimers := wheel.numTimers - 1#32
        links := wheel.links.delInit (.timer timer)
        timers := update wheel.timers timer { wheel.timers timer with state := .idle }
        history := .fire timer :: wheel.history } := by
  simp [Wheel.fireTimer, Wheel.setTimer, Wheel.unlink, oneShot]

/-- A round of the final loop: the callback of the timer is called. -/
theorem Sound.fireTimer (sound : Sound wheel content none reach (timer :: left))
    (firedEq : content .fired = some ((timer :: left).map .timer)) :
    Sound (wheel.fireTimer timer) (Function.update content .fired (some (left.map .timer))) none
      reach left := by
  have first : content .fired = some ([] ++ .timer timer :: left.map .timer) := firedEq
  have out := sound.out timer List.mem_cons_self
  have gone : timer ∉ left := by
    have distinct := (List.nodup_cons.mp (sound.represents.rings.ring firedEq).distinct).2
    exact fun mem => (List.nodup_cons.mp distinct).1 (List.mem_map_of_mem mem)
  rw [fireTimer_of_oneShot (sound.oneShot timer)]
  have others (other : T) (different : other ≠ timer) : other ∈ left ↔ other ∈ timer :: left := by
    simp [different]
  refine sound.update (sound.held.update (sound.represents.delInit first out)
      (bottom_update sound.bottom _ _) rfl rfl ?_ (fun other different => (others other different).mp)
      fun _ => out) rfl (sound.oneShot timer) others ?_ ?_
  · exact fun storedAt => absurd storedAt (not_storedAt out _ _)
  · have pending := (sound.counted timer).congr (iff_true_intro (.inr List.mem_cons_self))
    refine pending.fire.congr (iff_of_false id ?_)
    rintro (inSlot | mem)
    · exact inSlot out
    · exact gone mem
  · intro other pending different counted
    exact counted.of_other (.inr rfl) different.symm

/-- The final loop, with the timers that are left in the local list. -/
def Firing (tick : Nat) (left : List T) (wheel : Wheel T) : Prop :=
  wheel.currentTick = tick ∧ ∃ content, Sound wheel content none (fun _ => tick) left ∧
    content .fired = some (left.map .timer) ∧ content .expired = none ∧ content .tmp = none

theorem Firing.ring {tick : Nat} (firing : Firing tick left wheel) :
    Ring wheel.links .fired (left.map .timer) := by
  obtain ⟨-, content, sound, firedEq, -⟩ := firing
  exact sound.represents.rings.ring firedEq

theorem Firing.round {tick : Nat} (firing : Firing tick (timer :: left) wheel) :
    Firing tick left (wheel.fireTimer timer) := by
  obtain ⟨rfl, content, sound, firedEq, expiredEq, tmpEq⟩ := firing
  refine ⟨by rw [fireTimer_of_oneShot (sound.oneShot timer)], _, sound.fireTimer firedEq,
    update_self _ _ _, ?_, ?_⟩
  · rw [update_of_ne (by simp), expiredEq]
  · rw [update_of_ne (by simp), tmpEq]

/-- The final phase fires every timer that has expired. -/
theorem Sound.fireExpired (sound : Sound wheel content none (fun _ => wheel.currentTick) due)
    (ticking : Ticking content due) : ∃ final, Settles (wheel.fireExpired) final ∧
      final.currentTick = wheel.currentTick ∧ ∃ content,
        Sound final content none (fun _ => final.currentTick) [] ∧ Resting final content := by
  by_cases isEmpty : due = []
  · subst isEmpty
    have empty := (sound.represents.rings.ring ticking.expired).empty_iff.mpr rfl
    have initialised := sound.represents.init ticking.fired (.inr rfl)
    exact ⟨_, .of_forall (fireExpired_of_empty empty), rfl, content,
      { sound with represents := initialised },
      ⟨initialised, ticking.tmp, ticking.fired, .inr ticking.expired⟩⟩
  · have spliced := sound.represents.beginFire ticking.expired ticking.fired (by simpa using isEmpty)
    have start : Firing wheel.currentTick due { wheel with
        links := (wheel.links.init .fired).splice .expired .fired } := by
      refine ⟨rfl, _, { sound with represents := spliced, bottom := fun slot slotLt => ?_ },
        update_self _ _ _, ?_, ?_⟩
      · rw [update_of_ne (by simp)]
        exact sound.bottom slot slotLt
      · rw [update_of_ne (by simp), update_self]
      · rw [update_of_ne (by simp), update_of_ne (by simp), ticking.tmp]
    obtain ⟨final, ⟨tickEq, content, finalSound, firedEq, expiredEq, tmpEq⟩, settles⟩ :=
      settles_whileFirst (Firing wheel.currentTick) Firing.ring Firing.round start
    rw [← tickEq] at finalSound
    have unused := finalSound.represents.endFire
    refine ⟨final, settles, tickEq, _, { finalSound with
      represents := unused
      bottom := fun slot slotLt => ?_ }, ⟨unused, ?_, update_self _ _ _, .inl ?_⟩⟩
    · rw [update_of_ne (by simp)]
      exact finalSound.bottom slot slotLt
    · rw [update_of_ne (by simp), tmpEq]
    · rw [update_of_ne (by simp), expiredEq]

end QDaemon.Timer
