import QDaemon.Timer.Ticks

/-!
# One-shot timers

A one-shot timer that has been started is pending: it waits in a slot that the
tick has not passed, or it has expired in the tick that is going on.  When its
callback is called it is not pending any more.
-/

namespace QDaemon.Timer

open Function Linked

universe u

variable {T : Type u}

/-! ## Counting calls -/

section Counting

variable [DecidableEq T]

/-- How often the callback has been called since the latest start of a timer. -/
def firesSinceStart (timer : T) : List (Event T) → Nat
  | [] => 0
  | .start other :: past => if other = timer then 0 else firesSinceStart timer past
  | .fire other :: past =>
      if other = timer then firesSinceStart timer past + 1 else firesSinceStart timer past

/-- At any time, the callback had been called at most once since the latest start,
and never before the first one. -/
def AtMostOnce (timer : T) (history : List (Event T)) : Prop :=
  ∀ past, past <:+ history →
    firesSinceStart timer past ≤ 1 ∧ (.start timer ∉ past → firesSinceStart timer past = 0)

/-- What the history says about a timer that is pending or not. -/
structure Counted (history : List (Event T)) (timer : T) (pending : Prop) : Prop where
  atMostOnce : AtMostOnce timer history
  waiting : pending → .start timer ∈ history ∧ firesSinceStart timer history = 0
  settled : ¬ pending → .start timer ∈ history → firesSinceStart timer history = 1

theorem AtMostOnce.cons {timer : T} {history : List (Event T)} {event : Event T}
    (before : AtMostOnce timer history) (bound : firesSinceStart timer (event :: history) ≤ 1)
    (never : .start timer ∉ event :: history → firesSinceStart timer (event :: history) = 0) :
    AtMostOnce timer (event :: history) := by
  intro past suffix_
  rcases List.suffix_cons_iff.mp suffix_ with rfl | earlier
  · exact ⟨bound, never⟩
  · exact before past earlier

theorem counted_nil (timer : T) : Counted [] timer False where
  atMostOnce := by
    intro past suffix_
    rw [List.suffix_nil.mp suffix_]
    exact ⟨Nat.zero_le 1, fun _ => rfl⟩
  waiting := False.elim
  settled := fun _ started => absurd started List.not_mem_nil

section Events

variable {history : List (Event T)} {timer other : T} {pending now : Prop}

variable (counted : Counted history timer pending)
include counted

theorem Counted.congr (same : pending ↔ now) : Counted history timer now := by
  rwa [propext same] at counted

theorem Counted.start : Counted (.start timer :: history) timer True := by
  have fires : firesSinceStart timer (.start timer :: history) = 0 := if_pos rfl
  exact {
    atMostOnce := counted.atMostOnce.cons (by rw [fires]; exact Nat.zero_le 1) fun _ => fires
    waiting := fun _ => ⟨List.mem_cons_self, fires⟩
    settled := fun absurd_ => absurd trivial absurd_ }

omit counted in
theorem Counted.fire (counted : Counted history timer True) :
    Counted (.fire timer :: history) timer False := by
  obtain ⟨started, none_⟩ := counted.waiting trivial
  have fires : firesSinceStart timer (.fire timer :: history) = 1 := by
    rw [firesSinceStart, if_pos rfl, none_]
  exact {
    atMostOnce := counted.atMostOnce.cons fires.le fun never =>
      absurd (List.mem_cons_of_mem _ started) never
    waiting := False.elim
    settled := fun _ _ => fires }

/-- An event of another timer does not count. -/
theorem Counted.of_other {event : Event T}
    (isOther : event = .start other ∨ event = .fire other) (different : other ≠ timer) :
    Counted (event :: history) timer pending := by
  have fires : firesSinceStart timer (event :: history) = firesSinceStart timer history := by
    rcases isOther with rfl | rfl <;> exact if_neg different
  have started : .start timer ∈ event :: history ↔ .start timer ∈ history := by
    rcases isOther with rfl | rfl <;> simp [different.symm]
  obtain ⟨bound, never⟩ := counted.atMostOnce history (List.suffix_refl history)
  constructor
  · refine counted.atMostOnce.cons (by rwa [fires]) ?_
    rwa [fires, started]
  · rw [fires, started]
    exact counted.waiting
  · rw [fires, started]
    exact counted.settled

end Events

end Counting

/-! ## The invariant -/

variable [DecidableEq T]

/-- The wheel with one-shot timers.  Up to the tick `reach level` the timers of a
level are in the right slots; `due` are the timers that have expired and have not
been fired. -/
structure Sound (wheel : Wheel T) (content : Content T) (moved : Option (Nat × Nat))
    (reach : Nat → Nat) (due : List T) : Prop where
  represents : Represents wheel.links wheel.timers content moved
  bottom : ∀ slot < 256, content (.slot 0 slot) ≠ none
  placed : ∀ {timer level slot}, StoredAt (wheel.timers timer) level slot →
    Placed wheel.currentTick reach moved (wheel.timers timer).expires level slot
  oneShot : ∀ timer, (wheel.timers timer).periodic = false
  out : ∀ timer ∈ due, (wheel.timers timer).slot = -1
  counted : ∀ timer,
    Counted wheel.history timer ((wheel.timers timer).slot ≠ -1 ∨ timer ∈ due)

variable {content : Content T} {moved : Option (Nat × Nat)} {wheel : Wheel T} {reach : Nat → Nat}

theorem Sound.held {due : List T} (sound : Sound wheel content moved reach due) :
    Held wheel content moved reach due :=
  ⟨sound.represents, sound.bottom, sound.placed, sound.out⟩

/-- Moving timers between lists. -/
theorem Sound.of_moves {next : Wheel T} {changed : Content T} {before : Nat → Nat}
    {due left : List T} (sound : Sound wheel content moved before due)
    (held : Held next changed moved reach left) (moves : Moves wheel due next left) :
    Sound next changed moved reach left :=
  { held with
    oneShot := by
      intro timer
      rw [moves.fields]
      exact sound.oneShot timer
    counted := by
      intro timer
      rw [moves.history]
      exact (sound.counted timer).congr (moves.waiting timer).symm }

/-- A step that changes one timer. -/
theorem Sound.update {changed : Wheel T} {next : Content T} {before : Nat → Nat} {due left : List T} {timer : T}
    {fields : QdTimer} (sound : Sound wheel content moved before due)
    (held : Held changed next moved reach left)
    (timersEq : changed.timers = update wheel.timers timer fields)
    (oneShot : fields.periodic = false)
    (others : ∀ other, other ≠ timer → (other ∈ left ↔ other ∈ due))
    (counted : Counted changed.history timer (fields.slot ≠ -1 ∨ timer ∈ left))
    (countedOther : ∀ other pending, other ≠ timer → Counted wheel.history other pending →
      Counted changed.history other pending) : Sound changed next moved reach left := by
  refine { held with oneShot := ?_, counted := ?_ }
  · rw [timersEq]
    exact (forall_update_iff wheel.timers fun _ fields => fields.periodic = false).mpr
      ⟨oneShot, fun other _ => sound.oneShot other⟩
  · rw [timersEq]
    refine (forall_update_iff wheel.timers fun other fields =>
      Counted changed.history other (fields.slot ≠ -1 ∨ other ∈ left)).mpr
        ⟨counted, fun other different => ?_⟩
    rw [others other different]
    exact countedOther other _ different (sound.counted other)

/-- Starting a timer. -/
theorem Sound.timerStart (sound : Sound wheel content none (fun _ => wheel.currentTick) [])
    (resting : Resting wheel content) (timer : T) (ms : BitVec 64)
    (bounded : wheel.currentTick + wheel.ticks ms < 2 ^ 64)
    (fresh : ¬ Stale wheel.links (.slot (wheel.startPlace ms).1 (wheel.startPlace ms).2)) :
    ∃ next, Sound (wheel.timerStart timer ms) next none
        (fun _ => (wheel.timerStart timer ms).currentTick) [] ∧
      Resting (wheel.timerStart timer ms) next := by
  have clock : (wheel.timerStart timer ms).currentTick = wheel.currentTick :=
    startWith_clock false wheel timer ms
  rw [clock]
  obtain ⟨next, held, same⟩ := sound.held.startWith false ms (not_mem_of_unused resting.expired)
    (by simp [resting.fired]) List.not_mem_nil bounded fresh
  have historyEq : (wheel.timerStart timer ms).history = .start timer :: wheel.history := by
    unfold Wheel.timerStart Wheel.startWith Wheel.removeTimerInternal
    split <;> rfl
  refine ⟨next, sound.update held (startWith_timers false wheel timer ms) rfl (fun _ _ => Iff.rfl)
    ?_ ?_, resting.of_sameHeads same held.represents⟩
  · rw [historyEq]
    refine (sound.counted timer).start.congr (iff_of_true trivial (.inl ?_))
    exact fun out => not_storedAt out _ _ ⟨rfl, rfl⟩
  · intro other pending different counted
    rw [historyEq]
    exact counted.of_other (.inl rfl) different.symm

end QDaemon.Timer
