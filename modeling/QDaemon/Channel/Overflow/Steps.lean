import QDaemon.Channel.Overflow.Core

/-!
# Steps of the channel in overflow mode

Every step that meets the condition keeps the invariant.  Producers outside the
locked section do what they do in a lossless channel; the holder of the lock
drops and claims; the consumer takes the same steps in both readings of the
state, except that it loads the stored tail.
-/

namespace QDaemon.Channel

open Option List Function Bits Common Transition

universe u v

variable {n : Nat} {β : Type u} {Tid : Type v}

/-! ## Steps outside the locked section -/

section Producers

variable [DecidableEq Tid] {state : State n β Tid}
variable {thread : Tid} {pc : ProducerPc n β} {chan : QdChannel n β} {items : List (Item n β)}
variable {sent : List (Item n β)}

section

variable (inv : DropInv state)
include inv

/-- A producer moves; `holder` is where the holder of the lock stands afterwards. -/
theorem DropInv.move {lock : Option Tid} {holder : ProducerPc n β}
    (holderEq : holderOf lock (update state.producer thread pc) = holder)
    (mutex : InLock pc ↔ lock = some thread)
    (others : ∀ other, other ≠ thread → (InLock (state.producer other) ↔ lock = some other) ∧
      LockedInv chan state.consumer (state.producer other)) (own : LockedInv chan state.consumer pc)
    (receivedSub : state.received.Sublist (sent.take chan.head))
    (headLe : chan.head + half holder ≤ chan.tail) (tailLe : state.chan.tail ≤ chan.tail)
    (closedEq : chan.closed = state.chan.closed) (seen : Inv { lossless state with
      chan := seenChan holder chan
      producer := update (lossless state).producer thread (seenPc pc)
      sent := sent ++ early holder
      received := (sent ++ early holder).take (chan.head + half holder) }) :
    DropInv { state with
      chan := chan
      lock := lock
      producer := update state.producer thread pc
      sent := sent } := by
  subst holderEq
  exact {
    seen := seen.congr rfl (comp_update seenPc state.producer thread pc) rfl rfl rfl
    mutex := (forall_update_iff state.producer fun other pc =>
      InLock pc ↔ lock = some other).mpr ⟨mutex, fun other mine => (others other mine).1⟩
    locked := (forall_update_iff state.producer fun _ pc =>
      LockedInv chan state.consumer pc).mpr ⟨own, fun other mine => (others other mine).2⟩
    receivedSub := receivedSub
    headLe := headLe
    limitLe := inv.limitLe.trans tailLe
    notClosed := closedEq.trans inv.notClosed }

variable (before : ¬ InLock (state.producer thread))
include before

/-- A producer without the lock moves.  The counters that the holder relies on
and the flags that are set stay. -/
theorem DropInv.outer (after : ¬ InLock pc) (tailIs : chan.tail = state.chan.tail + items.length)
    (alone : items ≠ [] → ∀ other, ¬ Claiming (state.producer other))
    (headEq : chan.head = state.chan.head) (capacityEq : chan.capacity = state.chan.capacity)
    (closedEq : chan.closed = state.chan.closed)
    (flags : ∀ i, state.chan.committed (state.chan.slot i) = true →
      chan.committed (chan.slot i) = true) (seen : Inv { lossless state with
      chan := seenChan state.holder chan
      producer := update (lossless state).producer thread (seenPc pc)
      sent := state.sent ++ items ++ early state.holder
      received := (state.sent ++ items ++ early state.holder).take
        (chan.head + half state.holder) }) :
    DropInv { state with
      chan := chan
      producer := update state.producer thread pc
      sent := state.sent ++ items } := by
  have tailEq := inv.tailEq
  have headLe := inv.headLe
  refine inv.move (holder_update_of_not_inLock inv before pc)
    (iff_of_false after fun holds => before ((inv.mutex thread).mpr holds)) ?_
    (lockedInv_of_not_claiming fun claiming => after claiming.inLock) ?_ (by omega) (by omega)
    closedEq seen
  · intro other _
    refine ⟨inv.mutex other, (inv.locked other).transfer (fun claiming => ?_) capacityEq fun _ =>
      ⟨headEq, fun outside => outside, flags⟩⟩
    by_cases none : items = []
    · rw [tailIs, none, length_nil, Nat.add_zero]
    · exact absurd claiming (alone none other)
  · rw [headEq, take_append_of_le_length (by omega)]
    exact inv.receivedSub

/-- A producer without the lock moves without a store. -/
theorem DropInv.walk (after : ¬ InLock pc)
    (notWriting : ∀ i, ¬ Writing (state.producer thread) i) (notNext : ∀ i, ¬ Writing pc i)
    (allowed : ProducerInv (lossless state).chan (lossless state).sent
      ((lossless state).chan.head + (taken state.consumer).length) (seenPc pc)) :
    DropInv { state with producer := update state.producer thread pc } := by
  have moved : Inv { lossless state with
      producer := update (lossless state).producer thread (seenPc pc) } :=
    inv.seen.setProducer (fun i => (seenPc_of_not_inLock before).not.mpr (notWriting i))
      (fun i => (seenPc_of_not_inLock after).not.mpr (notNext i)) allowed
  have outer := inv.outer before after rfl (fun some => absurd rfl some) rfl rfl rfl
    (fun _ flag => flag) (moved.congr rfl rfl rfl (by simp [lossless]) rfl)
  simpa using outer

end

variable {item : Item n β} {tail head : Nat}

/-- A reservation outside the locked section, with nobody inside. -/
theorem DropInv.reserve (inv : DropInv state)
    (pcEq : state.producer thread = .sendCas item tail head) (tailIs : state.chan.tail = tail)
    (alone : ∀ other, ¬ Claiming (state.producer other)) (bound : state.sent.length + 1 < 2 ^ 64) :
    DropInv { state with
      chan := { state.chan with tail := (tail + 1) % 2 ^ 64 }
      producer := update state.producer thread (.write item tail head 0)
      sent := state.sent ++ [item] } := by
  have nothingEarly : early state.holder = [] :=
    early_eq_nil (holder_of_forall (fun claiming => claiming) alone)
  have seenEq : (lossless state).producer thread = .sendCas item tail head := by
    simp [lossless, pcEq, seenPc]
  have seenTail : (lossless state).chan.tail = tail := by
    simp [lossless, seenChan, nothingEarly, tailIs]
  have notWriting : ∀ i, ¬ Writing ((lossless state).producer thread) i := by
    simp [seenEq, Writing]
  have seen := inv.seen.reserve item head notWriting seenTail
    (inv.seen.room_of_snapshot seenEq seenTail) (by simpa [lossless, nothingEarly] using bound)
  have tailEq := inv.tailEq
  have small : (tail + 1) % 2 ^ 64 = state.chan.tail + 1 := by
    rw [Nat.mod_eq_of_lt (by omega), tailIs]
  refine inv.outer (by rw [pcEq]; exact fun inside => inside) (fun inside => inside) small
    (fun _ => alone) rfl rfl rfl (fun _ flag => flag) ?_
  refine seen.congr ?_ rfl rfl ?_ rfl
  · simp [lossless, seenChan, nothingEarly]
  · simp [lossless, nothingEarly]

variable {lock : Option Tid} {spurious : Bool}

section

variable (inv : DropInv state)
include inv

/-! ## Steps of the locked section -/

/-- The holder of the lock moves, and keeps it. -/
theorem DropInv.inner (before : InLock (state.producer thread))
    (after : InLock pc) (own : LockedInv chan state.consumer pc)
    (headLe : chan.head + half pc ≤ chan.tail)
    (receivedSub : state.received.Sublist (sent.take chan.head))
    (tailLe : state.chan.tail ≤ chan.tail) (closedEq : chan.closed = state.chan.closed)
    (seen : Inv { lossless state with
      chan := seenChan pc chan
      producer := update (lossless state).producer thread (seenPc pc)
      sent := sent ++ early pc
      received := (sent ++ early pc).take (chan.head + half pc) }) :
    DropInv { state with
      chan := chan
      producer := update state.producer thread pc
      sent := sent } := by
  have lockEq := (inv.mutex thread).mp before
  refine inv.move ?_ (iff_of_true after lockEq) ?_ own receivedSub headLe tailLe closedEq seen
  · rw [lockEq]
    exact update_self _ _ _
  · intro other mine
    refine ⟨inv.mutex other, lockedInv_of_not_claiming fun claiming => ?_⟩
    exact inv.not_inLock_of_ne before mine claiming.inLock

omit inv in
/-- A move that the lossless protocol does not see. -/
theorem lossless_producer_eq (same : seenPc pc = seenPc (state.producer thread)) :
    update (lossless state).producer thread (seenPc pc) = (lossless state).producer := by
  rw [same]
  exact update_eq_self _ _

/-- The holder of the lock moves without a store, unseen by the lossless
protocol. -/
theorem DropInv.innerWalk {old : ProducerPc n β} (pcEq : state.producer thread = old)
    (before : InLock old) (after : InLock pc) (own : LockedInv state.chan state.consumer pc)
    (samePc : seenPc pc = seenPc old) (sameEarly : early pc = early old)
    (sameHalf : half pc = half old) :
    DropInv { state with producer := update state.producer thread pc } := by
  subst pcEq
  have holderEq := inv.holder_of_inLock before
  refine inv.inner before after own ?_ inv.receivedSub le_rfl rfl ?_
  · rw [sameHalf, ← holderEq]
    exact inv.headLe
  · exact inv.seen.congr (by simp [lossless, seenChan, holderEq, sameEarly, sameHalf])
      (lossless_producer_eq samePc) rfl (by simp [lossless, holderEq, sameEarly]) rfl

/-- A waiting producer gets the lock. -/
theorem DropInv.acquire (pcEq : state.producer thread = .lock item) (free : state.lock = none) :
    DropInv { state with
      lock := some thread
      producer := update state.producer thread (.lockedTail item) } := by
  have holderEq : state.holder = .idle := by rw [State.holder, free]; rfl
  have same : seenPc (.lockedTail item) = seenPc (state.producer thread) := by rw [pcEq]; rfl
  have headLe := inv.headLe
  rw [holderEq] at headLe
  refine inv.move (update_self _ _ _) (iff_of_true trivial rfl) ?_ trivial inv.receivedSub
    headLe le_rfl rfl ?_
  · intro other mine
    refine ⟨iff_of_false (fun inside => ?_) fun equal => mine (some.inj equal).symm,
      inv.locked other⟩
    have := (inv.mutex other).mp inside
    rw [free] at this
    cases this
  · refine inv.seen.congr ?_ (lossless_producer_eq same) rfl ?_ rfl
    · simp [lossless, holderEq, seenChan, early, half]
    · simp [lossless, holderEq, early]

/-- The holder of the lock leaves. -/
theorem DropInv.release {wasEmpty : Bool} (pcEq : state.producer thread = .unlock wasEmpty) :
    DropInv { state with
      lock := none
      producer := update state.producer thread (if wasEmpty then .signal else .idle) } := by
  obtain ⟨before, holderEq, -⟩ := inv.holding pcEq trivial
  have after : ¬ InLock (if wasEmpty then .signal else .idle : ProducerPc n β) := by
    split <;> exact fun inside => inside
  have headLe := inv.headLe
  rw [holderEq] at headLe
  have moved : Inv { lossless state with
      producer := update (lossless state).producer thread
        (seenPc (if wasEmpty then .signal else .idle)) } := by
    apply inv.seen.setProducer
    · simp [lossless, pcEq, seenPc, Writing]
    · split <;> simp [seenPc, Writing]
    · split <;> trivial
  simp only [lossless, holderEq] at moved
  refine inv.move rfl (iff_of_false after (by simp)) (fun other mine => ?_)
    (lockedInv_of_not_claiming fun claiming => after claiming.inLock) inv.receivedSub headLe
    le_rfl rfl moved
  exact ⟨iff_of_false (inv.not_inLock_of_ne before mine) (by simp), inv.locked other⟩

omit [DecidableEq Tid] in
theorem DropInv.counters_lt (bound : state.sent.length + 1 < 2 ^ 64) :
    state.chan.head ≤ state.chan.tail ∧ state.chan.tail + 1 < 2 ^ 64 := by
  have tailEq := inv.tailEq
  have headLe := inv.headLe
  omega

end

section

variable (inv : DropInv state)
include inv

/-- The holder of the lock finds the channel full. -/
theorem DropInv.findFull (pcEq : state.producer thread = .lockedHead item tail)
    (full : state.chan.capacity ≤ (tail + 2 ^ 64 - state.chan.head) % 2 ^ 64)
    (outside : Outside state.consumer)
    (written : ∀ other, ¬ Writing (state.producer other) state.chan.head)
    (bound : state.sent.length + 1 < 2 ^ 64) : DropInv { state with
      producer := update state.producer thread
        (.lockedClear item tail state.chan.head) } := by
  obtain ⟨before, holderEq, tailIs⟩ := inv.holding pcEq trivial
  change tail = state.chan.tail at tailIs
  obtain ⟨headLe, small⟩ := inv.counters_lt bound
  have positive : 0 < state.chan.capacity := by
    obtain ⟨k, -, power⟩ := inv.seen.power
    change state.chan.capacity = 2 ^ k at power
    rw [power]
    exact Nat.two_pow_pos k
  have below : state.chan.head < tail := by omega
  have flag : state.chan.committed (state.chan.slot state.chan.head) = true := by
    have none := taken_of_outside outside
    have stored := inv.seen.stored state.chan.head
      (by simp [lossless, seenChan, holderEq, half, none])
      (by simp [lossless, seenChan, early]; omega)
    rcases stored with ⟨other, writing⟩ | ⟨flag, -⟩
    · change Writing (seenPc (state.producer other)) state.chan.head at writing
      by_cases mine : other = thread
      · subst mine
        rw [pcEq] at writing
        exact writing.elim
      · exact absurd ((seenPc_of_not_inLock (inv.not_inLock_of_ne before mine)).mp writing)
          (written other)
    · exact flag
  exact inv.innerWalk pcEq trivial trivial ⟨⟨tailIs, rfl, below⟩, outside, flag⟩ rfl rfl rfl

/-- The holder of the lock clears the flag of the oldest item: from here on the
item counts as dropped. -/
theorem DropInv.clear (pcEq : state.producer thread = .lockedClear item tail head) :
    DropInv { state with
      chan := state.chan.setCommitted head false
      producer := update state.producer thread (.lockedAdvance item tail head) } := by
  obtain ⟨before, holderEq, ⟨rfl, rfl, below⟩, outside, flag⟩ := inv.holding pcEq trivial
  have flagSeen : (lossless state).chan.committed
      ((lossless state).chan.slot (lossless state).chan.head) = true := by
    change state.chan.committed (state.chan.slot (state.chan.head + half state.holder)) = true
    rw [holderEq]
    exact flag
  have dropped := inv.seen.drop outside
    (by simpa [lossless, seenChan, holderEq, half, early] using below) flagSeen
  have same : seenPc (.lockedAdvance item state.chan.tail state.chan.head) =
      seenPc (state.producer thread) := by rw [pcEq]; rfl
  have fits := inv.seen.tailLe
  simp only [lossless, holderEq] at fits
  refine inv.inner before trivial ⟨⟨rfl, rfl, below⟩, outside, fits⟩ (Nat.succ_le_of_lt below)
    inv.receivedSub le_rfl rfl ?_
  refine dropped.congr ?_ (lossless_producer_eq same) rfl (by simp [lossless, holderEq, early]) rfl
  simp [lossless, seenChan, holderEq, half, early, QdChannel.setCommitted, QdChannel.slot]

/-- The holder of the lock starts to write at the tail, where there is room.  To
the lossless protocol this is a reservation. -/
theorem DropInv.claim {headNow : Nat} {old : ProducerPc n β} (pcEq : state.producer thread = old)
    (before : InLock old) (seenEq : seenPc old = .sendTail item) (nothingEarly : early old = [])
    (headIs : headNow = state.chan.head + half old)
    (free : state.chan.tail < headNow + state.chan.capacity)
    (bound : state.sent.length + 1 < 2 ^ 64) : DropInv { state with
      chan := { state.chan with head := headNow }
      producer := update state.producer thread
        (.lockedWrite item state.chan.tail head 0) } := by
  subst pcEq
  have holderEq := inv.holder_of_inLock before
  obtain ⟨-, small⟩ := inv.counters_lt bound
  have headLe := inv.headLe
  rw [holderEq] at headLe
  subst headIs
  have notWriting : ∀ i, ¬ Writing ((lossless state).producer thread) i := by
    simp [lossless, seenEq, Writing]
  have reserved := inv.seen.reserve item head notWriting
    (show (lossless state).chan.tail = state.chan.tail by
      simp [lossless, seenChan, holderEq, nothingEarly])
    (by simpa [lossless, seenChan, holderEq] using free)
    (by simpa [lossless, holderEq, nothingEarly] using bound)
  rw [Nat.mod_eq_of_lt small] at reserved
  refine inv.inner before trivial rfl headLe
    (inv.receivedSub.trans (take_sublist_take_left (Nat.le_add_right _ _))) le_rfl rfl ?_
  refine reserved.congr ?_ rfl rfl (by simp [lossless, holderEq, nothingEarly]) rfl
  simp [lossless, seenChan, holderEq, half]

/-- The holder of the lock stores the tail: the item is now in the order. -/
theorem DropInv.innerPublish (pcEq : state.producer thread = .lockedPublish item tail head)
    (bound : state.sent.length + 1 < 2 ^ 64) : DropInv { state with
      chan := { state.chan with tail := (tail + 1) % 2 ^ 64 }
      producer := update state.producer thread (.unlock (tail = head))
      sent := state.sent ++ [item] } := by
  obtain ⟨before, holderEq, rfl⟩ := inv.holding pcEq trivial
  obtain ⟨headLe, small⟩ := inv.counters_lt bound
  have tailEq := inv.tailEq
  rw [Nat.mod_eq_of_lt small]
  refine inv.inner before trivial trivial (headLe.trans (Nat.le_succ _)) ?_ (Nat.le_succ _) rfl ?_
  · rw [take_append_of_le_length (headLe.trans tailEq.le)]
    exact inv.receivedSub
  · refine inv.seen.congr ?_ (lossless_producer_eq (by rw [pcEq]; rfl)) rfl ?_ rfl
    · simp only [lossless, holderEq]
      rfl
    · simp only [lossless, holderEq]
      exact append_nil _

variable
  (stepEq : producerStep thread spurious state.chan state.lock (state.producer thread) =
    some (chan, lock, pc, items))
include stepEq

/-- A producer copies one unit of its item, or sets the flag after the last. -/
theorem DropInv.write {copied : Nat} (pcEq : state.producer thread = .write item tail head copied) :
    DropInv { state with
      chan := chan
      lock := lock
      producer := update state.producer thread pc
      sent := state.sent ++ items } := by
  have before : ¬ InLock (state.producer thread) := by rw [pcEq]; exact fun inside => inside
  have seenEq : (lossless state).producer thread = .write item tail head copied := by
    simp [lossless, pcEq, seenPc]
  simp only [producerStep, pcEq] at stepEq
  split at stepEq <;> cases stepEq
  next inside =>
    refine inv.outer before (fun inside => inside) rfl (fun some => absurd rfl some) rfl rfl rfl
      (fun _ flag => flag) ?_
    exact (inv.seen.writeUnit seenEq inside).congr rfl rfl rfl (by simp [lossless]) rfl
  next whole =>
    have after : ¬ InLock (if tail = head then .signal else .idle : ProducerPc n β) := by
      split <;> exact fun inside => inside
    refine inv.outer before after rfl (fun some => absurd rfl some) rfl rfl rfl
      (fun _ flag => QdChannel.setCommitted_of_eq flag) ?_
    have notWriting : ∀ i, ¬ Writing (seenPc (if tail = head then .signal else .idle) :
        ProducerPc n β) i := by
      split <;> simp [seenPc, Writing]
    have allowed : ∀ (chan : QdChannel n β) sent fresh,
        ProducerInv chan sent fresh (seenPc (if tail = head then .signal else .idle)) := by
      intro chan sent fresh
      split <;> trivial
    exact (inv.seen.commit seenEq whole notWriting allowed).congr rfl rfl rfl
      (by simp [lossless]) rfl

/-- Every access of a producer that neither is in the locked section nor waits
for it keeps the invariant. -/
theorem DropInv.outerStep (before : ¬ InLock (state.producer thread))
    (notWaiting : ∀ item, state.producer thread ≠ .lock item)
    (exclusive : Exclusive state (.producer thread spurious)) : DropInv { state with
      chan := chan
      lock := lock
      producer := update state.producer thread pc
      sent := state.sent ++ items } := by
  have tailEq := inv.tailEq
  obtain ⟨bound, apart⟩ := exclusive
  cases pcEq : state.producer thread with
      (have known := stepEq; simp only [producerStep, pcEq] at stepEq)
  | idle => cases stepEq
  | sendTail item =>
    cases stepEq
    rw [append_nil]
    exact inv.walk before (fun inside => inside) (by simp [pcEq, Writing]) (by simp [Writing])
      (show state.chan.tail < 2 ^ 64 by omega)
  | sendHead item tail =>
    have facts := inv.seen.producers thread
    simp only [lossless, comp_apply, pcEq] at facts
    split at stepEq
    · split at stepEq <;> cases stepEq <;>
        rw [append_nil] <;>
        exact inv.walk before (fun inside => inside) (by simp [pcEq, Writing])
          (by simp [Writing]) trivial
    next room =>
      cases stepEq
      rw [append_nil]
      exact inv.walk before (fun inside => inside) (by simp [pcEq, Writing]) (by simp [Writing])
        ⟨facts, Nat.le_add_right _ _, Nat.lt_of_not_le room⟩
  | sendCas item tail head =>
    simp only [pcEq] at apart
    split at stepEq <;> cases stepEq
    next success => exact inv.reserve pcEq success.1 (apart success.1 success.2) bound
    · rw [append_nil]
      exact inv.walk before (fun inside => inside) (by simp [pcEq, Writing]) (by simp [Writing])
        trivial
  | write item tail head copied => exact inv.write known pcEq
  | signal =>
    cases stepEq
    have moved : Inv { lossless state with
        producer := update (lossless state).producer thread .idle } :=
      inv.seen.setProducer (by simp [lossless, pcEq, seenPc, Writing]) (by simp [Writing]) trivial
    exact inv.outer before (fun inside => inside) rfl (fun some => absurd rfl some) rfl rfl rfl
      (fun _ flag => flag) ((moved.setEventfd _).congr rfl rfl rfl (by simp [lossless]) rfl)
  | lock item => exact absurd pcEq (notWaiting item)
  | _ =>
    rw [pcEq] at before
    exact absurd trivial before

/-- The holder of the lock copies one unit of its item, or sets the flag after the
last. -/
theorem DropInv.innerWrite {copied : Nat}
    (pcEq : state.producer thread = .lockedWrite item tail head copied) : DropInv { state with
      chan := chan
      lock := lock
      producer := update state.producer thread pc
      sent := state.sent ++ items } := by
  obtain ⟨before, holderEq, own⟩ := inv.holding pcEq trivial
  have seenEq : (lossless state).producer thread = .write item tail head copied := by
    simp [lossless, pcEq, seenPc]
  have headLe := inv.headLe
  rw [holderEq] at headLe
  simp only [producerStep, pcEq] at stepEq
  split at stepEq <;> cases stepEq <;> rw [append_nil]
  next inside =>
    have written := inv.seen.writeUnit seenEq inside
    simp only [lossless, holderEq] at written
    exact inv.inner before trivial own headLe inv.receivedSub le_rfl rfl written
  next whole =>
    have committed : Inv { lossless state with
        chan := (lossless state).chan.setCommitted tail true
        producer := update (lossless state).producer thread .idle } :=
      inv.seen.commit seenEq whole (by simp [Writing]) fun _ _ _ => trivial
    simp only [lossless, holderEq] at committed
    exact inv.inner before trivial own headLe inv.receivedSub le_rfl rfl committed

/-- Every access of the holder of the lock keeps the invariant. -/
theorem DropInv.innerStep (before : InLock (state.producer thread))
    (exclusive : Exclusive state (.producer thread spurious)) : DropInv { state with
      chan := chan
      lock := lock
      producer := update state.producer thread pc
      sent := state.sent ++ items } := by
  have tailEq := inv.tailEq
  obtain ⟨bound, apart⟩ := exclusive
  have own := inv.locked thread
  cases pcEq : state.producer thread with
      (have known := stepEq; simp only [producerStep, pcEq] at stepEq)
  | lockedTail item =>
    cases stepEq
    rw [append_nil]
    exact inv.innerWalk pcEq trivial trivial rfl rfl rfl rfl
  | lockedHead item tail =>
    rw [pcEq] at own
    obtain rfl : tail = state.chan.tail := own
    simp only [pcEq] at apart
    split at stepEq <;> cases stepEq <;> rw [append_nil]
    next full =>
      obtain ⟨outside, written⟩ := apart full
      exact inv.findFull pcEq full outside written bound
    next room =>
      have free : state.chan.tail < state.chan.head + state.chan.capacity := by omega
      exact inv.claim pcEq trivial rfl rfl rfl free bound
  | lockedClear item tail head =>
    cases stepEq
    rw [append_nil]
    exact inv.clear pcEq
  | lockedAdvance item tail head =>
    rw [pcEq] at own
    obtain ⟨⟨rfl, rfl, below⟩, -, fits⟩ := own
    have free : state.chan.tail < state.chan.head + 1 + state.chan.capacity := by omega
    cases stepEq
    have headIs : (state.chan.head + 1) % 2 ^ 64 = state.chan.head + 1 :=
      Nat.mod_eq_of_lt (by omega)
    rw [append_nil]
    exact inv.claim pcEq trivial rfl rfl headIs (by rw [headIs]; exact free) bound
  | lockedWrite item tail head copied => exact inv.innerWrite known pcEq
  | lockedPublish item tail head =>
    cases stepEq
    exact inv.innerPublish pcEq bound
  | unlock wasEmpty =>
    cases stepEq
    rw [append_nil]
    exact inv.release pcEq
  | _ =>
    rw [pcEq] at before
    exact before.elim

end

end Producers

/-! ## Steps of the consumer -/

section Consumer

/-- The consumer's next access is its load of the tail. -/
def LoadsTail : ConsumerPc n β → Prop
  | .recvTail _ _ | .batchTail _ _ _ => True
  | _ => False

variable {pc : ConsumerPc n β}

/-- Only the load of the tail depends on the tail. -/
theorem consumerStep_withTail (chan : QdChannel n β) (other : ¬ LoadsTail pc) (tail : Nat) :
    consumerStep { chan with overflow := false, tail := tail } pc =
      (consumerStep chan pc).map fun (next, after, items) =>
        ({ next with overflow := false, tail := tail }, after, items) := by
  cases pc with
  | recvTail memory head => exact absurd trivial other
  | batchTail max memory head => exact absurd trivial other
  | idle result items | recvHead memory | recvPublish item head | batchHead max memory
  | batchPublish batch => rfl
  | recvSpin memory head =>
    cases flag : chan.committed (head &&& chan.mask) <;>
      simp [consumerStep, QdChannel.slot, flag]
  | batchSpin batch spins =>
    cases flag : chan.committed (batch.head + batch.got.length &&& chan.mask)
    · simp only [consumerStep, QdChannel.slot, flag]
      split_ifs <;> rfl
    · simp [consumerStep, QdChannel.slot, flag]
  | batchCheck batch =>
    cases flag : chan.committed (batch.head + batch.got.length &&& chan.mask) <;>
      simp [consumerStep, QdChannel.slot, flag]
  | recvCopy memory head copied | batchCopy batch memory copied =>
    simp only [consumerStep]
    split_ifs <;> rfl

variable {chan : QdChannel n β} {items : List (Item n β)}

/-- What a step of the consumer does to the counters, given what it knows. -/
theorem consumerStep_counters {next seen : QdChannel n β} {after : ConsumerPc n β}
    (stepEq : consumerStep chan pc = some (next, after, items)) (knows : ConsumerInv seen sent pc)
    (headEq : seen.head = chan.head) (limitLe : limit pc ≤ chan.tail) : limit after ≤ chan.tail ∧
      ((items = [] ∧ next.head = chan.head) ∨
        (items = taken pc ∧ next.head = (chan.head + (taken pc).length) % 2 ^ 64 ∧
          chan.head + (taken pc).length ≤ chan.tail)) := by
  have stop (batch : Batch n β) (low : batch.head + batch.toRead ≤ chan.tail) :
      limit (batchStop batch) ≤ chan.tail := by
    rw [batchStop]
    split
    · exact Nat.zero_le _
    · exact low
  have loop (batch : Batch n β) (low : batch.head + batch.toRead ≤ chan.tail) :
      limit (batchNext batch) ≤ chan.tail := by
    rw [batchNext]
    split
    · exact low
    · exact stop batch low
  cases pc with simp only [consumerStep] at stepEq
  | idle result items => cases stepEq
  | recvHead memory | batchHead max memory =>
    cases stepEq
    exact ⟨Nat.zero_le _, .inl ⟨rfl, rfl⟩⟩
  | recvTail memory head =>
    split at stepEq <;> cases stepEq
    · exact ⟨Nat.zero_le _, .inl ⟨rfl, rfl⟩⟩
    next nonempty => exact ⟨Nat.lt_of_not_le nonempty, .inl ⟨rfl, rfl⟩⟩
  | batchTail max memory head =>
    split at stepEq <;> cases stepEq
    · exact ⟨Nat.zero_le _, .inl ⟨rfl, rfl⟩⟩
    next nonempty =>
      refine ⟨loop _ ?_, .inl ⟨rfl, rfl⟩⟩
      change head + (if chan.tail - head < max then chan.tail - head else max) ≤ chan.tail
      split <;> omega
  | recvSpin memory head | recvCopy memory head copied =>
    split at stepEq <;> cases stepEq <;> exact ⟨limitLe, .inl ⟨rfl, rfl⟩⟩
  | batchSpin batch spins =>
    split at stepEq
    · cases stepEq
      exact ⟨limitLe, .inl ⟨rfl, rfl⟩⟩
    · split at stepEq <;> cases stepEq <;> exact ⟨limitLe, .inl ⟨rfl, rfl⟩⟩
  | batchCheck batch =>
    split at stepEq <;> cases stepEq
    · exact ⟨limitLe, .inl ⟨rfl, rfl⟩⟩
    · exact ⟨stop batch limitLe, .inl ⟨rfl, rfl⟩⟩
  | batchCopy batch memory copied =>
    split at stepEq <;> cases stepEq
    · exact ⟨limitLe, .inl ⟨rfl, rfl⟩⟩
    · exact ⟨loop _ limitLe, .inl ⟨rfl, rfl⟩⟩
  | recvPublish item head =>
    obtain ⟨atHead, -⟩ := knows
    cases stepEq
    have headIs : head = chan.head := atHead.trans headEq
    subst headIs
    exact ⟨Nat.zero_le _, .inr ⟨rfl, rfl, limitLe⟩⟩
  | batchPublish batch =>
    obtain ⟨⟨atHead, -, fits⟩, -⟩ := knows
    cases stepEq
    have headIs : batch.head = chan.head := atHead.trans headEq
    rw [headIs]
    refine ⟨Nat.zero_le _, .inr ⟨rfl, rfl, ?_⟩⟩
    rw [← headIs]
    exact (Nat.add_le_add_left fits _).trans limitLe

variable {state : State n β Tid}

/-- The items in the consumer's hands are below the tail it has loaded. -/
theorem taken_le_limit (knows : ConsumerInv chan sent pc) (some : taken pc ≠ []) :
    chan.head + (taken pc).length ≤ limit pc := by
  cases pc with
  | recvPublish item head =>
    rw [← knows.1]
    exact le_rfl
  | batchSpin batch spins | batchCheck batch | batchPublish batch =>
    obtain ⟨⟨atHead, -, fits⟩, -⟩ := knows
    rw [← atHead]
    exact Nat.add_le_add_left fits _
  | batchCopy batch memory copied =>
    obtain ⟨⟨⟨atHead, -, fits⟩, -⟩, -⟩ := knows
    rw [← atHead]
    exact Nat.add_le_add_left fits _
  | _ => exact absurd rfl some

variable (inv : DropInv state)
include inv

/-- While the consumer is inside, nobody is in the middle of a drop. -/
theorem DropInv.not_dropping (inside : ¬ Outside state.consumer)
    (thread : Tid) : ¬ Dropping (state.producer thread) := by
  intro dropping
  have facts := inv.locked thread
  cases pcEq : state.producer thread with
  | lockedClear item tail head | lockedAdvance item tail head =>
    rw [pcEq] at facts
    exact inside facts.2.1
  | _ =>
    rw [pcEq] at dropping
    exact dropping.elim

theorem DropInv.half_of_inside (inside : ¬ Outside state.consumer) : half state.holder = 0 :=
  half_eq_zero (holder_of_forall (fun dropping => dropping) (inv.not_dropping inside))

/-- The items in the consumer's hands come next in the order; the item that is
written under the lock is not among them. -/
theorem DropInv.inHand : taken state.consumer <+: state.sent.drop state.chan.head := by
  by_cases none : taken state.consumer = []
  · rw [none]
    exact nil_prefix
  have noDrop := inv.half_of_inside fun outside => none (taken_of_outside outside)
  have below := (taken_le_limit inv.seen.consumerOk none).trans inv.limitLe
  have sentEq := inv.tailEq
  have known := inv.seen.takenPrefix
  simp only [lossless, seenChan, noDrop] at known below
  rw [drop_append_of_le_length (by omega)] at known
  exact prefix_of_prefix_length_le known (prefix_append _ _) (by rw [length_drop]; omega)

variable (stepEq : consumerStep state.chan state.consumer = some (chan, pc, items))
include stepEq

/-- The lossless protocol sees the same step of the consumer. -/
theorem DropInv.consumerSeen (noDrop : half state.holder = 0) : Inv { lossless state with
      chan := { chan with
        overflow := false
        tail := state.chan.tail + (early state.holder).length }
      consumer := pc
      received := (state.sent ++ early state.holder).take chan.head } := by
  have seenIs : (lossless state).chan = { state.chan with
      overflow := false
      tail := state.chan.tail + (early state.holder).length } := by
    simp [lossless, seenChan, noDrop]
  have knows := inv.seen.consumerOk
  have stay {after : ConsumerPc n β} (same : taken after = taken state.consumer)
      (allowed : ConsumerInv (lossless state).chan (lossless state).sent after) :
      Inv { lossless state with
        chan := { state.chan with
          overflow := false
          tail := state.chan.tail + (early state.holder).length }
        consumer := after
        received := (state.sent ++ early state.holder).take state.chan.head } :=
    (inv.seen.setConsumer rfl same allowed).congr seenIs.symm rfl rfl rfl rfl
  by_cases loads : LoadsTail state.consumer
  · cases pcEq : state.consumer with
    | recvTail memory head =>
      rw [show (lossless state).consumer = state.consumer from rfl, pcEq, seenIs] at knows
      have headIs : head = state.chan.head := knows
      simp only [consumerStep, pcEq] at stepEq
      split at stepEq <;> cases stepEq
      · exact stay (by rw [pcEq]; rfl) trivial
      next nonempty =>
        refine stay (by rw [pcEq]; rfl) ?_
        rw [seenIs]
        exact ⟨headIs, (Nat.lt_of_not_le nonempty).trans_le (Nat.le_add_right _ _)⟩
    | batchTail max memory head =>
      rw [show (lossless state).consumer = state.consumer from rfl, pcEq, seenIs] at knows
      obtain ⟨headIs, -⟩ := knows
      simp only [consumerStep, pcEq] at stepEq
      split at stepEq <;> cases stepEq
      · exact stay (by rw [pcEq]; rfl) trivial
      next nonempty =>
        refine stay (by rw [taken_batchNext, pcEq]; rfl) ?_
        rw [seenIs]
        refine consumerInv_batchNext ⟨headIs, ?_, Nat.zero_le _⟩
        change head + (if state.chan.tail - head < max then state.chan.tail - head else max)
          ≤ state.chan.tail + (early state.holder).length
        split <;> omega
    | _ =>
      rw [pcEq] at loads
      exact loads.elim
  · have seenStep : consumerStep (lossless state).chan (lossless state).consumer =
        some ({ chan with
          overflow := false
          tail := state.chan.tail + (early state.holder).length }, pc, items) := by
      rw [seenIs, show (lossless state).consumer = state.consumer from rfl,
        consumerStep_withTail _ loads, stepEq]
      rfl
    exact (inv.seen.consumerStep seenStep).congr rfl rfl rfl rfl rfl

/-- Every access of the consumer keeps the invariant. -/
theorem DropInv.consumerStep : DropInv { state with
      chan := chan
      consumer := pc
      received := state.received ++ items } := by
  have inside : ¬ Outside state.consumer := by
    intro outside
    cases pcEq : state.consumer with
    | idle result items => simp [Channel.consumerStep, pcEq] at stepEq
    | _ =>
      rw [pcEq] at outside
      exact outside.elim
  have noDrop := inv.half_of_inside inside
  have headEq : (lossless state).chan.head = state.chan.head := by
    simp [lossless, seenChan, noDrop]
  obtain ⟨tailEq, capacityEq, closedEq⟩ := consumerStep_words stepEq
  obtain ⟨limitLe, counters⟩ :=
    consumerStep_counters stepEq inv.seen.consumerOk headEq inv.limitLe
  have sentEq := inv.tailEq
  have sentLt := inv.seen.sentLt
  have tailLt : state.chan.tail < 2 ^ 64 := by
    simp only [lossless, length_append] at sentLt
    omega
  refine {
    seen := ?_
    mutex := inv.mutex
    locked := fun thread => (inv.locked thread).transfer (fun _ => tailEq) capacityEq
      fun dropping => absurd dropping (inv.not_dropping inside thread)
    receivedSub := ?_
    headLe := ?_
    limitLe := limitLe.trans tailEq.ge
    notClosed := closedEq.trans inv.notClosed }
  · refine (inv.consumerSeen stepEq noDrop).congr ?_ rfl rfl rfl rfl
    change seenChan state.holder chan = _
    simp [seenChan, noDrop, tailEq]
  · rcases counters with ⟨rfl, same⟩ | ⟨rfl, moved, fits⟩
    · rw [append_nil]
      rw [same]
      exact inv.receivedSub
    · change (state.received ++ taken state.consumer).Sublist (state.sent.take chan.head)
      rw [moved, Nat.mod_eq_of_lt (by omega), take_add]
      rw [← prefix_iff_eq_take.mp inv.inHand]
      exact inv.receivedSub.append (List.Sublist.refl _)
  · change chan.head + half state.holder ≤ chan.tail
    have headLe := inv.headLe
    rcases counters with ⟨-, same⟩ | ⟨-, moved, fits⟩
    · rw [same, tailEq]
      exact headLe
    · rw [moved, tailEq, noDrop, Nat.mod_eq_of_lt (by omega)]
      exact fits

end Consumer

/-! ## Runs -/

section Runs

variable [DecidableEq Tid]

omit [DecidableEq Tid] in
/-- The consumer enters or leaves a call at once. -/
theorem DropInv.enter {state : State n β Tid} (inv : DropInv state) {pc : ConsumerPc n β}
    (outside : Outside state.consumer) (noDrop : ∀ thread, ¬ Dropping (state.producer thread))
    (nothing : taken pc = []) (unlimited : limit pc = 0)
    (allowed : ∀ (chan : QdChannel n β) sent, ConsumerInv chan sent pc) :
    DropInv { state with consumer := pc } := by
  have moved : Inv { lossless state with consumer := pc } :=
    inv.seen.setConsumer rfl (nothing.trans (taken_of_outside outside).symm) (allowed _ _)
  exact { inv with
    seen := moved
    locked := fun thread => (inv.locked thread).transfer (fun _ => rfl) rfl
      fun dropping => absurd dropping (noDrop thread)
    limitLe := unlimited.le.trans (Nat.zero_le _) }

theorem DropInv.step {state next : State n β Tid} {label : Label n β Tid} (inv : DropInv state)
    (exclusive : Exclusive state label) (stepEq : step state label = some next) : DropInv next := by
  cases label with simp only [Channel.step] at stepEq
  | trySend thread item =>
    split at stepEq
    next pcEq =>
      split at stepEq <;> cases stepEq
      · exact inv
      · exact inv.walk (by rw [pcEq]; exact fun inside => inside) (fun inside => inside)
          (by simp [pcEq, Writing]) (by simp [Writing]) trivial
    · cases stepEq
  | producer thread spurious =>
    obtain ⟨⟨chan, lock, pc, items⟩, producerEq, rfl⟩ := map_eq_some_iff.mp stepEq
    by_cases inside : InLock (state.producer thread)
    · exact inv.innerStep producerEq inside exclusive
    cases pcEq : state.producer thread with
    | lock item =>
      simp only [producerStep, pcEq] at producerEq
      split at producerEq <;> cases producerEq
      next free =>
        rw [append_nil]
        exact inv.acquire pcEq free
    | _ => exact inv.outerStep producerEq inside (by simp [pcEq]) exclusive
  | tryRecv memory =>
    split at stepEq
    next pcEq =>
      split at stepEq <;> cases stepEq <;>
        exact inv.enter (by rw [pcEq]; trivial) exclusive.2 rfl rfl fun _ _ => trivial
    · cases stepEq
  | tryRecvBatch max memory =>
    split at stepEq
    next pcEq =>
      split at stepEq
      · cases stepEq
        exact inv.enter (by rw [pcEq]; trivial) exclusive.2 rfl rfl fun _ _ => trivial
      next positive =>
        split at stepEq <;> cases stepEq
        · exact inv.enter (by rw [pcEq]; trivial) exclusive.2 rfl rfl fun _ _ => trivial
        · exact inv.enter (by rw [pcEq]; trivial) exclusive.2 rfl rfl
            fun _ _ => Nat.pos_of_ne_zero positive
    · cases stepEq
  | consumer =>
    obtain ⟨⟨chan, pc, items⟩, consumerEq, rfl⟩ := map_eq_some_iff.mp stepEq
    exact inv.consumerStep consumerEq

omit [DecidableEq Tid] in
theorem initial_dropInv {capacity : BitVec 64} {memory : Nat → Item n β} {chan : QdChannel n β}
    (created : channelCreate capacity true memory = some chan) :
    DropInv (State.initial chan : State n β Tid) := by
  obtain ⟨nonzero, rfl⟩ := channelCreate_eq_some created
  exact {
    seen := (initial_inv nonzero).congr rfl rfl rfl rfl rfl
    mutex := fun _ => iff_of_false (fun inside => inside) (by simp [State.initial])
    locked := fun _ => trivial
    receivedSub := nil_sublist _
    headLe := le_rfl
    limitLe := le_rfl
    notClosed := rfl }

end Runs

end QDaemon.Channel
