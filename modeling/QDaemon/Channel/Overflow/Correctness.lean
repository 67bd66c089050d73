import QDaemon.Channel.Overflow.Steps

/-!
# The channel in overflow mode keeps the newest items

While the overflow branch is kept apart from what it competes with, the received
items are a subsequence of the sent ones, only the oldest items are dropped, and
whatever is retained can be drained.  Without that condition an item can be
stranded: the consumer clears the flag of a slot that a producer has filled again
in the meantime.
-/

namespace QDaemon.Channel

open Option List Bits Common Transition

universe u v

variable {n : Nat} {β : Type u} {Tid : Type v}

/-- The producer is still at work on a position: it is writing the item, or it is
about to drop it. -/
def Holds (pc : ProducerPc n β) (i : Nat) : Prop :=
  match pc with
  | .write _ tail _ _ => tail = i
  | .lockedAdvance _ _ head => head = i
  | _ => False

/-- The label belongs to a `qd_channel_try_recv` of the consumer. -/
def Label.Receives : Label n β Tid → Prop
  | .tryRecv _ | .consumer => True
  | _ => False

/-! ## Draining -/

section Drain

variable [DecidableEq Tid]

/-- One `qd_channel_try_recv`: the call, the loads of the head, the tail and the
flag, the copy, and the stores of the flag and the head. -/
def receiveOne (memory : Item n β) : List (Label n β Tid) :=
  [.tryRecv memory, .consumer, .consumer, .consumer] ++ List.replicate n .consumer ++
    [.consumer, .consumer]

omit [DecidableEq Tid] in
theorem receives_of_mem_receiveOne {memory : Item n β} {label : Label n β Tid}
    (member : label ∈ receiveOne memory) : label.Receives := by
  simp only [receiveOne, mem_append, mem_cons, not_mem_nil, or_false, mem_replicate] at member
  rcases member with ((rfl | rfl | rfl | rfl) | ⟨-, rfl⟩) | rfl | rfl <;> trivial

theorem exec_copy (state : State n β Tid) (head : Nat) :
    ∀ (left copied : Nat) (memory : Item n β), copied + left = n →
      (∀ k : Fin n, k.val < copied → memory k = state.chan.buffer (state.chan.slot head) k) →
      exec step { state with consumer := .recvCopy memory head copied }
          (List.replicate left .consumer) =
        some { state with
          consumer := .recvCopy (state.chan.buffer (state.chan.slot head)) head n } := by
  intro left
  induction left with
  | zero =>
    intro copied memory whole read
    have memoryEq : memory = state.chan.buffer (state.chan.slot head) :=
      funext fun k => read k (by omega)
    obtain rfl : copied = n := whole
    rw [memoryEq]
    rfl
  | succ left ih =>
    intro copied memory whole read
    have inside : copied < n := by omega
    rw [replicate_succ, exec_cons]
    simp only [step, consumerStep, dif_pos inside, map_some, append_nil]
    exact ih (copied + 1) _ (by omega) (copied_succ inside read)

/-- The state after the consumer has received the oldest item. -/
def State.withoutOldest (state : State n β Tid) : State n β Tid :=
  { state with
    chan := { state.chan.setCommitted state.chan.head false with
      head := (state.chan.head + 1) % 2 ^ 64 }
    consumer := .idle qdOk [state.chan.buffer (state.chan.slot state.chan.head)]
    received := state.received ++ [state.chan.buffer (state.chan.slot state.chan.head)] }

/-- A call on a channel whose oldest item is committed delivers it. -/
theorem exec_receiveOne {state : State n β Tid} (memory : Item n β)
    (outside : Outside state.consumer) (notClosed : state.chan.closed = false)
    (nonempty : state.chan.head < state.chan.tail)
    (flag : state.chan.committed (state.chan.slot state.chan.head) = true) :
    exec step state (receiveOne memory) = some state.withoutOldest := by
  cases pcEq : state.consumer with
  | idle result items =>
    have entered : exec step state [.tryRecv memory, .consumer, .consumer, .consumer] =
        some { state with consumer := .recvCopy memory state.chan.head 0 } := by
      simp [exec, step, pcEq, notClosed, consumerStep, Nat.not_le_of_lt nonempty, flag]
    have copied := exec_copy state state.chan.head n 0 memory (Nat.zero_add n)
      (fun k below => absurd below (Nat.not_lt_zero _))
    rw [receiveOne, exec_append, exec_append, entered, bind_some, copied]
    simp [exec, step, consumerStep, State.withoutOldest]
  | _ =>
    rw [pcEq] at outside
    exact outside.elim

/-- As long as the oldest items are committed, calls of the consumer alone
deliver them in order. -/
theorem exists_drain (memory : Item n β) (count : Nat) :
    ∀ state : State n β Tid, Outside state.consumer → state.chan.closed = false →
      state.chan.head + count ≤ state.chan.tail → state.chan.tail < 2 ^ 64 →
      (∀ i, state.chan.head ≤ i → i < state.chan.head + count →
        state.chan.committed (state.chan.slot i) = true) →
      (∀ i j, state.chan.head ≤ i → i < j → j < state.chan.head + count →
        state.chan.slot i ≠ state.chan.slot j) →
      ∃ labels next, (∀ label ∈ labels, label.Receives) ∧ exec step state labels = some next ∧
        next.received = state.received ++ (List.range' state.chan.head count).map fun i =>
          state.chan.buffer (state.chan.slot i) := by
  induction count with
  | zero =>
    intro state _ _ _ _ _ _
    exact ⟨[], state, by simp, rfl, by simp⟩
  | succ count ih =>
    intro state outside notClosed fits small flags apart
    have headIs : state.withoutOldest.chan.head = state.chan.head + 1 := Nat.mod_eq_of_lt (by omega)
    have first := exec_receiveOne memory outside notClosed (by omega)
      (flags state.chan.head le_rfl (by omega))
    have laterFlags : ∀ i, state.withoutOldest.chan.head ≤ i →
        i < state.withoutOldest.chan.head + count →
        state.withoutOldest.chan.committed (state.withoutOldest.chan.slot i) = true := by
      intro i low high
      have different := apart state.chan.head i le_rfl (by omega) (by omega)
      exact (QdChannel.setCommitted_ne different.symm false).trans (flags i (by omega) (by omega))
    obtain ⟨labels, next, receives, executed, receivedEq⟩ := ih state.withoutOldest trivial
      notClosed (show _ ≤ state.chan.tail by omega) small laterFlags
      fun i j low less high => apart i j (by omega) less (by omega)
    refine ⟨receiveOne memory ++ labels, next, ?_, ?_, ?_⟩
    · intro label member
      rcases mem_append.mp member with early | late
      · exact receives_of_mem_receiveOne early
      · exact receives label late
    · rw [exec_append, first]
      exact executed
    · rw [receivedEq, headIs, List.range'_succ]
      exact append_assoc _ _ _

end Drain

/-! ## What overflow mode promises -/

section Runs

variable [DecidableEq Tid]

/-- The items of a channel in overflow mode: those received are a subsequence of
those that left the channel; those in the consumer's hands come next; every later
one is in the hands of a producer or whole in its committed slot; and calls of the
consumer alone deliver everything up to the first item that a producer is still at
work on. -/
structure KeepsNewest (state : State n β Tid) : Prop where
  received : state.received.Sublist (state.sent.take state.chan.head)
  inHand : taken state.consumer <+: state.sent.drop state.chan.head
  retained : ∀ i, state.chan.head + (taken state.consumer).length ≤ i → i < state.sent.length →
    (∃ thread, Holds (state.producer thread) i) ∨
      (state.chan.committed (state.chan.slot i) = true ∧
        state.sent[i]? = some (state.chan.buffer (state.chan.slot i)))
  tailEq : state.chan.tail = state.sent.length
  headLe : state.chan.head ≤ state.chan.tail
  bounded : state.chan.tail - state.chan.head ≤ state.chan.capacity
  drained : ∀ count, Outside state.consumer →
    state.chan.head + count ≤ state.chan.tail →
    (∀ i, state.chan.head ≤ i → i < state.chan.head + count →
      ∀ thread, ¬ Holds (state.producer thread) i) →
    ∃ labels next, (∀ label ∈ labels, label.Receives) ∧ exec step state labels = some next ∧
      next.received = state.received ++ (state.sent.drop state.chan.head).take count

section

omit [DecidableEq Tid]

/-- Only a producer between the two stores of a drop is ahead of the head. -/
theorem DropInv.exists_advancing {state : State n β Tid} (inv : DropInv state)
    (ahead : half state.holder ≠ 0) : half state.holder = 1 ∧ taken state.consumer = [] ∧
      state.chan.tail ≤ state.chan.head + state.chan.capacity ∧
      ∃ thread, Holds (state.producer thread) state.chan.head := by
  rw [State.holder] at ahead ⊢
  cases lockEq : state.lock with
  | none =>
    rw [lockEq] at ahead
    exact absurd rfl ahead
  | some thread =>
    rw [lockEq] at ahead
    have own := inv.locked thread
    cases pcEq : state.producer thread with
    | lockedAdvance item tail head =>
      rw [pcEq] at own
      obtain ⟨⟨tailIs, headIs, -⟩, outside, fits⟩ := own
      refine ⟨?_, taken_of_outside outside, by rwa [← tailIs, ← headIs], thread, ?_⟩
      · simp [holderOf, pcEq, half]
      · rw [pcEq]
        exact headIs
    | _ => simp [holderOf, pcEq, half] at ahead

/-- Where a retained item is. -/
theorem DropInv.retained {state : State n β Tid} (inv : DropInv state) {i : Nat}
    (low : state.chan.head + (taken state.consumer).length ≤ i) (high : i < state.sent.length) :
    (∃ thread, Holds (state.producer thread) i) ∨
      (state.chan.committed (state.chan.slot i) = true ∧
        state.sent[i]? = some (state.chan.buffer (state.chan.slot i))) := by
  have tailEq := inv.tailEq
  by_cases dropped : state.chan.head + half state.holder + (taken state.consumer).length ≤ i
  · rcases inv.seen.stored i dropped (show i < state.chan.tail + _ by omega) with
      ⟨thread, writing⟩ | ⟨flag, held⟩
    · refine .inl ⟨thread, ?_⟩
      change Writing (seenPc (state.producer thread)) i at writing
      have own := inv.locked thread
      cases pcEq : state.producer thread with
      | write item tail head copied =>
        rw [pcEq] at writing
        exact writing
      | lockedWrite item tail head copied =>
        rw [pcEq] at writing own
        obtain rfl : tail = i := writing
        obtain rfl : tail = state.chan.tail := own
        omega
      | _ =>
        rw [pcEq] at writing
        exact writing.elim
    · refine .inr ⟨flag, ?_⟩
      change (state.sent ++ early state.holder)[i]? = _ at held
      rwa [List.getElem?_append_left high] at held
  · obtain ⟨one, none, -, thread, holds⟩ := inv.exists_advancing (by omega)
    rw [none, length_nil] at dropped
    rw [none] at low
    obtain rfl : i = state.chan.head := by omega
    exact .inl ⟨thread, holds⟩

theorem DropInv.bounded {state : State n β Tid} (inv : DropInv state) :
    state.chan.tail ≤ state.chan.head + state.chan.capacity := by
  by_cases noDrop : half state.holder = 0
  · have tailLe := inv.seen.tailLe
    simp only [lossless, seenChan] at tailLe
    omega
  · exact (inv.exists_advancing noDrop).2.2.1

end

/-- Calls of the consumer alone deliver everything that no producer is at work
on. -/
theorem DropInv.drained {state : State n β Tid} (inv : DropInv state) {count : Nat}
    (outside : Outside state.consumer) (fits : state.chan.head + count ≤ state.chan.tail)
    (finished : ∀ i, state.chan.head ≤ i → i < state.chan.head + count →
      ∀ thread, ¬ Holds (state.producer thread) i) :
    ∃ labels next, (∀ label ∈ labels, label.Receives) ∧ exec Channel.step state labels = some next ∧
      next.received = state.received ++ (state.sent.drop state.chan.head).take count := by
  have tailEq := inv.tailEq
  have sentLt := inv.seen.sentLt
  simp only [lossless, length_append] at sentLt
  have none := taken_of_outside outside
  have whole : ∀ i, state.chan.head ≤ i → i < state.chan.head + count →
      state.chan.committed (state.chan.slot i) = true ∧
        state.sent[i]? = some (state.chan.buffer (state.chan.slot i)) := by
    intro i low high
    have fresh : state.chan.head + (taken state.consumer).length ≤ i := by
      rw [none]
      exact low
    rcases inv.retained fresh (by omega) with ⟨thread, holds⟩ | held
    · exact absurd holds (finished i low high thread)
    · exact held
  have bounded := inv.bounded
  obtain ⟨labels, next, receives, executed, receivedEq⟩ :=
    exists_drain (state.chan.buffer 0) count state outside inv.notClosed fits (by omega)
      (fun i low high => (whole i low high).1)
      (fun i j low less high => inv.seen.slot_ne less (show j < i + state.chan.capacity by omega))
  refine ⟨labels, next, receives, executed, ?_⟩
  rw [receivedEq]
  congr 1
  apply ext_getElem?
  intro k
  by_cases inside : k < count
  · rw [List.getElem?_map, List.getElem?_range' inside, List.getElem?_take_of_lt inside,
      List.getElem?_drop, (whole (state.chan.head + k) (by omega) (by omega)).2]
    simp
  · rw [List.getElem?_eq_none (by simp; omega), List.getElem?_eq_none (by simp; omega)]

/-- In every run that keeps the overflow branch apart from the accesses it
competes with, only the oldest items are dropped and everything else can be
received, in order. -/
theorem overflow_keepsNewest {capacity : BitVec 64} {memory : Nat → Item n β}
    {chan : QdChannel n β} (created : channelCreate capacity true memory = some chan)
    {target : State n β Tid} (run : GuardedRun step Exclusive (State.initial chan) target) :
    KeepsNewest target := by
  have inv : DropInv target :=
    run.invariant DropInv (initial_dropInv created)
      (fun _ _ _ inv exclusive stepEq => inv.step exclusive stepEq)
  have headLe := inv.headLe
  have bounded := inv.bounded
  exact {
    received := inv.receivedSub
    inHand := inv.inHand
    retained := fun _ low high => inv.retained low high
    tailEq := inv.tailEq
    headLe := (Nat.le_add_right _ _).trans headLe
    bounded := Nat.sub_le_of_le_add (by omega)
    drained := fun _ outside fits finished => inv.drained outside fits finished }

/-- A full channel of one slot is sent to twice more; what is left is received in
the end. -/
def sendOverFull : List (Label 1 Nat Bool) :=
  [.trySend true ![5]] ++ List.replicate 6 (.producer true false) ++
    [.trySend true ![6]] ++ List.replicate 11 (.producer true false) ++
    [.trySend false ![7]] ++ List.replicate 11 (.producer false false) ++ receiveOne ![0]

theorem overflow_keepsNewest_sendOverFull :
    ∃ chan target, channelCreate 1 true (fun _ => ![0]) = some chan ∧
      exec (guarded step Exclusive) (State.initial chan) sendOverFull = some target ∧
      target.sent.map (fun item => item 0) = [5, 6, 7] ∧
      target.received.map (fun item => item 0) = [7] ∧ KeepsNewest target := by
  obtain ⟨chan, created⟩ : ∃ chan : QdChannel 1 Nat,
      channelCreate 1 true (fun _ => ![0]) = some chan := ⟨_, rfl⟩
  obtain ⟨target, targetEq, sent, received⟩ := exec_meets (guarded step Exclusive)
    (State.initial chan : State 1 Nat Bool) sendOverFull (fun state =>
      state.sent.map (fun item => item 0) = [5, 6, 7] ∧
      state.received.map (fun item => item 0) = [7]) (by
      cases created
      decide +kernel)
  exact ⟨chan, target, created, targetEq, sent, received,
    overflow_keepsNewest created (guardedRun_of_exec targetEq)⟩

/-- The consumer has copied the only item and is about to clear its flag.  A
producer finds the channel full, drops that item, fills the slot again and sets the
flag; then the consumer clears it and publishes the head it had loaded. -/
def clearRefilled : List (Label 1 Nat Bool) :=
  [.trySend true ![5]] ++ List.replicate 6 (.producer true false) ++
    [.tryRecv ![0]] ++ List.replicate 4 .consumer ++
    [.trySend true ![6]] ++ List.replicate 11 (.producer true false) ++
    [.consumer, .consumer]

/-- An item can be stranded in a slot without a flag although every producer has
finished. -/
theorem not_keepsNewest_clearRefilled : ∃ chan, channelCreate 1 true (fun _ => ![0]) = some chan ∧
      ∃ target : State 1 Nat Bool, Reachable step (State.initial chan) target ∧
        (∀ thread, target.producer thread = .idle) ∧ ¬ KeepsNewest target := by
  obtain ⟨chan, created⟩ : ∃ chan : QdChannel 1 Nat,
      channelCreate 1 true (fun _ => ![0]) = some chan := ⟨_, rfl⟩
  obtain ⟨target, targetEq, idle, low, high, unset⟩ := exec_meets step (State.initial chan : State 1
      Nat Bool) clearRefilled (fun state => (∀ thread, state.producer thread = .idle) ∧
      state.chan.head + (taken state.consumer).length ≤ 1 ∧ 1 < state.sent.length ∧
      state.chan.committed (state.chan.slot 1) = false) (by
        cases created
        decide +kernel)
  refine ⟨chan, created, target, reachable_of_exec targetEq, idle, fun keeps => ?_⟩
  rcases keeps.retained 1 low high with ⟨thread, holds⟩ | ⟨flag, -⟩
  · rw [idle thread] at holds
    exact holds
  · rw [unset] at flag
    cases flag

end Runs

end QDaemon.Channel
