import QDaemon.ThreadPool.MpmcRing.Core
import QDaemon.Transition.Threads

/-!
# Order preservation of the MPMC ring

The invariant splits the window of `capacity` positions from the head on.  A
position below the tail is stored or still being stored by one producer; a
position from the tail on is free or still being drained by one consumer of the
previous lap.  Sequence numbers only grow, so a compare-and-swap that succeeds
after an older read of the sequence claims a position whose cell still has the
state that was read.  The last step needs two cells: with one cell a stored
position looks free for the next lap.
-/

namespace QDaemon.ThreadPool.MpmcRing

open Option List Function Bits Common Transition

universe u v

variable {Task : Type u} {Tid : Type v}

/-- The position a thread inside `qd_mpmc_ring_push` has claimed. -/
def Pushing : Pc Task → Nat → Prop
  | .pushStore _ claimed, pos => claimed = pos
  | .pushPublish claimed, pos => claimed = pos
  | _, _ => False

/-- The position a thread inside `qd_mpmc_ring_pop` has claimed. -/
def Popping : Pc Task → Nat → Prop
  | .popRead claimed, pos => claimed = pos
  | .popPublish claimed _, pos => claimed = pos
  | _, _ => False

/-- What a thread may rely on between two of its steps. -/
def ThreadInv (state : State Task Tid) : Pc Task → Prop
  | .pushSeq _ pos => pos ≤ state.ring.tail
  | .pushCas _ pos => pos ≤ (state.ring.cell pos).seq
  | .pushStore task pos => state.ring.head ≤ pos ∧ pos < state.ring.tail ∧
      (state.ring.cell pos).seq = pos ∧ state.pushes[pos]? = some task
  | .pushPublish pos => state.ring.head ≤ pos ∧ pos < state.ring.tail ∧
      (state.ring.cell pos).seq = pos ∧ (state.ring.cell pos).task = state.pushes[pos]?
  | .popSeq pos => pos ≤ state.ring.head
  | .popCas pos => pos + 1 ≤ (state.ring.cell pos).seq
  | .popRead pos => pos < state.ring.head ∧ state.ring.tail ≤ pos + state.ring.capacity ∧
      (state.ring.cell pos).seq = pos + 1 ∧ (state.ring.cell pos).task = state.pushes[pos]?
  | .popPublish pos task => pos < state.ring.head ∧
      state.ring.tail ≤ pos + state.ring.capacity ∧
      (state.ring.cell pos).seq = pos + 1 ∧ task = state.pushes[pos]?
  | _ => True

/-- The ring invariant. -/
structure Inv (state : State Task Tid) : Prop where
  power : ∃ k, state.ring.capacity = 2 ^ k
  two : 2 ≤ state.ring.capacity
  maskEq : state.ring.mask = state.ring.capacity - 1
  tailEq : state.ring.tail = state.pushes.length
  claimsEq : state.claims = List.range state.ring.head
  headLe : state.ring.head ≤ state.ring.tail
  tailLe : state.ring.tail ≤ state.ring.head + state.ring.capacity
  stored : ∀ i, state.ring.head ≤ i → i < state.ring.tail →
    ((state.ring.cell i).seq = i ∧ ∃ thread, Pushing (state.pc thread) i) ∨
      ((state.ring.cell i).seq = i + 1 ∧ (state.ring.cell i).task = state.pushes[i]?)
  free : ∀ i, state.ring.tail ≤ i → i < state.ring.head + state.ring.capacity →
    (state.ring.cell i).seq = i ∨
      ∃ pos, i = pos + state.ring.capacity ∧ (state.ring.cell i).seq = pos + 1 ∧
        ∃ thread, Popping (state.pc thread) pos
  threads : ∀ thread, ThreadInv state (state.pc thread)
  pushUnique : ∀ first second i,
    Pushing (state.pc first) i → Pushing (state.pc second) i → first = second
  popUnique : ∀ first second i,
    Popping (state.pc first) i → Popping (state.pc second) i → first = second
  popsOk : ∀ entry ∈ state.pops, entry.1 < state.ring.head ∧
    entry.2 = state.pushes[entry.1]? ∧ ∀ thread, ¬ Popping (state.pc thread) entry.1
  popsNodup : (state.pops.map Prod.fst).Nodup

/-! ## Cells -/

variable {state : State Task Tid}

theorem cell_eq (inv : Inv state) (i : Nat) :
    state.ring.cell i = state.ring.cells (i % state.ring.capacity) := by
  rw [cell, inv.maskEq, land_pred_eq_mod inv.power]

/-- Positions of one lap share their cell with the next lap. -/
theorem cell_add_capacity (inv : Inv state) (i : Nat) :
    state.ring.cell (i + state.ring.capacity) = state.ring.cell i := by
  rw [cell_eq inv, cell_eq inv, Nat.add_mod_right]

theorem setCell_cell_same (ring : MpmcRing Task) (pos : Nat) (value : MpmcCell Task) :
    (ring.setCell pos value).cell pos = value := by
  simp [cell, setCell]

variable {pos i : Nat}

/-- Writing a cell leaves the other positions of the same window alone. -/
theorem setCell_cell_of_mod_ne (inv : Inv state) (value : MpmcCell Task)
    (different : i % state.ring.capacity ≠ pos % state.ring.capacity) :
    (state.ring.setCell pos value).cell i = state.ring.cell i := by
  have index : i &&& state.ring.mask ≠ pos &&& state.ring.mask := by
    rwa [inv.maskEq, land_pred_eq_mod inv.power, land_pred_eq_mod inv.power]
  simp [cell, setCell, update_of_ne index]

/-- A write that does not lower a cell's sequence lowers no sequence. -/
theorem seq_le_setCell (ring : MpmcRing Task) (pos : Nat) (value : MpmcCell Task)
    (grows : (ring.cell pos).seq ≤ value.seq) (i : Nat) :
    (ring.cell i).seq ≤ ((ring.setCell pos value).cell i).seq := by
  by_cases same : i &&& ring.mask = pos &&& ring.mask
  · have left : ring.cell i = ring.cell pos := by simp [cell, same]
    have right : (ring.setCell pos value).cell i = value := by simp [cell, setCell, same]
    rw [left, right]
    exact grows
  · simp [cell, setCell, update_of_ne same]

/-- Two positions of the window that share a cell are the same position. -/
theorem eq_of_mod_eq {j : Nat} (lowI : state.ring.head ≤ i)
    (highI : i < state.ring.head + state.ring.capacity) (lowJ : state.ring.head ≤ j)
    (highJ : j < state.ring.head + state.ring.capacity)
    (same : i % state.ring.capacity = j % state.ring.capacity) : i = j := by
  rcases Nat.lt_trichotomy i j with less | equal | greater
  · exact absurd same (mod_ne_of_lt less (by omega))
  · exact equal
  · exact absurd same.symm (mod_ne_of_lt greater (by omega))

/-! ## Transfer of the per-thread facts -/

variable {next : State Task Tid}

/-- What a thread relies on survives a step of another thread that moves the
counters forward, lowers no sequence, and leaves the cell this thread has
claimed alone. -/
theorem ThreadInv.transfer {pc : Pc Task} (old : ThreadInv state pc)
    (headTail : state.ring.head ≤ state.ring.tail) (headMono : state.ring.head ≤ next.ring.head)
    (tailMono : state.ring.tail ≤ next.ring.tail)
    (capacityEq : next.ring.capacity = state.ring.capacity)
    (seqMono : ∀ i, (state.ring.cell i).seq ≤ (next.ring.cell i).seq)
    (pushesEq : ∀ i, i < state.ring.tail → next.pushes[i]? = state.pushes[i]?)
    (pushing : ∀ i, Pushing pc i → next.ring.head ≤ i ∧ next.ring.cell i = state.ring.cell i)
    (popping : ∀ i, Popping pc i → next.ring.tail ≤ i + state.ring.capacity ∧
      next.ring.cell i = state.ring.cell i) : ThreadInv next pc := by
  cases pc with
  | idle | pushTail | popHead => trivial
  | pushSeq task pos => exact Nat.le_trans old tailMono
  | popSeq pos => exact Nat.le_trans old headMono
  | pushCas task pos | popCas pos => exact Nat.le_trans old (seqMono pos)
  | pushStore task pos =>
    obtain ⟨low, same⟩ := pushing pos rfl
    obtain ⟨-, high, seqEq, taskEq⟩ := old
    exact ⟨low, by omega, by rw [same]; exact seqEq, by rw [pushesEq pos high]; exact taskEq⟩
  | pushPublish pos =>
    obtain ⟨low, same⟩ := pushing pos rfl
    obtain ⟨-, high, seqEq, taskEq⟩ := old
    exact ⟨low, by omega, by rw [same]; exact seqEq, by rw [same, pushesEq pos high]; exact taskEq⟩
  | popRead pos =>
    obtain ⟨high, same⟩ := popping pos rfl
    obtain ⟨low, -, seqEq, taskEq⟩ := old
    exact ⟨by omega, by rw [capacityEq]; exact high, by rw [same]; exact seqEq,
      by rw [same, pushesEq pos (by omega)]; exact taskEq⟩
  | popPublish pos task =>
    obtain ⟨high, same⟩ := popping pos rfl
    obtain ⟨low, -, seqEq, taskEq⟩ := old
    exact ⟨by omega, by rw [capacityEq]; exact high, by rw [same]; exact seqEq,
      by rw [pushesEq pos (by omega)]; exact taskEq⟩

section Steps

variable [DecidableEq Tid] {state : State Task Tid} {thread : Tid}

section

omit [DecidableEq Tid]

/-- A position claimed by a producer is inside the stored part of the window
and its cell has not been published. -/
theorem Inv.pushing_facts (inv : Inv state) {other : Tid} (pushing : Pushing (state.pc other) i) :
    state.ring.head ≤ i ∧ i < state.ring.tail ∧ (state.ring.cell i).seq = i := by
  have facts := inv.threads other
  cases pcEq : state.pc other <;> simp_all [Pushing, ThreadInv]

/-- A position claimed by a consumer is below the head, less than a lap behind
the tail, and its cell has not been released. -/
theorem Inv.popping_facts (inv : Inv state) {other : Tid} (popping : Popping (state.pc other) i) :
    i < state.ring.head ∧ state.ring.tail ≤ i + state.ring.capacity ∧
      (state.ring.cell i).seq = i + 1 := by
  have facts := inv.threads other
  cases pcEq : state.pc other <;> simp_all [Popping, ThreadInv]

theorem threadInv_setPc (pcs : Tid → Pc Task) (pc : Pc Task) :
    ThreadInv { state with pc := pcs } pc ↔ ThreadInv state pc := by
  cases pc <;> rfl

end

section

variable (inv : Inv state)
include inv

/-- Moving a thread without touching the ring or its claims keeps the
invariant. -/
theorem Inv.setPc {old pc : Pc Task} (pcEq : state.pc thread = old) (allowed : ThreadInv state pc)
    (pushing : ∀ i, Pushing pc i ↔ Pushing old i) (popping : ∀ i, Popping pc i ↔ Popping old i) :
    Inv { state with pc := update state.pc thread pc } := by
  subst pcEq
  have pushIff := claim_update_iff pushing
  have popIff := claim_update_iff popping
  refine { inv with
    stored := ?_
    free := ?_
    threads := ?_
    pushUnique := ?_
    popUnique := ?_
    popsOk := ?_ }
  · simpa [pushIff] using inv.stored
  · simpa [popIff] using inv.free
  · simp only [threadInv_setPc]
    exact (forall_update_iff state.pc fun _ pc => ThreadInv state pc).mpr
      ⟨allowed, fun other _ => inv.threads other⟩
  · simpa [pushIff] using inv.pushUnique
  · simpa [popIff] using inv.popUnique
  · simpa [popIff] using inv.popsOk

/-! ## Claiming a position -/

/-- A thread without a claim moves the counters forward and claims the positions they pass. -/
theorem Inv.advance {head tail : Nat} {pushes : List Task} {pc : Pc Task}
    (noPush : ∀ i, ¬ Pushing (state.pc thread) i) (noPop : ∀ i, ¬ Popping (state.pc thread) i)
    (headGe : state.ring.head ≤ head) (tailGe : state.ring.tail ≤ tail) (headLe : head ≤ tail)
    (tailLe : tail ≤ head + state.ring.capacity) (tailEq : tail = pushes.length)
    (pushesEq : ∀ i, i < state.ring.tail → pushes[i]? = state.pushes[i]?)
    (reserved : ∀ i, state.ring.tail ≤ i → i < tail →
      (state.ring.cell i).seq = i ∧ Pushing pc i) (claimed : ∀ i, state.ring.head ≤ i → i < head →
      (state.ring.cell i).seq = i + 1 ∧ Popping pc i)
    (pushing : ∀ i, Pushing pc i → state.ring.tail ≤ i)
    (popping : ∀ i, Popping pc i → state.ring.head ≤ i)
    (own : ThreadInv { state with ring := { state.ring with head, tail }, pushes } pc) :
    Inv { state with
      ring := { state.ring with head, tail }
      pc := update state.pc thread pc
      pushes
      claims := range head } := by
  have two := inv.two
  refine { inv with
    tailEq := tailEq
    claimsEq := rfl
    headLe := headLe
    tailLe := tailLe
    stored := ?_
    free := ?_
    threads := (forall_update_iff state.pc fun _ pc => ThreadInv _ pc).mpr ⟨own, ?_⟩
    pushUnique := claim_unique_update inv.pushUnique ?_
    popUnique := claim_unique_update inv.popUnique ?_
    popsOk := ?_ }
  · intro i low high
    rcases Nat.lt_or_ge i state.ring.tail with old | new
    · rcases inv.stored i (headGe.trans low) old with ⟨same, others⟩ | ⟨same, taskEq⟩
      · exact .inl ⟨same, exists_claim_update others (noPush i)⟩
      · exact .inr ⟨same, taskEq.trans (pushesEq i old).symm⟩
    · obtain ⟨same, mine⟩ := reserved i new high
      exact .inl ⟨same, thread, by simpa using mine⟩
  · intro i low high
    rcases Nat.lt_or_ge i (state.ring.head + state.ring.capacity) with old | new
    · rcases inv.free i (tailGe.trans low) old with same | ⟨previous, iEq, same, others⟩
      · exact .inl same
      · exact .inr ⟨previous, iEq, same, exists_claim_update others (noPop previous)⟩
    · -- a position claimed on this lap has the cell of a position of the next one
      obtain ⟨previous, rfl⟩ := Nat.exists_eq_add_of_le' ((Nat.le_add_left _ _).trans new)
      obtain ⟨same, mine⟩ := claimed previous (Nat.le_of_add_le_add_right new)
        (Nat.lt_of_add_lt_add_right high)
      refine .inr ⟨previous, rfl, ?_, thread, by simpa using mine⟩
      exact (congrArg MpmcCell.seq (cell_add_capacity inv previous)).trans same
  · intro other _
    refine (inv.threads other).transfer inv.headLe headGe tailGe rfl (fun _ => le_rfl) pushesEq
      (fun i others => ⟨?_, rfl⟩) fun i others => ⟨?_, rfl⟩
    · -- a published position has no producer
      obtain ⟨low, -, held⟩ := inv.pushing_facts others
      by_contra early
      have := (claimed i low (Nat.lt_of_not_le early)).1
      omega
    · -- a consumer of the previous lap holds the sequence back
      obtain ⟨-, lap, held⟩ := inv.popping_facts others
      by_contra late
      have := (reserved _ lap (Nat.lt_of_not_le late)).1
      rw [cell_add_capacity inv] at this
      omega
  · intro other i mine others
    have := (inv.pushing_facts others).2.1
    exact absurd (pushing i mine) (Nat.not_le.mpr this)
  · intro other i mine others
    have := (inv.popping_facts others).1
    exact absurd (popping i mine) (Nat.not_le.mpr this)
  · intro entry mem
    obtain ⟨below, value, left⟩ := inv.popsOk entry mem
    refine ⟨below.trans_le headGe, value.trans (pushesEq entry.1 ?_).symm, ?_⟩
    · exact below.trans_le inv.headLe
    · intro other claims
      rcases claim_update claims with ⟨-, mine⟩ | ⟨-, others⟩
      · exact absurd (popping entry.1 mine) (Nat.not_le.mpr below)
      · exact left other others

omit [DecidableEq Tid] in
/-- A producer whose compare-and-swap is about to succeed finds a free cell:
the sequence it read has not been passed, so the ring is not full and the
consumer of the previous lap has left. -/
theorem Inv.pushCas_free {task : Task}
    (pcEq : state.pc thread = .pushCas task pos) (tailPos : state.ring.tail = pos) :
    pos < state.ring.head + state.ring.capacity ∧ (state.ring.cell pos).seq = pos := by
  have seqRead : pos ≤ (state.ring.cell pos).seq := by
    have := inv.threads thread
    rwa [pcEq] at this
  have two := inv.two
  have notFull : pos < state.ring.head + state.ring.capacity := by
    by_contra full
    have posEq : pos = state.ring.head + state.ring.capacity := by
      have := inv.tailLe
      omega
    rw [posEq, cell_add_capacity inv] at seqRead
    rcases inv.stored state.ring.head le_rfl (by omega) with ⟨seqEq, -⟩ | ⟨seqEq, -⟩ <;> omega
  refine ⟨notFull, ?_⟩
  rcases inv.free pos (by omega) notFull with seqEq | ⟨previous, posEq, seqEq, -⟩
  · exact seqEq
  · omega

/-- The compare-and-swap on the tail. -/
theorem Inv.reserve {task : Task} (pcEq : state.pc thread = .pushCas task pos)
    (tailPos : state.ring.tail = pos)
    (bound : state.pushes.length + 1 + state.ring.capacity ≤ 2 ^ 64) : Inv { state with
      ring := { state.ring with tail := (pos + 1) % 2 ^ 64 }
      pc := update state.pc thread (.pushStore task pos)
      pushes := state.pushes ++ [task] } := by
  obtain ⟨notFull, seqEq⟩ := inv.pushCas_free pcEq tailPos
  subst tailPos
  have tailEq := inv.tailEq
  have headLe := inv.headLe
  rw [Nat.mod_eq_of_lt (by omega), inv.claimsEq]
  refine inv.advance (by simp [pcEq, Pushing]) (by simp [pcEq, Popping]) le_rfl (Nat.le_succ _)
    (Nat.le_succ_of_le headLe) notFull (by simp [tailEq]) ?_ ?_ ?_ ?_ (fun _ mine => mine.elim) ?_
  · intro i below
    exact List.getElem?_append_left (tailEq ▸ below)
  · intro i low high
    obtain rfl := Nat.le_antisymm (Nat.le_of_lt_succ high) low
    exact ⟨seqEq, rfl⟩
  · intro i low high
    exact absurd low (Nat.not_le.mpr high)
  · rintro i rfl
    exact le_rfl
  · exact ⟨headLe, Nat.lt_succ_self _, seqEq, by simp [tailEq]⟩

variable (pcEq : state.pc thread = .popCas pos)
include pcEq

variable (headPos : state.ring.head = pos)
include headPos

omit [DecidableEq Tid] in
/-- A consumer whose compare-and-swap is about to succeed finds a published
cell. -/
theorem Inv.popCas_stored : pos < state.ring.tail ∧ (state.ring.cell pos).seq = pos + 1 ∧
      (state.ring.cell pos).task = state.pushes[pos]? := by
  have seqRead : pos + 1 ≤ (state.ring.cell pos).seq := by
    have := inv.threads thread
    rwa [pcEq] at this
  have two := inv.two
  have nonempty : pos < state.ring.tail := by
    by_contra empty
    rcases inv.free pos (by omega) (by omega) with seqEq | ⟨previous, posEq, seqEq, -⟩ <;> omega
  refine ⟨nonempty, ?_⟩
  rcases inv.stored pos (by omega) nonempty with ⟨seqEq, -⟩ | published
  · omega
  · exact published

/-- The compare-and-swap on the head. -/
theorem Inv.claim (bound : state.pushes.length + state.ring.capacity ≤ 2 ^ 64) : Inv { state with
      ring := { state.ring with head := (pos + 1) % 2 ^ 64 }
      pc := update state.pc thread (.popRead pos)
      claims := state.claims ++ [pos] } := by
  obtain ⟨nonempty, seqEq, taskEq⟩ := inv.popCas_stored pcEq headPos
  subst headPos
  have tailEq := inv.tailEq
  have lap : state.ring.tail ≤ state.ring.head + state.ring.capacity := inv.tailLe
  rw [Nat.mod_eq_of_lt (by omega), inv.claimsEq, ← range_succ]
  refine inv.advance (by simp [pcEq, Pushing]) (by simp [pcEq, Popping]) (Nat.le_succ _) le_rfl
    nonempty (by omega) tailEq (fun _ _ => rfl) ?_ ?_ (fun _ mine => mine.elim) ?_ ?_
  · intro i low high
    exact absurd low (Nat.not_le.mpr high)
  · intro i low high
    obtain rfl := Nat.le_antisymm (Nat.le_of_lt_succ high) low
    exact ⟨seqEq, rfl⟩
  · rintro i rfl
    exact le_rfl
  · exact ⟨Nat.lt_succ_self _, lap, seqEq, taskEq⟩

end

/-! ## Writing a claimed cell -/

section Write

variable (inv : Inv state) {target : Nat} {value : MpmcCell Task} {pc : Pc Task}
  (low : state.ring.head ≤ target) (high : target < state.ring.head + state.ring.capacity)
  (same : target % state.ring.capacity = pos % state.ring.capacity)
include inv low high same

omit [DecidableEq Tid] in
/-- Writing the cell of one position of the window leaves every other position
of the window alone. -/
theorem Inv.cell_setCell (value : MpmcCell Task) (lowI : state.ring.head ≤ i)
    (highI : i < state.ring.head + state.ring.capacity) (different : i ≠ target) :
    (state.ring.setCell pos value).cell i = state.ring.cell i := by
  apply setCell_cell_of_mod_ne inv
  intro equal
  exact different (eq_of_mod_eq lowI highI low high (equal.trans same.symm))

-- a producer's claim is the window position itself, a consumer's claim is the window
-- position one lap later
variable (grows : (state.ring.cell pos).seq ≤ value.seq)
  (pushApart : ∀ other i, other ≠ thread → Pushing (state.pc other) i → i ≠ target)
  (popApart : ∀ other i, other ≠ thread → Popping (state.pc other) i →
    i + state.ring.capacity ≠ target)
include grows pushApart popApart

omit [DecidableEq Tid] in
/-- The other threads do not notice a write to a cell this thread alone has
claimed. -/
theorem Inv.others_setCell (ringEq : next.ring = state.ring.setCell pos value)
    (pushesEq : next.pushes = state.pushes) (other : Tid) (different : other ≠ thread) :
    ThreadInv next (state.pc other) := by
  have headLe := inv.headLe
  have tailLe := inv.tailLe
  refine (inv.threads other).transfer headLe ?_ ?_ ?_ ?_ ?_ ?_ ?_
  · rw [ringEq]
    exact le_rfl
  · rw [ringEq]
    exact le_rfl
  · rw [ringEq]
    rfl
  · rw [ringEq]
    exact seq_le_setCell state.ring pos value grows
  · intro i _
    rw [pushesEq]
  · intro i pushing
    obtain ⟨lowI, highI, -⟩ := inv.pushing_facts pushing
    rw [ringEq]
    exact ⟨lowI, inv.cell_setCell low high same value lowI (by omega)
      (pushApart other i different pushing)⟩
  · intro i popping
    obtain ⟨below, lap, -⟩ := inv.popping_facts popping
    rw [ringEq]
    refine ⟨lap, ?_⟩
    have apart := inv.cell_setCell low high same value (by omega) (by omega)
      (popApart other i different popping)
    have index : (i + state.ring.capacity) &&& state.ring.mask = i &&& state.ring.mask := by
      rw [inv.maskEq, land_pred_eq_mod inv.power, land_pred_eq_mod inv.power, Nat.add_mod_right]
    simpa [cell, setCell, index] using apart

/-- A thread writes a cell that it alone has claimed. -/
theorem Inv.write (pushing : ∀ i, i ≠ target → (Pushing pc i ↔ Pushing (state.pc thread) i))
    (popping : ∀ i, Popping pc i ↔ Popping (state.pc thread) i ∧ i + state.ring.capacity ≠ target)
    (claimed : target < state.ring.tail → (value.seq = target ∧ Pushing pc target) ∨
      (value.seq = target + 1 ∧ value.task = state.pushes[target]?))
    (released : state.ring.tail ≤ target → value.seq = target)
    (own : ThreadInv { state with ring := state.ring.setCell pos value } pc) :
    Inv { state with
      ring := state.ring.setCell pos value
      pc := update state.pc thread pc } := by
  have headLe := inv.headLe
  have tailLe := inv.tailLe
  have written : (state.ring.setCell pos value).cell target = value := by
    have index : target &&& state.ring.mask = pos &&& state.ring.mask := by
      rwa [inv.maskEq, land_pred_eq_mod inv.power, land_pred_eq_mod inv.power]
    simp [cell, setCell, index]
  refine { inv with
    stored := ?_
    free := ?_
    threads := ?_
    pushUnique := ?_
    popUnique := ?_
    popsOk := ?_ }
  · intro i lowI highI
    change i < state.ring.tail at highI
    by_cases here : i = target
    · subst here
      simp only [written]
      exact (claimed highI).imp_left fun ⟨seqEq, mine⟩ => ⟨seqEq, thread, by simpa using mine⟩
    · simp only [inv.cell_setCell low high same value lowI (by omega) here]
      exact (inv.stored i lowI highI).imp_left fun ⟨seqEq, others⟩ =>
        ⟨seqEq, exists_claim_kept others (pushing i here).mpr⟩
  · intro i lowI highI
    change state.ring.tail ≤ i at lowI
    by_cases here : i = target
    · subst here
      simp only [written]
      exact .inl (released lowI)
    · simp only [inv.cell_setCell low high same value (by omega) highI here]
      rcases inv.free i lowI highI with seqEq | ⟨previous, rfl, seqEq, others⟩
      · exact .inl seqEq
      · exact .inr ⟨previous, rfl, seqEq,
          exists_claim_kept others fun mine => (popping previous).mpr ⟨mine, here⟩⟩
  · exact (forall_update_iff state.pc fun _ pc => ThreadInv _ pc).mpr
      ⟨own, inv.others_setCell low high same grows pushApart popApart rfl rfl⟩
  · refine claim_unique_update inv.pushUnique fun other i mine others => ?_
    by_contra different
    have apart := pushApart other i different others
    exact different (inv.pushUnique other thread i others ((pushing i apart).mp mine))
  · refine claim_unique_update inv.popUnique fun other i mine others => ?_
    exact inv.popUnique other thread i others ((popping i).mp mine).1
  · intro entry mem
    obtain ⟨below, value, left⟩ := inv.popsOk entry mem
    refine ⟨below, value, fun other claims => ?_⟩
    rcases claim_update claims with ⟨-, mine⟩ | ⟨-, others⟩
    · exact left thread ((popping entry.1).mp mine).1
    · exact left other others

end Write

section Claimed

variable (inv : Inv state)
include inv

omit [DecidableEq Tid] in
/-- A cell that a producer has claimed is not claimed by another thread. -/
theorem Inv.pushing_apart (mine : Pushing (state.pc thread) pos) :
    (∀ other i, other ≠ thread → Pushing (state.pc other) i → i ≠ pos) ∧
      ∀ other i, other ≠ thread → Popping (state.pc other) i → i + state.ring.capacity ≠ pos := by
  constructor
  · rintro other i different pushing rfl
    exact different (inv.pushUnique other thread i pushing mine)
  · intro other i _ popping
    have := (inv.popping_facts popping).2.1
    have := (inv.pushing_facts mine).2.1
    omega

/-- The producer's store of the task. -/
theorem Inv.store {task : Task} (pcEq : state.pc thread = .pushStore task pos) : Inv { state with
      ring := state.ring.setCell pos ⟨(state.ring.cell pos).seq, some task⟩
      pc := update state.pc thread (.pushPublish pos) } := by
  have mine : Pushing (state.pc thread) pos := by simp [pcEq, Pushing]
  have facts := inv.threads thread
  rw [pcEq] at facts
  obtain ⟨low, high, seqEq, taskEq⟩ := facts
  have tailLe := inv.tailLe
  obtain ⟨pushApart, popApart⟩ := inv.pushing_apart mine
  have written := setCell_cell_same state.ring pos ⟨(state.ring.cell pos).seq, some task⟩
  exact inv.write low (by omega) rfl le_rfl pushApart popApart (by simp [pcEq, Pushing])
    (by simp [pcEq, Popping]) (fun _ => .inl ⟨seqEq, rfl⟩)
    (fun full => absurd high (Nat.not_lt.mpr full))
    ⟨low, high, (congrArg MpmcCell.seq written).trans seqEq,
      (congrArg MpmcCell.task written).trans taskEq.symm⟩

/-- The producer's release of the cell: the stored task becomes visible. -/
theorem Inv.publish (pcEq : state.pc thread = .pushPublish pos)
    (bound : state.pushes.length + state.ring.capacity ≤ 2 ^ 64) : Inv { state with
      ring := state.ring.setCell pos ⟨(pos + 1) % 2 ^ 64, (state.ring.cell pos).task⟩
      pc := update state.pc thread .idle } := by
  have mine : Pushing (state.pc thread) pos := by simp [pcEq, Pushing]
  have facts := inv.threads thread
  rw [pcEq] at facts
  obtain ⟨low, high, seqEq, taskEq⟩ := facts
  have tailLe := inv.tailLe
  have tailEq := inv.tailEq
  rw [Nat.mod_eq_of_lt (by omega)]
  obtain ⟨pushApart, popApart⟩ := inv.pushing_apart mine
  refine inv.write low (by omega) rfl (by rw [seqEq]; exact Nat.le_succ pos) pushApart popApart
    (fun i other => ?_) (by simp [pcEq, Popping]) (fun _ => .inr ⟨rfl, taskEq⟩)
    (fun full => absurd high (Nat.not_lt.mpr full)) trivial
  simpa [pcEq, Pushing] using other.symm

omit [DecidableEq Tid] in
/-- A consumer that has left its position has returned its task. -/
theorem Inv.returned {task : Option Task} (below : pos < state.ring.head)
    (taskEq : task = state.pushes[pos]?) (left : ∀ thread, ¬ Popping (state.pc thread) pos)
    (new : pos ∉ state.pops.map Prod.fst) :
    Inv { state with pops := state.pops ++ [(pos, task)] } := by
  refine { inv with threads := inv.threads, popsOk := ?_, popsNodup := ?_ }
  · exact forall_mem_append.mpr
      ⟨inv.popsOk, forall_mem_singleton.mpr ⟨below, taskEq, left⟩⟩
  · rw [map_append]
    exact nodup_append_comm.mp (nodup_cons.mpr ⟨new, inv.popsNodup⟩)

/-- The consumer's release of the cell for the next lap, which returns the task
it read. -/
theorem Inv.release {task : Option Task} (pcEq : state.pc thread = .popPublish pos task)
    (bound : state.pushes.length + state.ring.capacity ≤ 2 ^ 64) : Inv { state with
      ring := state.ring.setCell pos
        ⟨(pos + state.ring.capacity) % 2 ^ 64, (state.ring.cell pos).task⟩
      pc := update state.pc thread .idle
      pops := state.pops ++ [(pos, task)] } := by
  have mine : Popping (state.pc thread) pos := by simp [pcEq, Popping]
  have facts := inv.threads thread
  rw [pcEq] at facts
  obtain ⟨below, lap, seqEq, taskEq⟩ := facts
  have headLe := inv.headLe
  have tailEq := inv.tailEq
  rw [Nat.mod_eq_of_lt (by omega)]
  have written : Inv { state with
      ring := state.ring.setCell pos ⟨pos + state.ring.capacity, (state.ring.cell pos).task⟩
      pc := update state.pc thread .idle } := by
    refine inv.write (show state.ring.head ≤ pos + state.ring.capacity by omega) (by omega)
      (Nat.add_mod_right pos _) (by rw [seqEq]; simp only; omega) ?_ ?_ ?_ ?_
      (fun full => absurd lap (Nat.not_le.mpr full)) (fun _ => rfl) trivial
    · intro other i _ pushing
      have := (inv.pushing_facts pushing).2.1
      omega
    · intro other i different popping equal
      obtain rfl : i = pos := Nat.add_right_cancel equal
      exact different (inv.popUnique other thread i popping mine)
    · simp [pcEq, Pushing]
    · simp [pcEq, Popping]
  refine written.returned below taskEq ?_ ?_
  · intro other popping
    rcases claim_update popping with ⟨-, none⟩ | ⟨different, others⟩
    · exact none
    · exact different (inv.popUnique other thread pos others mine)
  · intro mem
    obtain ⟨entry, entryMem, rfl⟩ := mem_map.mp mem
    exact (inv.popsOk entry entryMem).2.2 thread mine

end Claimed

/-! ## Runs -/

omit [DecidableEq Tid] in
/-- Every sequence number is a 64-bit value while the counters are. -/
theorem Inv.seq_lt (inv : Inv state)
    (bound : state.pushes.length + state.ring.capacity ≤ 2 ^ 64) (pos : Nat) :
    (state.ring.cell pos).seq < 2 ^ 64 := by
  have tailEq := inv.tailEq
  have headLe := inv.headLe
  have two := inv.two
  -- the window contains one position for every cell
  obtain ⟨i, low, high, same⟩ :=
    exists_mod_eq_of_window state.ring.head pos (show 0 < state.ring.capacity by omega)
  have cellEq : state.ring.cell pos = state.ring.cell i := by
    rw [cell_eq inv, cell_eq inv, same]
  rw [cellEq]
  by_cases below : i < state.ring.tail
  · rcases inv.stored i low below with ⟨seqEq, -⟩ | ⟨seqEq, -⟩ <;> omega
  · rcases inv.free i (by omega) high with seqEq | ⟨previous, iEq, seqEq, -⟩ <;> omega

/-- Every atomic step of every thread keeps the invariant. -/
theorem Inv.run (inv : Inv state) {spurious : Bool}
    (bound : next.pushes.length + state.ring.capacity ≤ 2 ^ 64)
    (stepEq : step state (.run thread spurious) = some next) : Inv next := by
  have facts := inv.threads thread
  have tailEq := inv.tailEq
  have headLe := inv.headLe
  have two := inv.two
  cases pcEq : state.pc thread <;> simp only [step, pcEq, threadStep] at stepEq facts
  case idle | pushTail | popHead =>
    cases stepEq
    exact inv.setPc pcEq (by simp [ThreadInv]) (fun _ => .rfl) fun _ => .rfl
  case pushSeq task pos =>
    split at stepEq
    next zero =>
      cases stepEq
      change pos ≤ state.ring.tail at facts
      change state.pushes.length + state.ring.capacity ≤ 2 ^ 64 at bound
      have seqEq := (signedDiff_eq_zero_iff (inv.seq_lt bound pos) (by omega)).mp zero
      exact inv.setPc pcEq seqEq.ge (fun _ => .rfl) fun _ => .rfl
    · split at stepEq <;> cases stepEq <;>
        exact inv.setPc pcEq trivial (fun _ => .rfl) fun _ => .rfl
  case pushCas task pos =>
    split at stepEq <;> cases stepEq
    next success => exact inv.reserve pcEq success.1 (by simpa [State.record] using bound)
    · exact inv.setPc pcEq (le_refl _) (fun _ => .rfl) fun _ => .rfl
  case pushStore task pos =>
    cases stepEq
    exact inv.store pcEq
  case pushPublish pos =>
    cases stepEq
    exact inv.publish pcEq bound
  case popSeq pos =>
    split at stepEq
    next zero =>
      cases stepEq
      change pos ≤ state.ring.head at facts
      change state.pushes.length + state.ring.capacity ≤ 2 ^ 64 at bound
      rw [Nat.mod_eq_of_lt (by omega)] at zero
      have seqEq := (signedDiff_eq_zero_iff (inv.seq_lt bound pos) (by omega)).mp zero
      exact inv.setPc pcEq seqEq.ge (fun _ => .rfl) fun _ => .rfl
    · split at stepEq <;> cases stepEq <;>
        exact inv.setPc pcEq trivial (fun _ => .rfl) fun _ => .rfl
  case popCas pos =>
    split at stepEq <;> cases stepEq
    next success => exact inv.claim pcEq success.1 bound
    · exact inv.setPc pcEq (le_refl _) (fun _ => .rfl) fun _ => .rfl
  case popRead pos =>
    cases stepEq
    exact inv.setPc pcEq facts (fun _ => .rfl) fun _ => .rfl
  case popPublish pos task =>
    cases stepEq
    exact inv.release pcEq bound

/-- Every step keeps the invariant while the counters do not wrap. -/
theorem Inv.step (inv : Inv state) {label : Label Task Tid}
    (bound : next.pushes.length + state.ring.capacity ≤ 2 ^ 64)
    (stepEq : step state label = some next) : Inv next := by
  cases label with
  | push thread task | pop thread =>
    cases pcEq : state.pc thread <;> simp only [MpmcRing.step, pcEq, reduceCtorEq,
      some.injEq] at stepEq
    subst stepEq
    exact inv.setPc pcEq (by simp [ThreadInv]) (fun _ => .rfl) fun _ => .rfl
  | run thread spurious => exact inv.run bound stepEq

/-- Steps neither shrink the push history nor change the capacity. -/
theorem step_pushes_capacity {label : Label Task Tid} (stepEq : step state label = some next) :
    state.pushes.length ≤ next.pushes.length ∧ next.ring.capacity = state.ring.capacity := by
  cases label with
  | push thread task | pop thread =>
    cases pcEq : state.pc thread <;> simp [step, pcEq] at stepEq
    subst stepEq
    simp
  | run thread spurious =>
    simp only [step, some.injEq] at stepEq
    subst stepEq
    cases pcEq : state.pc thread <;> simp only [threadStep] <;> (repeat' split) <;>
      simp [State.record]

omit [DecidableEq Tid] in
theorem initial_inv {capacity : Nat} (power : ∃ k, capacity = 2 ^ k) (two : 2 ≤ capacity) :
    Inv (State.initial capacity : State Task Tid) := by
  have index : ∀ i, i < capacity → i &&& (capacity - 1) = i := by
    intro i below
    rw [land_pred_eq_mod power, Nat.mod_eq_of_lt below]
  constructor
  case power => exact power
  case two => exact two
  case free =>
    intro i _ high
    change i < 0 + capacity at high
    refine .inl ?_
    exact index i (by omega)
  all_goals simp [State.initial, fresh, ThreadInv, Pushing, Popping]

/-- The invariant holds in every reachable state whose counters have not
wrapped.  The largest word ever stored is a sequence number one lap ahead of
the last push. -/
theorem reachable_inv {capacity : Nat} (power : ∃ k, capacity = 2 ^ k) (two : 2 ≤ capacity)
    {target : State Task Tid} (reachable : Reachable step (State.initial capacity) target)
    (bound : target.pushes.length + capacity ≤ 2 ^ 64) :
    Inv target ∧ target.ring.capacity = capacity := by
  refine GuardedRun.invariant_of_lt reachable
    (fun state => Inv state ∧ state.ring.capacity = capacity)
    (fun state => state.pushes.length + capacity) (2 ^ 64 + 1) (Nat.lt_succ_of_le bound) ?_ ?_ ?_
  · intro state label next stepEq
    exact Nat.add_le_add_right (step_pushes_capacity stepEq).1 capacity
  · exact ⟨initial_inv power two, rfl⟩
  · intro state label next ⟨inv, capacityEq⟩ below _ stepEq
    exact ⟨inv.step (by omega) stepEq, (step_pushes_capacity stepEq).2.trans capacityEq⟩

/-- In every interleaving the `i`-th successful pop claims position `i` and
returns the task of the `i`-th successful push, no position is returned twice,
every pushed and unclaimed task is still being stored by its producer or is in
its cell, a claimed cell keeps its task until the consumer has read it, and at
most `capacity` pushed tasks are unclaimed. -/
theorem pop_returns_push_in_order {capacity : Nat} (power : ∃ k, capacity = 2 ^ k)
    (two : 2 ≤ capacity) {target : State Task Tid}
    (reachable : Reachable step (State.initial capacity) target)
    (notWrapped : target.pushes.length + capacity ≤ 2 ^ 64) :
    target.claims = List.range target.claims.length ∧
    (∀ i task, (i, task) ∈ target.pops → i < target.claims.length ∧
      ∃ pushed, target.pushes[i]? = some pushed ∧ task = some pushed) ∧
    (target.pops.map Prod.fst).Nodup ∧ (∀ i, target.claims.length ≤ i → i < target.pushes.length →
      (∃ thread, Pushing (target.pc thread) i) ∨
        ((target.ring.cell i).seq = i + 1 ∧ (target.ring.cell i).task = target.pushes[i]?)) ∧
    (∀ thread i, target.pc thread = .popRead i → (target.ring.cell i).task = target.pushes[i]?) ∧
    target.claims.length ≤ target.pushes.length ∧
    target.pushes.length ≤ target.claims.length + capacity := by
  obtain ⟨inv, capacityEq⟩ := reachable_inv power two reachable notWrapped
  have tailEq := inv.tailEq
  have headLe := inv.headLe
  have tailLe := inv.tailLe
  have claimed : target.claims.length = target.ring.head := by
    rw [inv.claimsEq, length_range]
  rw [claimed]
  refine ⟨inv.claimsEq, ?_, inv.popsNodup, ?_, ?_, by omega, by omega⟩
  · intro i task mem
    obtain ⟨below, value, -⟩ := inv.popsOk (i, task) mem
    have inside : i < target.pushes.length := by
      omega
    exact ⟨below, target.pushes[i], List.getElem?_eq_getElem inside,
      value.trans (List.getElem?_eq_getElem inside)⟩
  · intro i low high
    rcases inv.stored i low (by omega) with ⟨-, pushing⟩ | published
    · exact .inl pushing
    · exact .inr published
  · intro thread i pcEq
    have facts := inv.threads thread
    rw [pcEq] at facts
    exact facts.2.2.2

/-- One producer and one consumer on a ring of two cells. -/
def handOver : List (Label Nat Bool) :=
  [.push true 7, .run true false, .run true false, .pop false, .run false false,
    .run true false, .run true false, .run true false, .run false false,
    .run false false, .run false false, .run false false]

theorem pop_returns_push_in_order_handOver :
    ∃ target, exec step (State.initial 2) handOver = some target ∧
      target.pops = [(0, some 7)] ∧ target.pushes[0]? = some 7 := by
  refine exists_exec (fun state => state.pops = [(0, some 7)] ∧ state.pushes = [7]) (by decide) ?_
  rintro target targetEq ⟨popsEq, pushesEq⟩
  have ordered := pop_returns_push_in_order ⟨1, rfl⟩ le_rfl (reachable_of_exec targetEq)
    (by rw [pushesEq]; decide)
  obtain ⟨-, pushed, pushedEq, taskEq⟩ := ordered.2.1 0 (some 7) (by rw [popsEq]; simp)
  refine ⟨popsEq, ?_⟩
  rw [pushedEq, taskEq]

end Steps

end QDaemon.ThreadPool.MpmcRing
