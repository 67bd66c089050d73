import QDaemon.Transition.Run
import QDaemon.Transition.Threads

/-!
# The reader/writer spinlock

`qd_rwspinlock_t` of `qd_atomic.h`.  A reader announces itself in the count and backs
off if it then sees the writer flag; a writer sets the flag and then waits until
nobody is announced.  The count is an `int`: it turns negative when `2 ^ 31` readers
are announced at once.
-/

namespace QDaemon.RwSpinlock

open Function Transition

/-- The sections of a thread and the atomic steps of its calls. -/
inductive Pc
  | outside
  | readWait
  | readAnnounce
  | readCheck
  | readBackOff
  | reading
  | writeAcquire
  | writeDrain
  | writing
  deriving DecidableEq

/-- The `int` that an atomic addition leaves. -/
abbrev wrap (value : Int) : Int := (value + 2 ^ 31) % 2 ^ 32 - 2 ^ 31

/-- The next step of a thread, which asks for the lock as a writer or as a reader; a load
or an exchange that fails is repeated. -/
def threadStep (readers : Int) (writer writes : Bool) : Pc → Int × Bool × Pc
  | .outside => (readers, writer, if writes then .writeAcquire else .readWait)
  | .readWait => (readers, writer, if writer then .readWait else .readAnnounce)
  | .readAnnounce => (wrap (readers + 1), writer, .readCheck)
  | .readCheck => (readers, writer, if writer then .readBackOff else .reading)
  | .readBackOff => (wrap (readers - 1), writer, .readWait)
  | .reading => (wrap (readers - 1), writer, .outside)
  | .writeAcquire => (readers, true, if writer then .writeAcquire else .writeDrain)
  | .writeDrain => (readers, writer, if 0 < readers then .writeDrain else .writing)
  | .writing => (readers, false, .outside)

/-- `qd_rwspinlock_t` and the threads that use it. -/
structure State (Tid : Type) where
  readers : Int
  writer : Bool
  pcs : Tid → Pc

variable {Tid : Type}

/-- The state after `qd_rwspinlock_init`. -/
def init : State Tid := ⟨0, false, fun _ => .outside⟩

def step [DecidableEq Tid] (state : State Tid) (label : Tid × Bool) : Option (State Tid) :=
  let next := threadStep state.readers state.writer label.2 (state.pcs label.1)
  some ⟨next.1, next.2.1, update state.pcs label.1 next.2.2⟩

/-- How often the thread is counted as a reader. -/
def Pc.announced : Pc → Nat
  | .readCheck | .readBackOff | .reading => 1
  | _ => 0

/-- Whether the thread has set the writer flag. -/
def Pc.owns : Pc → Nat
  | .writeDrain | .writing => 1
  | _ => 0

/-- What a step can do to the lock. -/
structure Allowed (readers : Int) (writer : Bool) (pc : Pc) (next : Int × Bool × Pc) : Prop where
  count : next.1 + pc.announced = readers + next.2.2.announced
  bound : next.1 < 2 ^ 31
  owner : next.2.1.toNat + pc.owns = writer.toNat + next.2.2.owns
  enters : next.2.2 = .writing → readers ≤ 0
  reads : next.2.2 = .reading → writer.toNat = 0

theorem threadStep_allowed {readers : Int} {writer : Bool} {pc : Pc} (writes : Bool)
    (counted : pc.announced ≤ readers) (bound : readers < 2 ^ 31) (flag : pc.owns ≤ writer.toNat)
    (room : pc = .readAnnounce → readers ≠ 2 ^ 31 - 1) :
    Allowed readers writer pc (threadStep readers writer writes pc) := by
  cases pc <;> cases writer <;> constructor <;> grind [threadStep, Pc.announced, Pc.owns]

section

variable [Fintype Tid] {state : State Tid}

/-- The count is the number of announced readers, the flag says whether it has its one
owner, and nobody reads while it writes. -/
structure Inv (state : State Tid) : Prop where
  count : state.readers = (∑ tid, (state.pcs tid).announced : Nat)
  bound : state.readers < 2 ^ 31
  owner : state.writer.toNat = ∑ tid, (state.pcs tid).owns
  drained : ∀ first second, state.pcs first = .writing → state.pcs second ≠ .reading

theorem weight_le (weight : Pc → Nat) (pcs : Tid → Pc) (tid : Tid) :
    weight (pcs tid) ≤ ∑ tid, weight (pcs tid) :=
  Finset.single_le_sum (f := fun tid => weight (pcs tid)) (by simp) (Finset.mem_univ tid)

variable [DecidableEq Tid]

/-- The announcement is made while the count has room. -/
abbrev HasRoom (state : State Tid) (label : Tid × Bool) : Prop :=
  state.pcs label.1 = .readAnnounce → state.readers ≠ 2 ^ 31 - 1

theorem Inv.kept {label : Tid × Bool} {next : State Tid} (inv : Inv state)
    (room : HasRoom state label) (stepEq : step state label = some next) : Inv next := by
  have count := inv.count
  have owner := inv.owner
  have counted := weight_le Pc.announced state.pcs label.1
  have flag := weight_le Pc.owns state.pcs label.1
  have allowed := threadStep_allowed label.2 (by omega) inv.bound (flag.trans_eq owner.symm) room
  rw [step] at stepEq
  generalize threadStep _ _ _ _ = result at allowed stepEq
  cases stepEq
  have announced := sum_update Pc.announced state.pcs label.1 result.2.2
  have owns := sum_update Pc.owns state.pcs label.1 result.2.2
  constructor
  · have := allowed.count
    simp only
    omega
  · exact allowed.bound
  · have := allowed.owner
    simp only
    omega
  · intro first second writes reads
    simp only [update_apply] at writes reads
    split at writes <;> split at reads
    · cases writes.symm.trans reads
    · have counted := weight_le Pc.announced state.pcs second
      have empty := allowed.enters writes
      rw [reads, Pc.announced] at counted
      omega
    · have flag := weight_le Pc.owns state.pcs first
      have free := allowed.reads reads
      rw [writes, Pc.owns] at flag
      omega
    · exact inv.drained first second writes reads

/-- At most one thread writes and then nobody reads; the count is not negative, and zero
when nobody reads or is about to. -/
structure Excludes (state : State Tid) : Prop where
  oneWriter : ∀ first second, state.pcs first = .writing → state.pcs second = .writing →
    first = second
  noReader : ∀ first second, state.pcs first = .writing → state.pcs second ≠ .reading
  nonneg : 0 ≤ state.readers
  zero : (∀ tid, state.pcs tid ∉ [.readWait, .readAnnounce, .readCheck, .readBackOff, .reading]) →
    state.readers = 0

theorem excludes_of_hasRoom (run : GuardedRun step HasRoom init state) : Excludes state := by
  have inv : Inv state := by
    refine run.invariant Inv ?_ fun _ _ _ => Inv.kept
    constructor <;> simp [init, Pc.announced, Pc.owns]
  constructor
  · intro first second mine others
    by_contra different
    have both := Finset.add_le_sum (f := fun tid => (state.pcs tid).owns)
      (fun _ _ => Nat.zero_le _) (Finset.mem_univ first) (Finset.mem_univ second) different
    rw [← inv.owner, mine, others] at both
    exact absurd (both.trans (Bool.toNat_le _)) (by decide)
  · exact inv.drained
  · exact inv.count ▸ Int.natCast_nonneg _
  · intro idle
    rw [inv.count, Finset.sum_eq_zero]
    · rfl
    · intro tid _
      have := idle tid
      cases here : state.pcs tid <;> simp_all [Pc.announced]

end

/-- A writer enters when the reader that it has found inside has left. -/
theorem excludes_of_hasRoom_handover : ∃ state : State Bool,
    GuardedRun step HasRoom init state ∧ state.pcs true = .writing ∧ Excludes state := by
  obtain ⟨state, executed, writes⟩ := exec_meets (guarded step HasRoom) init
    ([false, false, false, false, true, true, true, false, true].map fun tid => (tid, tid))
    (fun state => state.pcs true = .writing) (by decide)
  have run := guardedRun_of_exec executed
  exact ⟨state, run, writes, excludes_of_hasRoom run⟩

/-- Readers enter one after the other as long as there is no writer. -/
theorem reachable_readers {count : Nat} (k : Nat) (bound : k ≤ count) :
    ∃ pcs : Fin count → Pc, Reachable step init ⟨wrap k, false, pcs⟩ ∧
      ∀ tid, k ≤ tid.val → pcs tid = .outside := by
  induction k with
  | zero => exact ⟨fun _ => .outside, .refl, fun _ _ => rfl⟩
  | succ k ih =>
    obtain ⟨pcs, run, outside⟩ := ih (Nat.le_of_succ_le bound)
    -- The next thread takes the four steps of `qd_read_lock`.
    have locked : exec step ⟨wrap k, false, pcs⟩ (List.replicate 4 (⟨k, bound⟩, false)) =
        some ⟨wrap (k + 1 : Nat), false, update pcs ⟨k, bound⟩ .reading⟩ := by
      have added : wrap (k + 1 : Nat) = wrap (wrap k + 1) := by
        simp only [wrap]
        omega
      rw [added]
      simp [List.replicate, exec_cons, step, outside, threadStep]
    refine ⟨_, run.trans (reachable_of_exec locked), fun tid later => ?_⟩
    rw [update_of_ne (Fin.ne_of_gt later)]
    exact outside tid (Nat.le_of_succ_le later)

theorem not_excludes_overflow :
    ∃ state : State (Fin (2 ^ 31)), Reachable step init state ∧ ¬ Excludes state := by
  obtain ⟨pcs, run, -⟩ := reachable_readers (2 ^ 31) le_rfl
  exact ⟨_, run, fun excludes => absurd excludes.nonneg (by simp)⟩

end QDaemon.RwSpinlock
