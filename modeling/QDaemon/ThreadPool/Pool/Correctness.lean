import QDaemon.ThreadPool.Pool.Core
import QDaemon.Transition.Threads

/-!
# Accepted tasks run exactly once

Between two calls the queues hold a multiset of tasks.  A submission adds its
task to it, a worker's pass takes at most one task out, and the passes of all
workers together empty it.  This rests on every ring operation behaving as a
bounded queue, which a push to a ring of a single occupied cell does not.
-/

namespace QDaemon.ThreadPool.Pool

open Option Multiset Function Transition Common

universe u v

/-! ## Rings -/

section Rings

variable {T : Type u} {ring : MpmcRing T} {items : List T}

/-- A push to this ring cannot overwrite a task. -/
def RingSafe (ring : MpmcRing T) : Prop :=
  2 ≤ ring.capacity ∨ ring.head = ring.tail

instance (ring : MpmcRing T) : Decidable (RingSafe ring) :=
  inferInstanceAs (Decidable (_ ∨ _))

/-- Every cell of the ring is in use. -/
def RingFull (ring : MpmcRing T) : Prop :=
  (ring.tail + 2 ^ 64 - ring.head) % 2 ^ 64 = ring.capacity

instance (ring : MpmcRing T) : Decidable (RingFull ring) :=
  inferInstanceAs (Decidable (_ = _))

variable (holds : ring.Holds items)
include holds

/-- A safe push appends, or is refused by a full ring. -/
theorem push_spec (safe : RingSafe ring) (task : T) :
    (∃ next, ring.mpmcRingPush task = some (next, true) ∧ next.Holds (items ++ [task])) ∨
      (ring.mpmcRingPush task = some (ring, false) ∧ RingFull ring) := by
  obtain ⟨head, from_⟩ := holds
  by_cases room : items.length < ring.capacity
  · obtain ⟨next, pushEq, -, nextHolds⟩ := from_.push_ok task room
    exact .inl ⟨next, pushEq, head, nextHolds⟩
  · have lengthLe := from_.lengthLe
    have positive := from_.capacity_pos
    have small := from_.capacity_le
    have full : items.length = ring.capacity := by omega
    have two : 2 ≤ ring.capacity := by
      rcases safe with two | empty
      · exact two
      · have nil := from_.head_eq_tail_iff.mp empty
        rw [nil, List.length_nil] at full
        omega
    refine .inr ⟨from_.push_full task full two, ?_⟩
    rw [RingFull, from_.tailEq, from_.headEq]
    omega

/-- A pop takes the oldest task, or finds the ring empty and leaves it. -/
theorem pop_spec :
    (∃ next task rest, ring.mpmcRingPop = some (next, some task) ∧ items = task :: rest ∧
      next.Holds rest) ∨ (ring.mpmcRingPop = some (ring, none) ∧ items = []) := by
  obtain ⟨head, from_⟩ := holds
  cases items with
  | nil => exact .inr ⟨from_.pop_nil, rfl⟩
  | cons task rest =>
    obtain ⟨next, popEq, -, nextHolds⟩ := from_.pop_cons
    exact .inl ⟨next, task, rest, popEq, rfl, head + 1, nextHolds⟩

theorem head_eq_tail_iff_of_holds : ring.head = ring.tail ↔ items = [] := by
  obtain ⟨head, from_⟩ := holds
  exact from_.head_eq_tail_iff

end Rings

/-! ## Locked queues -/

section Queues

variable {T : Type u} (queue : WorkQueue T)

/-- The tasks in the priority lists. -/
def listed : Multiset T :=
  ∑ priority, (queue.priorityQueues priority : Multiset T)

/-- A local queue that no worker has pushed to. -/
def Untouched : Prop :=
  queue.deque.top = 0 ∧ queue.deque.bottom = 0 ∧ ∀ priority, queue.priorityQueues priority = []

theorem listed_update (priority : Priority) (tasks : List T) : listed { queue with
      priorityQueues := update queue.priorityQueues priority tasks } +
        (queue.priorityQueues priority : Multiset T) = listed queue + (tasks : Multiset T) :=
  sum_update (fun tasks : List T => (tasks : Multiset T)) queue.priorityQueues priority tasks

/-- Searching the lists takes one task, or finds them empty and changes
nothing. -/
theorem popFrom_spec (order : List Priority) :
    (∃ next task, popFrom queue order = (next, some task) ∧ listed queue = task ::ₘ listed next) ∨
    (popFrom queue order = (queue, none) ∧
      ∀ priority ∈ order, queue.priorityQueues priority = []) := by
  induction order with
  | nil => exact .inr ⟨rfl, by simp⟩
  | cons priority rest ih =>
    rw [popFrom]
    split
    next empty =>
      rcases ih with found | ⟨none, others⟩
      · exact .inl found
      · exact .inr ⟨none, by simpa using ⟨empty, others⟩⟩
    next task others headEq =>
      refine .inl ⟨_, task, rfl, ?_⟩
      have sums := listed_update queue priority others
      rw [headEq, ← cons_coe, add_cons, ← cons_add] at sums
      exact (add_right_cancel sums).symm

theorem popPriority_spec : (∃ next task, workQueuePopPriority queue = (next, some task) ∧
      listed queue = task ::ₘ listed next) ∨ (workQueuePopPriority queue = (queue, none) ∧
      ∀ priority, queue.priorityQueues priority = []) := by
  rcases popFrom_spec queue [.urgent, .high, .normal, .low] with found | ⟨none, empty⟩
  · exact .inl found
  · exact .inr ⟨none, fun priority => empty priority (by cases priority <;> simp)⟩

theorem workQueuePop_untouched {queue : WorkQueue T} (untouched : Untouched queue) :
    workQueuePop queue = (queue, none) := by
  obtain ⟨-, bottom, empty⟩ := untouched
  rcases popPriority_spec queue with ⟨next, task, -, sums⟩ | ⟨none, -⟩
  · have nothing : listed queue = 0 := by simp [listed, empty]
    rw [nothing] at sums
    exact absurd sums (zero_ne_cons)
  · simp [workQueuePop, none, WsDeque.wsdequePop, bottom]

theorem workQueueSteal_untouched {queue : WorkQueue T} (untouched : Untouched queue) :
    workQueueSteal queue = (queue, none) := by
  obtain ⟨top, bottom, -⟩ := untouched
  simp [workQueueSteal, WsDeque.wsdequeSteal, bottom]

theorem listed_eq_zero_iff : listed queue = 0 ↔ ∀ priority, queue.priorityQueues priority = [] := by
  simp [listed]

end Queues

/-! ## What the pool holds -/

section Contents

variable {n : Nat} {T : Type u}

/-- The queues hold exactly these tasks: the rings work as bounded queues, and
the local queues have not been used. -/
structure Contents (pool : Threadpool n T) (inGlobal : List T) (inExt : Fin n → List T) : Prop where
  globalRing : pool.globalRing.Holds inGlobal
  extRings : ∀ id, (pool.extRings id).Holds (inExt id)
  queues : ∀ id, Untouched (pool.queues id)

/-- The tasks in the rings and in the global queue. -/
def total (pool : Threadpool n T) (inGlobal : List T) (inExt : Fin n → List T) : Multiset T :=
  inGlobal + (∑ id, (inExt id : Multiset T)) + listed pool.globalQueue

/-- The queues hold this multiset of tasks. -/
def Holds (pool : Threadpool n T) (tasks : Multiset T) : Prop :=
  ∃ inGlobal inExt, Contents pool inGlobal inExt ∧ tasks = total pool inGlobal inExt

/-- The queues are all empty exactly when they hold nothing. -/
theorem drained_iff {Fn : Type u} {Arg : Type v} {pool : Threadpool n (Task Fn Arg)}
    {tasks : Multiset (Task Fn Arg)} (holds : Holds pool tasks) : Drained pool ↔ tasks = 0 := by
  obtain ⟨inGlobal, inExt, contents, rfl⟩ := holds
  have zero : total pool inGlobal inExt = 0 ↔ inGlobal = [] ∧ (∀ id, inExt id = []) ∧
      ∀ priority, pool.globalQueue.priorityQueues priority = [] := by
    rw [total, add_eq_zero, add_eq_zero, listed_eq_zero_iff, and_assoc]
    simp
  rw [zero, Drained, head_eq_tail_iff_of_holds contents.globalRing]
  have rings : (∀ id, (pool.extRings id).head = (pool.extRings id).tail) ↔ ∀ id, inExt id = [] :=
    forall_congr' fun id => head_eq_tail_iff_of_holds (contents.extRings id)
  have locals : ∀ id, (pool.queues id).deque.top = (pool.queues id).deque.bottom ∧
      ∀ priority, (pool.queues id).priorityQueues priority = [] := by
    intro id
    obtain ⟨top, bottom, empty⟩ := contents.queues id
    exact ⟨top.trans bottom.symm, empty⟩
  rw [rings]
  exact ⟨fun ⟨first, second, third, _⟩ => ⟨first, second, third⟩,
    fun ⟨first, second, third⟩ => ⟨first, second, third, locals⟩⟩

/-- The per-worker lists after one of them changed. -/
theorem total_updateExt (pool : Threadpool n T) (inGlobal : List T) (inExt : Fin n → List T)
    (id : Fin n) (tasks : List T) :
    total pool inGlobal (update inExt id tasks) + (inExt id : Multiset T) =
      total pool inGlobal inExt + (tasks : Multiset T) := by
  have sums := sum_update (fun tasks : List T => (tasks : Multiset T)) inExt id tasks
  rw [total, total, add_right_comm, add_assoc (inGlobal : Multiset T), sums, ← add_assoc,
    add_right_comm _ (tasks : Multiset T)]

theorem Contents.updateExt {pool : Threadpool n T} {inGlobal : List T} {inExt : Fin n → List T}
    (contents : Contents pool inGlobal inExt) {id : Fin n} {ring : MpmcRing T} {tasks : List T}
    (holds : ring.Holds tasks) :
    Contents { pool with extRings := update pool.extRings id ring } inGlobal
      (update inExt id tasks) := by
  refine ⟨contents.globalRing, fun other => ?_, contents.queues⟩
  by_cases same : other = id
  · subst same
    simpa using holds
  · simpa [same] using contents.extRings other

end Contents

/-! ## Looking for a task -/

section Search

variable {n : Nat} {T : Type u}

/-- The place always answers: it takes one task out of the queues, or finds none
and changes nothing. -/
def Sound (source : Source n T) : Prop :=
  ∀ pool tasks, Holds pool tasks → ∃ next found rest, source pool = some (next, found) ∧
    Holds next rest ∧ tasks = (found.toList : Multiset T) + rest ∧
    (found = none → next = pool) ∧ next.pendingTasks = pool.pendingTasks

theorem sound_localQueue (id : Fin n) : Sound (localQueue id : Source n T) := by
  rintro pool tasks ⟨inGlobal, inExt, contents, rfl⟩
  refine ⟨pool, none, _, ?_, ⟨inGlobal, inExt, contents, rfl⟩, by simp, fun _ => rfl, rfl⟩
  simp [localQueue, workQueuePop_untouched (contents.queues id)]

theorem sound_stolenDeque (id : Fin n) : Sound (stolenDeque id : Source n T) := by
  rintro pool tasks ⟨inGlobal, inExt, contents, rfl⟩
  refine ⟨pool, none, _, ?_, ⟨inGlobal, inExt, contents, rfl⟩, by simp, fun _ => rfl, rfl⟩
  simp [stolenDeque, workQueueSteal_untouched (contents.queues id)]

theorem sound_globalPriority : Sound (globalPriority : Source n T) := by
  rintro pool tasks ⟨inGlobal, inExt, contents, rfl⟩
  rcases popPriority_spec pool.globalQueue with ⟨queue, task, popEq, sums⟩ | ⟨popEq, -⟩
  · refine ⟨{ pool with globalQueue := queue }, some task, _, by simp [globalPriority, popEq],
      ⟨inGlobal, inExt, ⟨contents.globalRing, contents.extRings, contents.queues⟩, rfl⟩, ?_,
      by simp, rfl⟩
    rw [total, sums, add_cons]
    rfl
  · exact ⟨pool, none, _, by simp [globalPriority, popEq], ⟨inGlobal, inExt, contents, rfl⟩,
      by simp, fun _ => rfl, rfl⟩

theorem sound_sharedRing : Sound (sharedRing : Source n T) := by
  rintro pool tasks ⟨inGlobal, inExt, contents, rfl⟩
  rcases pop_spec contents.globalRing with ⟨ring, task, rest, popEq, rfl, holds⟩ | ⟨popEq, -⟩
  · refine ⟨{ pool with globalRing := ring }, some task, _, by simp [sharedRing, popEq],
      ⟨rest, inExt, ⟨holds, contents.extRings, contents.queues⟩, rfl⟩, ?_, by simp, rfl⟩
    rw [total, ← cons_coe, cons_add, cons_add]
    rfl
  · exact ⟨pool, none, _, by simp [sharedRing, popEq], ⟨inGlobal, inExt, contents, rfl⟩,
      by simp, fun _ => rfl, rfl⟩

theorem sound_ownRing (id : Fin n) : Sound (ownRing id : Source n T) := by
  rintro pool tasks ⟨inGlobal, inExt, contents, rfl⟩
  rcases pop_spec (contents.extRings id) with ⟨ring, task, rest, popEq, extEq, holds⟩ | ⟨popEq, -⟩
  · refine ⟨{ pool with extRings := update pool.extRings id ring }, some task, _,
      by simp [ownRing, popEq], ⟨inGlobal, _, contents.updateExt holds, rfl⟩, ?_, by simp, rfl⟩
    have sums := total_updateExt pool inGlobal inExt id rest
    rw [extEq, ← cons_coe, add_cons, ← cons_add] at sums
    exact (add_right_cancel sums).symm
  · exact ⟨pool, none, _, by simp [ownRing, popEq], ⟨inGlobal, inExt, contents, rfl⟩,
      by simp, fun _ => rfl, rfl⟩

theorem sound_search {places : List (Source n T)} (sound : ∀ place ∈ places, Sound place) :
    Sound (search places) := by
  induction places with
  | nil =>
    intro pool tasks holds
    exact ⟨pool, none, tasks, rfl, holds, by simp, fun _ => rfl, rfl⟩
  | cons place places ih =>
    intro pool tasks holds
    obtain ⟨next, found, rest, placeEq, nextHolds, split, same, pending⟩ :=
      sound place (by simp) pool tasks holds
    cases found with
    | some task =>
      exact ⟨next, some task, rest, by simp [search, placeEq], nextHolds, split, by simp, pending⟩
    | none =>
      obtain rfl := same rfl
      obtain ⟨last, found, lastRest, searchEq, lastHolds, lastSplit, lastSame, lastPending⟩ :=
        ih (fun other mem => sound other (by simp [mem])) next tasks holds
      exact ⟨last, found, lastRest, by simp [search, placeEq, searchEq], lastHolds, lastSplit,
        lastSame, lastPending⟩

/-- A search that finds nothing has found nothing in any of its places. -/
theorem search_none {places : List (Source n T)} (sound : ∀ place ∈ places, Sound place)
    {pool : Threadpool n T} {tasks : Multiset T} (holds : Holds pool tasks)
    {next : Threadpool n T} (searchEq : search places pool = some (next, none)) :
    ∀ place ∈ places, ∃ after, place pool = some (after, none) := by
  induction places with
  | nil => simp
  | cons place places ih =>
    obtain ⟨after, found, rest, placeEq, -, -, same, -⟩ := sound place (by simp) pool tasks holds
    rw [search, placeEq] at searchEq
    cases found with
    | some task => simp at searchEq
    | none =>
      obtain rfl := same rfl
      have others := ih (fun other mem => sound other (by simp [mem])) searchEq
      simpa using ⟨⟨after, placeEq⟩, others⟩

variable [NeZero n]

theorem sound_sources (stealing : Bool) (id : Fin n) :
    ∀ place ∈ (sources stealing id : List (Source n T)), Sound place := by
  intro place mem
  rw [sources, List.mem_append] at mem
  rcases mem with mem | mem
  · simp only [List.mem_cons, List.not_mem_nil, or_false] at mem
    rcases mem with rfl | rfl | rfl | rfl
    · exact sound_localQueue id
    · exact sound_globalPriority
    · exact sound_ownRing id
    · exact sound_sharedRing
  · split at mem
    · obtain ⟨victim, -, stolen⟩ := List.mem_flatMap.mp mem
      simp only [List.mem_cons, List.not_mem_nil, or_false] at stolen
      rcases stolen with rfl | rfl
      · exact sound_ownRing victim
      · exact sound_stolenDeque victim
    · simp at mem

/-- If no worker finds a task, there is none. -/
theorem eq_zero_of_search_none {pool : Threadpool n T} {tasks : Multiset T}
    (holds : Holds pool tasks) (stealing : Bool)
    (nothing : ∀ id, ∃ next, search (sources stealing id) pool = some (next, none)) :
    tasks = 0 := by
  have empty (id : Fin n) (place : Source n T) (mem : place ∈ sources stealing id) :
      ∃ after, place pool = some (after, none) := by
    obtain ⟨next, searchEq⟩ := nothing id
    exact search_none (sound_sources stealing id) holds searchEq place mem
  obtain ⟨inGlobal, inExt, contents, rfl⟩ := holds
  have globalNil : inGlobal = [] := by
    obtain ⟨after, popEq⟩ := empty 0 sharedRing (by simp [sources])
    rcases pop_spec contents.globalRing with ⟨ring, task, rest, found, -, -⟩ | ⟨-, nil⟩
    · simp [sharedRing, found] at popEq
    · exact nil
  have extNil : ∀ id, inExt id = [] := by
    intro id
    obtain ⟨after, popEq⟩ := empty id (ownRing id) (by simp [sources])
    rcases pop_spec (contents.extRings id) with ⟨ring, task, rest, found, -, -⟩ | ⟨-, nil⟩
    · simp [ownRing, found] at popEq
    · exact nil
  have listedZero : listed pool.globalQueue = 0 := by
    obtain ⟨after, popEq⟩ := empty 0 globalPriority (by simp [sources])
    rcases popPriority_spec pool.globalQueue with ⟨queue, task, found, -⟩ | ⟨-, lists⟩
    · simp [globalPriority, found] at popEq
    · exact (listed_eq_zero_iff _).mpr lists
  simp [total, globalNil, extNil, listedZero]

end Search

/-! ## Submitting a task -/

section Submission

variable {n : Nat} [NeZero n] {Fn : Type u} {Arg : Type v}

/-- The rings the next submission pushes to cannot overwrite a task. -/
def PushSafe (pool : Threadpool n (Task Fn Arg)) : Prop :=
  RingSafe pool.globalRing ∧
    (RingFull pool.globalRing → RingSafe (pool.extRings (nextRing pool)))

instance (pool : Threadpool n (Task Fn Arg)) : Decidable (PushSafe pool) :=
  inferInstanceAs (Decidable (_ ∧ (_ → _)))

/-- Every push of a batch is safe in the state the pushes before it left. -/
def BatchSafe (pool : Threadpool n (Task Fn Arg)) : List (BatchEntry Fn Arg) → Prop
  | [] => True
  | entry :: rest =>
      match entry.func with
      | none => BatchSafe pool rest
      | some func => entry.allocated = true → PushSafe pool ∧
          ∀ result ∈ enqueue pool (entry.task func), BatchSafe result.1 rest

instance decidableBatchSafe : ∀ (pool : Threadpool n (Task Fn Arg))
    (entries : List (BatchEntry Fn Arg)), Decidable (BatchSafe pool entries)
  | _, [] => isTrue trivial
  | pool, entry :: rest =>
      match funcEq : entry.func with
      | none =>
          have := decidableBatchSafe pool rest
          decidable_of_iff (BatchSafe pool rest) (by simp [BatchSafe, funcEq])
      | some func =>
          have := fun next => decidableBatchSafe next rest
          decidable_of_iff (entry.allocated = true → PushSafe pool ∧
            ∀ result ∈ enqueue pool (entry.task func), BatchSafe result.1 rest)
            (by simp only [BatchSafe, funcEq])

variable {pool : Threadpool n (Task Fn Arg)} {tasks : Multiset (Task Fn Arg)}

theorem listed_pushed (queue : WorkQueue (Task Fn Arg)) (task : Task Fn Arg) :
    ∃ next, workQueuePush queue task false = (next, true) ∧
      listed next = task ::ₘ listed queue := by
  have pushEq : workQueuePush queue task false = ({ queue with
      priorityQueues := update queue.priorityQueues task.priority
        (queue.priorityQueues task.priority ++ [task]) }, true) := by
    simp [workQueuePush]
  refine ⟨_, pushEq, ?_⟩
  have sums := listed_update queue task.priority (queue.priorityQueues task.priority ++ [task])
  rw [← coe_add, ← add_assoc, add_right_comm] at sums
  have cancelled := add_right_cancel sums
  rw [cancelled, coe_singleton, add_comm, singleton_add]

/-- A safe submission from outside puts its task in one of the queues. -/
theorem poolSubmitExternal_spec (holds : Holds pool tasks) (safe : PushSafe pool)
    (task : Task Fn Arg) :
    ∃ next, poolSubmitExternal pool task = some (next, true) ∧ Holds next (task ::ₘ tasks) ∧
      next.pendingTasks = pool.pendingTasks := by
  obtain ⟨inGlobal, inExt, contents, rfl⟩ := holds
  rcases push_spec contents.globalRing safe.1 task with ⟨ring, pushEq, ringHolds⟩ | ⟨pushEq, full⟩
  · refine ⟨{ pool with globalRing := ring }, by simp [poolSubmitExternal, pushEq],
      ⟨inGlobal ++ [task], inExt, ⟨ringHolds, contents.extRings, contents.queues⟩, ?_⟩, rfl⟩
    simp only [total, ← coe_add, coe_singleton, ← singleton_add]
    abel
  rcases push_spec (contents.extRings (nextRing pool)) (safe.2 full) task with
    ⟨ring, extEq, ringHolds⟩ | ⟨extEq, -⟩
  · refine ⟨{ pool with
      extRings := update pool.extRings (nextRing pool) ring
      rrIndex := (pool.rrIndex + 1) % 2 ^ 32 }, by simp [poolSubmitExternal, pushEq, extEq],
      ⟨inGlobal, update inExt (nextRing pool) (inExt (nextRing pool) ++ [task]), ?_, ?_⟩, rfl⟩
    · obtain ⟨first, second, third⟩ := contents.updateExt ringHolds
      exact ⟨first, second, third⟩
    · have sums := total_updateExt pool inGlobal inExt (nextRing pool)
        (inExt (nextRing pool) ++ [task])
      rw [← coe_add, ← add_assoc, add_right_comm] at sums
      have cancelled := add_right_cancel sums
      rw [coe_singleton, add_comm] at cancelled
      exact cancelled.symm
  · obtain ⟨queue, queueEq, sums⟩ := listed_pushed pool.globalQueue task
    refine ⟨{ pool with
      globalQueue := queue
      rrIndex := (pool.rrIndex + 1) % 2 ^ 32 },
      by simp [poolSubmitExternal, pushEq, extEq, queueEq],
      ⟨inGlobal, inExt, ⟨contents.globalRing, contents.extRings, contents.queues⟩, ?_⟩, rfl⟩
    rw [total, total, sums, add_cons]

/-- A safe submission is accepted and counted. -/
theorem enqueue_spec (holds : Holds pool tasks) (task : Task Fn Arg)
    (safe : task.priority = .normal → PushSafe pool) :
    ∃ next, enqueue pool task = some (next, true) ∧ Holds next (task ::ₘ tasks) ∧
      next.pendingTasks = pool.pendingTasks + 1#32 := by
  have counted : Holds { pool with pendingTasks := pool.pendingTasks + 1#32 } tasks := by
    obtain ⟨inGlobal, inExt, contents, rfl⟩ := holds
    exact ⟨inGlobal, inExt, ⟨contents.globalRing, contents.extRings, contents.queues⟩, rfl⟩
  by_cases normal : task.priority = .normal
  · obtain ⟨next, submitEq, nextHolds, pending⟩ :=
      poolSubmitExternal_spec counted (safe normal) task
    exact ⟨next, by simp [enqueue, normal, submitEq], nextHolds, pending⟩
  · obtain ⟨queue, queueEq, sums⟩ := listed_pushed pool.globalQueue task
    refine ⟨{ pool with pendingTasks := pool.pendingTasks + 1#32, globalQueue := queue },
      by simp [enqueue, normal, queueEq], ?_, rfl⟩
    obtain ⟨inGlobal, inExt, contents, rfl⟩ := counted
    refine ⟨inGlobal, inExt, ⟨contents.globalRing, contents.extRings, contents.queues⟩, ?_⟩
    rw [total, total, sums, add_cons]

/-- The tasks a safe batch counts as submitted are in the queues. -/
theorem submitLoop_spec (entries : List (BatchEntry Fn Arg)) (holds : Holds pool tasks)
    (safe : BatchSafe pool entries) :
    ∃ next submitted, submitLoop pool entries = some (next, submitted) ∧
      Holds next ((submitted : Multiset (Task Fn Arg)) + tasks) ∧
      next.pendingTasks = pool.pendingTasks + BitVec.ofNat 32 submitted.length := by
  induction entries generalizing pool tasks with
  | nil => exact ⟨pool, [], rfl, by simpa using holds, by simp⟩
  | cons entry rest ih =>
    rw [BatchSafe] at safe
    rw [submitLoop]
    split
    next funcEq =>
      rw [funcEq] at safe
      exact ih holds safe
    next func funcEq =>
      rw [funcEq] at safe
      split
      · exact ⟨pool, [], rfl, by simpa using holds, by simp⟩
      next allocated =>
        obtain ⟨pushSafe, restSafe⟩ := safe (Bool.eq_true_of_not_eq_false allocated)
        obtain ⟨middle, enqueueEq, middleHolds, middlePending⟩ :=
          enqueue_spec holds (entry.task func) fun _ => pushSafe
        obtain ⟨next, submitted, loopEq, nextHolds, nextPending⟩ :=
          ih middleHolds (restSafe _ enqueueEq)
        refine ⟨next, entry.task func :: submitted, by simp [enqueueEq, loopEq], ?_, ?_⟩
        · rwa [← cons_coe, cons_add, ← add_cons]
        · rw [nextPending, middlePending, List.length_cons, BitVec.add_assoc,
            Nat.add_comm submitted.length, BitVec.ofNat_add]

end Submission

/-! ## Runs -/

section Runs

variable {n : Nat} [NeZero n] {Fn : Type u} {Arg : Type v}

/-- The tasks in the queues are those accepted and not yet executed, and they
are counted as pending. -/
structure Inv (state : State n Fn Arg) (tasks : Multiset (Task Fn Arg)) : Prop where
  holds : Holds state.pool tasks
  pending : state.pool.pendingTasks = BitVec.ofNat 32 tasks.card
  conserved : (state.accepted : Multiset (Task Fn Arg)) = state.executed + tasks

/-- A call's pushes cannot overwrite a task. -/
def PushesSafe (state : State n Fn Arg) : Label n Fn Arg → Prop
  | .submit _ _ _ => PushSafe state.pool
  | .submitPriority _ _ priority _ => priority = .normal → PushSafe state.pool
  | .submitCallback _ _ _ _ => PushSafe state.pool
  | .submitBatch entries => BatchSafe state.pool entries
  | .work _ => True

variable {state : State n Fn Arg} {tasks : Multiset (Task Fn Arg)}

instance (state : State n Fn Arg) (label : Label n Fn Arg) :
    Decidable (PushesSafe state label) := by
  cases label <;> unfold PushesSafe <;> infer_instance

section

variable (inv : Inv state tasks)
include inv

omit [NeZero n] in
/-- A call keeps the invariant when the queues hold what it accepted. -/
theorem Inv.accept {R : Type}
    {result : Option (Threadpool n (Task Fn Arg) × R × List (Task Fn Arg))}
    {pool : Threadpool n (Task Fn Arg)} {code : R} {submitted : List (Task Fn Arg)}
    (resultEq : result = some (pool, code, submitted))
    (holds : Holds pool ((submitted : Multiset (Task Fn Arg)) + tasks))
    (pending : pool.pendingTasks = state.pool.pendingTasks + BitVec.ofNat 32 submitted.length) :
    ∃ next nextTasks, state.accept result = some next ∧ Inv next nextTasks := by
  subst resultEq
  refine ⟨_, _, rfl, holds, ?_, ?_⟩
  · change pool.pendingTasks = _
    rw [pending, inv.pending, card_add, coe_card, Nat.add_comm, BitVec.ofNat_add]
  · change ((state.accepted ++ submitted : List (Task Fn Arg)) : Multiset (Task Fn Arg)) =
      state.executed + _
    rw [← coe_add, inv.conserved]
    abel

omit [NeZero n] in
/-- A call that accepts nothing. -/
theorem Inv.reject {R : Type} (code : R) :
    ∃ next nextTasks, state.accept (some (state.pool, code, [])) = some next ∧ Inv next nextTasks :=
  inv.accept rfl (by simpa using inv.holds) (by simp)

/-- A safe submission of one task. -/
theorem Inv.submitTask (func : Option Fn) (allocated : Bool) (task : Fn → Task Fn Arg)
    (safe : ∀ func, (task func).priority = .normal → PushSafe state.pool) :
    ∃ next nextTasks, state.accept (submitTask state.pool func allocated task) = some next ∧
      Inv next nextTasks := by
  cases func with
  | none => exact inv.reject _
  | some func =>
    rw [Pool.submitTask]
    split
    · exact inv.reject _
    · split
      · exact inv.reject _
      · obtain ⟨next, enqueueEq, nextHolds, pending⟩ :=
          enqueue_spec inv.holds (task func) (safe func)
        rw [enqueueEq]
        exact inv.accept rfl (by simpa using nextHolds) pending

/-- A worker's pass returns, and executes a task unless there is none for it. -/
theorem Inv.work (id : Fin n) :
    ∃ next nextTasks, Pool.work state id = some next ∧ Inv next nextTasks ∧
      next.accepted = state.accepted ∧
      ((∃ after, search (sources state.pool.enableStealing id) state.pool =
        some (after, none)) ∨ nextTasks.card < tasks.card) := by
  obtain ⟨pool, found, rest, searchEq, holds, split, -, pending⟩ :=
    sound_search (sound_sources state.pool.enableStealing id) state.pool tasks inv.holds
  cases found with
  | none =>
    simp only [toList_none, coe_nil, zero_add] at split
    subst split
    exact ⟨{ state with pool := pool }, tasks, by simp [Pool.work, searchEq],
      ⟨holds, pending.trans inv.pending, inv.conserved⟩, rfl, .inl ⟨pool, searchEq⟩⟩
  | some task =>
    simp only [toList_some, coe_singleton, singleton_add] at split
    subst split
    refine ⟨{ state with
      pool := { pool with pendingTasks := pool.pendingTasks - 1#32 }
      executed := state.executed ++ [task] }, rest, by simp [Pool.work, searchEq],
      ⟨?_, ?_, ?_⟩, rfl, .inr (by simp)⟩
    · obtain ⟨inGlobal, inExt, contents, rfl⟩ := holds
      exact ⟨inGlobal, inExt, ⟨contents.globalRing, contents.extRings, contents.queues⟩, rfl⟩
    · change pool.pendingTasks - 1#32 = _
      rw [pending, inv.pending, card_cons, BitVec.ofNat_add]
      exact BitVec.add_sub_cancel _ _
    · change (state.accepted : Multiset (Task Fn Arg)) =
        ((state.executed ++ [task] : List (Task Fn Arg)) : Multiset (Task Fn Arg)) + rest
      rw [inv.conserved, ← coe_add, coe_singleton, add_assoc, singleton_add]

end

/-- Every safe call and every pass of a worker returns and keeps the
invariant. -/
theorem Inv.step (inv : Inv state tasks) {label : Label n Fn Arg} (safe : PushesSafe state label) :
    ∃ next nextTasks, step state label = some next ∧ Inv next nextTasks := by
  cases label with
  | submit func arg allocated | submitCallback func arg onComplete allocated =>
    exact inv.submitTask func allocated _ fun _ _ => safe
  | submitPriority func arg priority allocated =>
    exact inv.submitTask func allocated _ fun _ normal => safe normal
  | submitBatch entries =>
    simp only [Pool.step, submitBatch]
    split
    · exact inv.reject _
    · split
      · exact inv.reject _
      · obtain ⟨next, submitted, loopEq, nextHolds, pending⟩ :=
          submitLoop_spec entries inv.holds safe
        rw [loopEq]
        exact inv.accept rfl nextHolds pending
  | work id =>
    obtain ⟨next, nextTasks, workEq, nextInv, -, -⟩ := inv.work id
    exact ⟨next, nextTasks, workEq, nextInv⟩

/-- The passes of the workers empty the queues. -/
theorem Inv.drain (inv : Inv state tasks) : ∃ (ids : List (Fin n)) (final : State n Fn Arg),
      exec Pool.step state (ids.map .work) = some final ∧ Inv final 0 ∧
      final.accepted = state.accepted := by
  induction size : tasks.card using Nat.strong_induction_on generalizing state tasks with
  | _ size ih =>
    by_cases empty : tasks = 0
    · subst empty
      exact ⟨[], state, rfl, inv, rfl⟩
    · obtain ⟨id, next, nextTasks, workEq, nextInv, acceptedEq, less⟩ :
          ∃ id next nextTasks, Pool.work state id = some next ∧ Inv next nextTasks ∧
            next.accepted = state.accepted ∧ nextTasks.card < tasks.card := by
        by_contra stuck
        refine empty (eq_zero_of_search_none inv.holds state.pool.enableStealing fun id => ?_)
        obtain ⟨next, nextTasks, workEq, nextInv, acceptedEq, nothing | less⟩ := inv.work id
        · exact nothing
        · exact absurd ⟨id, next, nextTasks, workEq, nextInv, acceptedEq, less⟩ stuck
      obtain ⟨ids, final, execEq, finalInv, finalEq⟩ := ih _ (size ▸ less) nextInv rfl
      refine ⟨id :: ids, final, ?_, finalInv, finalEq.trans acceptedEq⟩
      change (Pool.work state id).bind _ = _
      rw [workEq]
      exact execEq

end Runs

/-! ## Every configuration -/

section Configurations

variable {Fn : Type u} {Arg : Type v}

theorem numWorkers_le (online : BitVec 32) (config : Config) :
    numWorkers online config ≤ 2 ^ 31 := by
  have := BitVec.two_mul_toInt_lt (x := online)
  have := BitVec.two_mul_toInt_lt (x := config.numThreads)
  rw [numWorkers]
  split
  · split <;> omega
  · omega

theorem ringCapacity_le (config : Config) : ringCapacity config ≤ 2 ^ 31 := by
  have := BitVec.two_mul_toInt_lt (x := config.maxQueueSize)
  rw [ringCapacity]
  split <;> omega

theorem globalCapacity_le (online : BitVec 32) (config : Config) :
    globalCapacity online config ≤ 2 ^ 63 := by
  have rings := ringCapacity_le config
  have product : ringCapacity config * numWorkers online config ≤ 2 ^ 31 * 2 ^ 31 :=
    Nat.mul_le_mul rings (numWorkers_le online config)
  rw [globalCapacity]
  split <;> omega

theorem initial_inv {online : BitVec 32} {config : Config}
    {pool : Threadpool (numWorkers online config) (Task Fn Arg)}
    (created : threadpoolCreateEx online config = some pool) : Inv ⟨pool, [], []⟩ 0 := by
  simp only [threadpoolCreateEx, bind_eq_bind, bind_eq_some_iff, Option.pure_def,
    some.injEq] at created
  obtain ⟨queue, queueEq, extRing, extEq, globalRing, globalEq, rfl⟩ := created
  obtain ⟨-, extHolds⟩ := MpmcRing.holds_of_init ((ringCapacity_le config).trans (by decide)) extEq
  obtain ⟨-, globalHolds⟩ := MpmcRing.holds_of_init (globalCapacity_le online config) globalEq
  have untouched : Untouched queue := by
    obtain ⟨deque, dequeEq, rfl⟩ := map_eq_some_iff.mp queueEq
    cases dequeEq
    exact ⟨rfl, rfl, fun _ => rfl⟩
  refine ⟨⟨[], fun _ => [], ⟨globalHolds, fun _ => extHolds, fun _ => untouched⟩, ?_⟩, rfl, rfl⟩
  have nothing : listed queue = 0 := (listed_eq_zero_iff queue).mpr untouched.2.2
  simp [total, nothing]

/-- For every configuration, in every run whose pushes cannot overwrite a task:
every further such call and every pass of a worker returns; the workers' passes
lead to empty queues, where the executed tasks are the accepted ones and no task
is pending; and that is so whenever the queues are empty. -/
theorem executed_eq_accepted {online : BitVec 32} {config : Config}
    {pool : Threadpool (numWorkers online config) (Task Fn Arg)}
    (created : threadpoolCreateEx online config = some pool)
    {target : State (numWorkers online config) Fn Arg}
    (run : GuardedRun step PushesSafe ⟨pool, [], []⟩ target) :
    (∀ label, PushesSafe target label → ∃ next, step target label = some next) ∧
    (∃ (ids : List (Fin (numWorkers online config))) (final : State _ Fn Arg),
      exec step target (ids.map .work) = some final ∧ Drained final.pool ∧
      final.accepted = target.accepted ∧
      (final.executed : Multiset (Task Fn Arg)) = final.accepted ∧
      final.pool.pendingTasks = 0) ∧
    (Drained target.pool → (target.executed : Multiset (Task Fn Arg)) = target.accepted ∧
      target.pool.pendingTasks = 0) := by
  obtain ⟨tasks, inv⟩ : ∃ tasks, Inv target tasks := by
    refine run.invariant (fun state => ∃ tasks, Inv state tasks) ⟨0, initial_inv created⟩ ?_
    rintro state label next ⟨tasks, inv⟩ safe stepEq
    obtain ⟨reached, nextTasks, reachedEq, nextInv⟩ := inv.step safe
    rw [stepEq] at reachedEq
    cases reachedEq
    exact ⟨nextTasks, nextInv⟩
  have settled {state : State (numWorkers online config) Fn Arg} (empty : Inv state 0) :
      (state.executed : Multiset (Task Fn Arg)) = state.accepted ∧ state.pool.pendingTasks = 0 := by
    refine ⟨?_, empty.pending⟩
    rw [empty.conserved, add_zero]
  refine ⟨?_, ?_, ?_⟩
  · intro label safe
    obtain ⟨next, -, stepEq, -⟩ := inv.step safe
    exact ⟨next, stepEq⟩
  · obtain ⟨ids, final, execEq, finalInv, acceptedEq⟩ := inv.drain
    exact ⟨ids, final, execEq, (drained_iff finalInv.holds).mpr rfl, acceptedEq, settled finalInv⟩
  · intro drained
    obtain rfl := (drained_iff inv.holds).mp drained
    exact settled inv

end Configurations

/-! ## Rings of one cell -/

/-- A pool whose per-worker rings have a single cell. -/
def oneCellRings (numThreads : BitVec 32) : Config :=
  ⟨numThreads, 1, true⟩

/-- Three tasks go to the global ring of three workers, and two workers make a
pass. -/
def spreadOut : List (Label (numWorkers 0 (oneCellRings 3)) Nat Nat) :=
  [.submit (some 1) 10 true, .submitCallback (some 2) 20 none true,
    .submitBatch [⟨some 3, 30, true⟩, ⟨none, 0, true⟩], .work 0, .work 2]

theorem executed_eq_accepted_spreadOut :
    ∃ pool target, threadpoolCreateEx 0 (oneCellRings 3) = some pool ∧
      exec (guarded step PushesSafe) ⟨pool, [], []⟩ spreadOut = some target ∧
      target.executed = [⟨1, 10, none, .normal⟩, ⟨2, 20, none, .normal⟩] ∧
      target.accepted.length = 3 ∧
      ∃ (ids : List (Fin _)) (final : State _ Nat Nat),
        exec step target (ids.map .work) = some final ∧
        (final.executed : Multiset (Task Nat Nat)) = target.accepted := by
  obtain ⟨pool, created⟩ : ∃ pool : Threadpool _ (Task Nat Nat),
      threadpoolCreateEx 0 (oneCellRings 3) = some pool := ⟨_, rfl⟩
  obtain ⟨target, targetEq, executed, accepted⟩ := exec_meets (guarded step PushesSafe)
    ⟨pool, [], []⟩ spreadOut (fun state => state.executed =
      [⟨1, 10, none, .normal⟩, ⟨2, 20, none, .normal⟩] ∧ state.accepted.length = 3) (by
      cases created
      decide)
  obtain ⟨-, ⟨ids, final, execEq, -, acceptedEq, equal, -⟩, -⟩ :=
    executed_eq_accepted created (guardedRun_of_exec targetEq)
  exact ⟨pool, target, created, targetEq, executed, accepted, ids, final, execEq,
    acceptedEq ▸ equal⟩

/-- Two tasks for a pool of one worker with a global ring of one cell. -/
def overwritten : List (Label (numWorkers 0 (oneCellRings 1)) Nat Nat) :=
  [.submit (some 1) 10 true, .submit (some 2) 20 true]

/-- With one worker and a queue size of one, two submissions are accepted, no
pass of the worker ever returns, and no schedule of passes executes them. -/
theorem accepted_not_executed_overwritten :
    ∃ pool target, threadpoolCreateEx 0 (oneCellRings 1) = some pool ∧
      Reachable step ⟨pool, [], []⟩ target ∧
      target.accepted = [⟨1, 10, none, .normal⟩, ⟨2, 20, none, .normal⟩] ∧
      (∀ id, step target (.work id) = none) ∧
      ∀ (ids : List (Fin _)) (final : State _ Nat Nat),
        exec step target (ids.map .work) = some final →
          ¬ Drained final.pool ∧ (final.executed : Multiset (Task Nat Nat)) ≠ final.accepted ∧
            final.pool.pendingTasks ≠ 0 := by
  obtain ⟨pool, created⟩ : ∃ pool : Threadpool _ (Task Nat Nat),
      threadpoolCreateEx 0 (oneCellRings 1) = some pool := ⟨_, rfl⟩
  obtain ⟨target, targetEq, accepted, executed, pending, nonempty, stopped⟩ := exec_meets step
    ⟨pool, [], []⟩ overwritten (fun state =>
      state.accepted = [⟨1, 10, none, .normal⟩, ⟨2, 20, none, .normal⟩] ∧ state.executed = [] ∧
      state.pool.pendingTasks = 2 ∧ state.pool.globalRing.head ≠ state.pool.globalRing.tail ∧
      ∀ id, (step state (.work id)).isNone) (by
      cases created
      decide)
  have stuck := fun id => isNone_iff_eq_none.mp (stopped id)
  refine ⟨pool, target, created, reachable_of_exec targetEq, accepted, stuck, ?_⟩
  intro ids final execEq
  cases ids with
  | nil =>
    cases execEq
    refine ⟨fun drained => nonempty drained.1, ?_, ?_⟩
    · rw [accepted, executed]
      decide
    · rw [pending]
      decide
  | cons id ids =>
    rw [List.map_cons, exec_cons, stuck id] at execEq
    cases execEq

/-! ## The victims of a pass -/

section Stealing

variable {n : Nat} [NeZero n] {T : Type u} {id victim : Fin n}

/-- A probe of a place that finds no task. -/
def Misses (source : Source n T) (pool : Threadpool n T) : Prop :=
  ∃ next, source pool = some (next, none)

/-- A pass of a worker that finds nothing, with the pools at the moments of its
probes: other threads may act between them. -/
def EmptyHanded (id : Fin n) (pools : List (Threadpool n T)) : Prop :=
  List.Forall₂ Misses (sources true id) pools

/-- A pass visits the workers other than `id`, and finds nothing only if each of
them had nothing to steal when it was probed. -/
def CoversVictims (T : Type u) (id : Fin n) : Prop :=
  (∀ victim, victim ∈ victims id ↔ victim ≠ id) ∧
  ∀ pools : List (Threadpool n T), EmptyHanded id pools → ∀ victim, victim ≠ id →
    ∀ source ∈ [ownRing victim, stolenDeque victim], ∃ pool ∈ pools, Misses source pool

theorem mem_victims : victim ∈ victims id ↔ ∃ i < n, i ≠ id.val ∧ (id.val + i) % n = victim.val := by
  simp only [victims, List.mem_map, List.mem_filter, List.mem_range, decide_eq_true_eq, and_assoc,
    Fin.ext_iff, Fin.val_ofNat]

/-- The loop skips the offset `id` and not the worker, whose own offset is zero. -/
theorem self_mem_victims (later : id.val ≠ 0) : id ∈ victims id :=
  mem_victims.mpr ⟨0, id.pos, later.symm, Nat.mod_eq_of_lt id.isLt⟩

theorem mem_victims_first (first : id.val = 0) : victim ∈ victims id ↔ victim ≠ id := by
  rw [mem_victims]
  constructor
  · rintro ⟨i, bound, other, same⟩ rfl
    rw [first, Nat.zero_add, Nat.mod_eq_of_lt bound] at same
    exact other (same.trans first.symm)
  · intro other
    refine ⟨victim, victim.isLt, fun same => other (Fin.ext same), ?_⟩
    rw [first, Nat.zero_add, Nat.mod_eq_of_lt victim.isLt]

end Stealing

/-- Five tasks, of which one goes to the ring of the first of two workers, and four
passes of the second worker. -/
def leftBehind : List (Label (numWorkers 0 ⟨2, 2, true⟩) Nat Nat) :=
  List.replicate 5 (.submit (some 1) 10 true) ++ List.replicate 4 (.work 1)

end QDaemon.ThreadPool.Pool
