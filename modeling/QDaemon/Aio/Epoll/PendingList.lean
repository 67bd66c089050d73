import QDaemon.Aio.Epoll.Runs

/-!
# The pending list of the epoll backend

`prev` is never set to the node that is appended to, so a list of two nodes is not
doubly linked, and removing a node that is not the first one takes the ones before it
out of the list as well.  The list is as it should be while no operation is created
when there is another.
-/

namespace QDaemon.Aio.Epoll

open Linked Linked.Doubly Transition

universe u v

variable {N : Type u} {U : Type v}

/-- The list is doubly linked, `pending_tail` is its last node, its nodes are those of
the operations, and `pending_count` is its length. -/
structure WellFormed (backend : Backend N U) (nodes : List N) : Prop where
  linked : backend.lists.Chains prevMark fun _ => nodes
  tail : backend.tail = nodes.getLast?
  operations : ∀ node, node ∈ nodes ↔ node ∈ backend.operations
  count : backend.count.toInt = nodes.length

/-- An operation is created only if the list is empty. -/
def Alone (state : State N U) (label : Label N U) : Prop :=
  (state.created label).isSome → state.backend.tail = none

instance Alone.decidable (state : State N U) (label : Label N U) : Decidable (Alone state label) :=
  decidable_of_iff ((state.created label).isSome = false ∨ state.backend.tail.isNone) (by
    rw [Alone, Option.isNone_iff_eq_none, ← Bool.not_eq_true, imp_iff_not_or])

variable {backend : Backend N U} {state next : State N U} {label : Label N U}

theorem Sound.operations_eq_nil (sound : Sound backend) (empty : backend.tail = none) :
    backend.operations = [] := by
  rw [sound.queue.tail] at empty
  exact List.getLast?_eq_none_iff.mp empty

theorem Sound.secure_of_empty (sound : Sound backend) (empty : backend.tail = none) (fd : Int)
    (env : Environment N) : Secure backend fd env := by
  have nil := sound.operations_eq_nil empty
  exact ⟨by simp [Unused, nil], .inl nil⟩

/-- The only operation is the oldest one. -/
theorem head?_of_mem {nodes : List N} (few : nodes.length ≤ 1) {node : N} (mem : node ∈ nodes) :
    nodes.head? = some node := by
  match nodes, few with
  | [other], _ => rw [List.mem_singleton.mp mem, List.head?_cons]

theorem oldest_of_length_le_one (few : backend.operations.length ≤ 1) (condition : N → Bool) :
    Oldest backend condition := fun _ found => head?_of_mem few (List.mem_of_find?_eq_some found)

variable [DecidableEq U]

/-- A step that creates no second operation is careful. -/
theorem Alone.careful (inv : Inv state) (few : state.backend.operations.length ≤ 1)
    (alone : Alone state label) : Careful state label := by
  constructor
  · rintro ⟨req, env⟩ request
    have secure (queued : req.op.queued = true) (fd : Int) : Secure state.backend fd env := by
      apply inv.sound.secure_of_empty (alone ?_)
      cases label with
      | watchFd fd userData env => rfl
      | _ => simp [State.created, Option.mem_def.mp request, queued]
    obtain ⟨op, fd, userData⟩ := req
    cases op with
    | nop | close => trivial
    | cancel => exact oldest_of_length_le_one few _
    | timeout => exact fun timer _ => secure rfl timer
    | read | write | poll | accept | connect | send | recv | channel => exact secure rfl fd
  · cases label with
    | watchFd fd userData env => exact inv.sound.secure_of_empty (alone rfl) fd env
    | unwatchFd fd rounds => exact oldest_of_length_le_one few _
    | complete answer =>
      intro node first
      exact .inr (head?_of_mem few (inv.delivered node (List.mem_of_head? first)))
    | _ => trivial

variable [DecidableEq N]

omit [DecidableEq U] in
/-- There is still at most one operation. -/
theorem Alone.length_le_one (inv : Inv state) (few : state.backend.operations.length ≤ 1)
    (alone : Alone state label) (outcome : Outcome state label next) :
    next.backend.operations.length ≤ 1 := by
  cases outcome with
  | quiet same => exact same ▸ few
  | closed req env request close forgot => exact forgot ▸ few
  | enqueued pending unused created channel enqueued =>
    generalize next.backend = after at enqueued ⊢
    cases enqueued with
    | refused => exact few
    | failed _ _ still => simp [still]
    | accepted node accepted =>
      rw [accepted.operations, inv.sound.operations_eq_nil (alone (by simp [created]))]
      exact Nat.le_refl 1
  | dropped dropped =>
    generalize next.backend = after at dropped ⊢
    cases dropped with
    | missing => exact few
    | removed first removed =>
      rw [first] at few
      rw [removed.operations]
      exact Nat.le_of_succ_le few
  | polled ready _ polled =>
    obtain ⟨-, operations, -⟩ := inv.sound.poll_yields.good polled
    exact operations ▸ few
  | watched node same => exact same ▸ few
  | completed node rest first removed =>
    rw [first] at few
    rw [removed.operations]
    exact Nat.le_of_succ_le few

omit [DecidableEq N] [DecidableEq U] in
/-- A queue of at most one node is a doubly linked list. -/
theorem Sound.wellFormed (sound : Sound backend) (few : backend.operations.length ≤ 1) :
    WellFormed backend backend.operations where
  linked := by
    refine ⟨sound.queue.chains.toSeparate, fun list => ?_⟩
    have chain := sound.queue.chains.chain list
    match operations : backend.operations, few with
    | [], _ => exact ⟨trivial, (operations ▸ chain).2⟩
    | [node], _ =>
      obtain ⟨⟨link, back, -⟩, last⟩ := operations ▸ chain
      exact ⟨⟨link, back, trivial⟩, last⟩
  tail := sound.queue.tail
  operations := fun _ => Iff.rfl
  count := by
    rw [sound.queue.count]
    match backend.operations, few with
    | [], _ => rfl
    | [node], _ => rfl

/-- An operation is completed before the next one is created, and that one is
cancelled. -/
def oneByOne : List (Label Bool Nat) :=
  [.submit ⟨.read, 3, some 1⟩ (giving false), .wait 8 [3], .complete (.ok 5), .complete (.ok 0),
    .submit ⟨.write, 3, some 2⟩ (giving true), .submit ⟨.cancel, 0, some 2⟩ (giving false),
    .watchFd 4 (some 3) (giving false)]

/-- Two operations are submitted. -/
def twoReads : List (Label Bool Nat) :=
  [.submit ⟨.read, 3, some 1⟩ (giving false), .submit ⟨.read, 4, some 2⟩ (giving true)]

end QDaemon.Aio.Epoll
