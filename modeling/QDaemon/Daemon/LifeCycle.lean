import QDaemon.Transition.Run

/-!
# The life cycle of the daemon

`qd_daemon_init`, `qd_daemon_shutdown` and `qd_daemon_reload` each access the state of the
daemon when they begin and when they end, and run a callback of the user in between.  A
callback may call them again, so that the calls of a thread are nested.  The trail lists
the accesses of all threads, the newest first.
-/

namespace QDaemon.Daemon

open Transition

/-- `qd_daemon_state_t`. -/
inductive DaemonState
  | stopped | starting | running | reloading | stopping
  deriving DecidableEq

inductive Routine
  | init | shutdown | reload

/-- The accesses to the state: the stores of `init`, its return with an error, the
compare-and-exchange and the store of `shutdown`, and the stores of `reload`. -/
inductive Access
  | initStart | initEnd | initFail | request | shutdownEnd | reloadStart | reloadEnd
  deriving DecidableEq

/-- The state after an access. -/
def Access.store (state : DaemonState) : Access → DaemonState
  | .initStart => .starting
  | .initEnd | .reloadEnd => .running
  | .initFail => state
  | .request => if state = .running then .stopping else state
  | .shutdownEnd => .stopped
  | .reloadStart => .reloading

/-- A call, and whether it has made its first access. -/
structure Frame where
  routine : Routine
  entered : Bool

/-- The next access of a call.  `fails` says whether a step of `init` or the callback of
the user fails. -/
def Frame.access (fails : Bool) : Frame → Access
  | ⟨.init, false⟩ => .initStart
  | ⟨.init, true⟩ => if fails then .initFail else .initEnd
  | ⟨.shutdown, false⟩ => .request
  | ⟨.shutdown, true⟩ => .shutdownEnd
  | ⟨.reload, false⟩ => .reloadStart
  | ⟨.reload, true⟩ => .reloadEnd

structure Entry where
  access : Access
  before : DaemonState
  after : DaemonState
  deriving DecidableEq

/-- The daemon and the calls of each thread, the innermost first. -/
structure State (Tid : Type) where
  state : DaemonState
  frames : Tid → List Frame
  trail : List Entry

def State.initial {Tid : Type} : State Tid :=
  ⟨.stopped, fun _ => [], []⟩

inductive Label (Tid : Type)
  | call (thread : Tid) (routine : Routine)
  | access (thread : Tid) (fails : Bool)

/-- A call goes on after its first access, except for a shutdown that is not taken. -/
def step {Tid : Type} [DecidableEq Tid] (state : State Tid) : Label Tid → Option (State Tid)
  | .call thread routine =>
      some { state with
        frames := Function.update state.frames thread (⟨routine, false⟩ :: state.frames thread) }
  | .access thread fails =>
      match state.frames thread with
      | [] => none
      | frame :: outer =>
          let access := frame.access fails
          let next := access.store state.state
          let ends := frame.entered || (access = .request && state.state ≠ .running)
          some {
            state := next
            frames := Function.update state.frames thread
              (if ends then outer else ⟨frame.routine, true⟩ :: outer)
            trail := ⟨access, state.state, next⟩ :: state.trail }

/-- The number of shutdown sequences since the last start. -/
def sequences : List Entry → Nat
  | [] => 0
  | ⟨.initStart, _, _⟩ :: _ => 0
  | ⟨.request, .running, _⟩ :: trail => sequences trail + 1
  | _ :: trail => sequences trail

/-- What an access may do. -/
def Entry.Lawful (entry : Entry) : Prop :=
  (entry.before = .stopping → entry.after = .stopping ∨ entry.after = .stopped) ∧
  (entry.before = .stopped → entry.after = .stopped ∨ entry.access = .initStart) ∧
  (entry.access = .request → entry.before = .running ∨ entry.before = .reloading →
    entry.after = .stopping) ∧
  (entry.access = .initFail → entry.after = .stopped)

/-- The law of the life cycle. -/
structure Lawful (trail : List Entry) : Prop where
  entries : ∀ entry ∈ trail, entry.Lawful
  once : sequences trail ≤ 1

/-- A store finds the daemon neither stopping nor stopped, except for the one that starts
it; `init` does not fail; and a shutdown is not requested while the daemon reloads. -/
def Access.Orderly (state : DaemonState) : Access → Prop
  | .initStart => state ≠ .stopping
  | .initEnd | .reloadStart | .reloadEnd => state ≠ .stopping ∧ state ≠ .stopped
  | .initFail => state = .stopped
  | .request => state ≠ .reloading
  | .shutdownEnd => True

theorem lawful_store_iff (access : Access) (state : DaemonState) :
    Entry.Lawful ⟨access, state, access.store state⟩ ↔ access.Orderly state := by
  cases access <;> cases state <;> simp [Entry.Lawful, Access.Orderly, Access.store]

/-- What is known of the trail after each step.  After an orderly trail with a shutdown
sequence the daemon is stopping or stopped, so that no request is taken. -/
structure Recorded {Tid : Type} (state : State Tid) : Prop where
  stored : ∀ entry ∈ state.trail, entry.after = entry.access.store entry.before
  once : (∀ entry ∈ state.trail, entry.access.Orderly entry.before) → sequences state.trail = 0 ∨
    sequences state.trail = 1 ∧ (state.state = .stopping ∨ state.state = .stopped)

theorem Recorded.step {Tid : Type} [DecidableEq Tid] {state next : State Tid} {label : Label Tid}
    (recorded : Recorded state) (stepEq : step state label = some next) : Recorded next := by
  cases label with
  | call thread routine =>
    cases stepEq
    exact ⟨recorded.stored, recorded.once⟩
  | access thread fails =>
    rw [Daemon.step] at stepEq
    split at stepEq <;> cases stepEq
    next frame outer _ =>
      constructor
      · rintro entry (_ | ⟨_, old⟩)
        · rfl
        · exact recorded.stored entry old
      · intro orderly
        have first := orderly _ List.mem_cons_self
        have before := recorded.once fun entry old => orderly entry (List.mem_cons_of_mem _ old)
        generalize frame.access fails = access at first ⊢
        generalize state.state = current at first before ⊢
        cases access <;> cases current <;>
          simp_all [sequences, Access.store, Access.Orderly]

variable {Tid : Type} [DecidableEq Tid] {target : State Tid}

/-- In every run the law of the life cycle holds exactly if each access was orderly. -/
theorem lawful_iff_orderly (run : Reachable step State.initial target) :
    Lawful target.trail ↔ ∀ entry ∈ target.trail, entry.access.Orderly entry.before := by
  have recorded : Recorded target :=
    run.invariant Recorded ⟨fun _ old => absurd old List.not_mem_nil, fun _ => .inl rfl⟩
      fun _ _ _ inv _ stepEq => inv.step stepEq
  have lawful_iff (entry : Entry) (mem : entry ∈ target.trail) :
      entry.Lawful ↔ entry.access.Orderly entry.before := by
    rw [← lawful_store_iff, ← recorded.stored entry mem]
  constructor
  · intro lawful entry mem
    exact (lawful_iff entry mem).mp (lawful.entries entry mem)
  · intro orderly
    refine ⟨fun entry mem => (lawful_iff entry mem).mpr (orderly entry mem), ?_⟩
    rcases recorded.once orderly with none | ⟨one, -⟩ <;> omega

/-- The daemon starts, reloads, and is shut down by another thread. -/
def quietCycle : List (Label Bool) :=
  [.call false .init, .access false false, .access false false, .call false .reload,
    .access false false, .access false false, .call true .shutdown, .access true false,
    .access true false]

theorem lawful_iff_orderly_quietCycle :
    ∃ target, exec step (State.initial : State Bool) quietCycle = some target ∧
      target.state = .stopped ∧ target.trail.length = 6 ∧ Lawful target.trail := by
  refine exists_exec (fun state => state.state = .stopped ∧
    state.trail = [⟨.shutdownEnd, .stopping, .stopped⟩,
      ⟨.request, .running, .stopping⟩, ⟨.reloadEnd, .reloading, .running⟩,
      ⟨.reloadStart, .running, .reloading⟩, ⟨.initEnd, .starting, .running⟩,
      ⟨.initStart, .stopped, .starting⟩]) (by decide) ?_
  rintro target targetEq ⟨stopped, trail⟩
  refine ⟨stopped, by rw [trail]; rfl, (lawful_iff_orderly (reachable_of_exec targetEq)).mpr ?_⟩
  simp [trail, Access.Orderly]

/-- The user's callback fails, and then succeeds; a shutdown is requested during a reload,
and again after it; and another reload begins while the daemon is stopping. -/
def brokenCycle : List (Label Bool) :=
  [.call false .init, .access false false, .access false true,
    .call false .init, .access false false, .access false false,
    .call false .reload, .access false false, .call true .shutdown, .access true false,
    .access false false, .call true .shutdown, .access true false,
    .call false .reload, .access false false, .access false false,
    .call false .shutdown, .access false false]

theorem not_lawful_brokenCycle : ∃ target : State Bool, Reachable step State.initial target ∧
      ⟨.initFail, .starting, .starting⟩ ∈ target.trail ∧
      ⟨.request, .reloading, .reloading⟩ ∈ target.trail ∧
      ⟨.reloadStart, .stopping, .reloading⟩ ∈ target.trail ∧ sequences target.trail = 2 ∧
      ¬ Lawful target.trail := by
  refine exists_reachable brokenCycle (fun state =>
    ⟨.initFail, .starting, .starting⟩ ∈ state.trail ∧
      ⟨.request, .reloading, .reloading⟩ ∈ state.trail ∧
      ⟨.reloadStart, .stopping, .reloading⟩ ∈ state.trail ∧ sequences state.trail = 2) (by decide) ?_
  rintro target ⟨failed, lost, left, twice⟩
  refine ⟨failed, lost, left, twice, fun lawful => ?_⟩
  exact absurd (twice ▸ lawful.once) (by decide)

end QDaemon.Daemon
