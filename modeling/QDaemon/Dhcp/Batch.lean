import Mathlib.Data.List.Basic

/-!
# Batches of DHCP commands

A batch is a queue of commands for the peer.  With `QD_DHCP_BATCH_ATOMIC` its execution
stops at the first command that fails and reports that it has rolled the batch back, but
nothing undoes the commands before it.
-/

namespace QDaemon.Dhcp

universe u v

/-- `QD_DHCP_OK` and the errors that an execution reports itself. -/
def dhcpOk : Int := 0

@[inherit_doc dhcpOk]
def dhcpErr : Int := -1

@[inherit_doc dhcpOk]
def dhcpErrAborted : Int := -12

/-- `qd_dhcp_batch_op_t`. -/
inductive BatchOp (Iface Binding Mac : Type u)
  | addIface (iface : Iface)
  | delIface (ifindex : Int)
  | setTrusted (ifindex : Int) (trusted : Bool)
  | addBinding (binding : Binding)
  | delBinding (mac : Mac)

/-- The calls of the connection: what each returns, and what is on its other side then. -/
structure Conn (World Iface Binding Mac : Type u) where
  addInterface : Iface → World → World × Int
  delInterface : Int → World → World × Int
  setTrusted : Int → Bool → World → World × Int
  addBinding : Binding → World → World × Int
  delBinding : Mac → World → World × Int

variable {World Iface Binding Mac : Type u} {Peer : Type v}

/-- The call for an operation. -/
def Conn.perform (conn : Conn World Iface Binding Mac) :
    BatchOp Iface Binding Mac → World → World × Int
  | .addIface iface => conn.addInterface iface
  | .delIface ifindex => conn.delInterface ifindex
  | .setTrusted ifindex trusted => conn.setTrusted ifindex trusted
  | .addBinding binding => conn.addBinding binding
  | .delBinding mac => conn.delBinding mac

/-- `struct qd_dhcp_batch`, with the queue as a list. -/
structure Batch (Iface Binding Mac : Type u) where
  flags : BitVec 32
  ops : List (BatchOp Iface Binding Mac)

/-- The variables of `qd_dhcp_batch_execute`, with the part of `errors` that is written. -/
structure Execution (World : Type u) where
  world : World
  succeeded : Nat
  failed : Nat
  errors : List Int
  rolledBack : Bool

/-- `QD_DHCP_BATCH_ATOMIC` without `QD_DHCP_BATCH_CONTINUE`. -/
def Batch.Atomic (batch : Batch Iface Binding Mac) : Prop :=
  batch.flags &&& 0x01 ≠ 0 ∧ batch.flags &&& 0x04 = 0

instance (batch : Batch Iface Binding Mac) : Decidable batch.Atomic :=
  inferInstanceAs (Decidable (_ ∧ _))

/-- The loop of `qd_dhcp_batch_execute`. -/
def executeOps (conn : Conn World Iface Binding Mac) (atomic : Bool) :
    List (BatchOp Iface Binding Mac) → Execution World → Execution World
  | [], exec => exec
  | op :: rest, exec =>
      let called := conn.perform op exec.world
      let exec := { exec with world := called.1, errors := exec.errors ++ [called.2] }
      if called.2 = dhcpOk then
        executeOps conn atomic rest { exec with succeeded := exec.succeeded + 1 }
      else if atomic then
        { exec with
          failed := exec.failed + 1
          errors := exec.errors ++ List.replicate rest.length dhcpErrAborted
          rolledBack := true }
      else executeOps conn atomic rest { exec with failed := exec.failed + 1 }

/-- `qd_dhcp_batch_execute`: its result, the variables that it reports, and the batch, which
is cleared. -/
def batchExecute (conn : Conn World Iface Binding Mac) (batch : Batch Iface Binding Mac)
    (world : World) : Int × Execution World × Batch Iface Binding Mac :=
  let exec := executeOps conn (decide batch.Atomic) batch.ops ⟨world, 0, 0, [], false⟩
  (if exec.failed > 0 then dhcpErr else dhcpOk, exec, { batch with ops := [] })

/-- A batch that is reported as rolled back has had no effect, and none of its operations is
reported as done. -/
def AllOrNothing (peer : World → Peer) (conn : Conn World Iface Binding Mac)
    (batch : Batch Iface Binding Mac) (world : World) : Prop :=
  let done := batchExecute conn batch world
  done.1 ≠ dhcpOk → done.2.1.rolledBack = true →
    peer done.2.1.world = peer world ∧ ∀ error ∈ done.2.1.errors, error ≠ dhcpOk

/-- Every operation succeeds. -/
def Succeed (conn : Conn World Iface Binding Mac) : List (BatchOp Iface Binding Mac) → World → Prop
  | [], _ => True
  | op :: rest, world =>
      (conn.perform op world).2 = dhcpOk ∧ Succeed conn rest (conn.perform op world).1

/-- The first operation fails and leaves the peer as it was. -/
def FailsFirst (peer : World → Peer) (conn : Conn World Iface Binding Mac) (world : World) :
    List (BatchOp Iface Binding Mac) → Prop
  | [] => False
  | op :: _ => (conn.perform op world).2 ≠ dhcpOk ∧ peer (conn.perform op world).1 = peer world

variable {conn : Conn World Iface Binding Mac} {ops : List (BatchOp Iface Binding Mac)}

theorem executeOps_of_succeed {exec : Execution World} (succeed : Succeed conn ops exec.world)
    (atomic : Bool) : (executeOps conn atomic ops exec).rolledBack = exec.rolledBack := by
  induction ops generalizing exec with
  | nil => rfl
  | cons op rest ih =>
    rw [executeOps, if_pos succeed.1]
    exact ih succeed.2

/-- What has been reported before a failure stays reported. -/
theorem executeOps_of_not_succeed (exec : Execution World) (fails : ¬ Succeed conn ops exec.world) :
    let after := executeOps conn true ops exec
    exec.failed < after.failed ∧ after.rolledBack = true ∧ exec.errors <+: after.errors := by
  induction ops generalizing exec with
  | nil => exact absurd trivial fails
  | cons op rest ih =>
    rw [executeOps]
    split
    next done =>
      have later : ¬ Succeed conn rest (conn.perform op exec.world).1 :=
        fun succeed => fails ⟨done, succeed⟩
      obtain ⟨more, rolled, grown⟩ := ih ⟨_, exec.succeeded + 1, exec.failed, _, _⟩ later
      exact ⟨more, rolled, (List.prefix_append _ _).trans grown⟩
    · refine ⟨Nat.lt_succ_self _, rfl, ?_⟩
      rw [List.append_assoc]
      exact List.prefix_append _ _

/-- An atomic batch is all or nothing if and only if all of its operations succeed, or its
first operation fails and leaves the peer as it was. -/
theorem allOrNothing_iff (peer : World → Peer) (conn : Conn World Iface Binding Mac)
    {batch : Batch Iface Binding Mac} (atomic : batch.Atomic) (world : World) :
    AllOrNothing peer conn batch world ↔
      Succeed conn batch.ops world ∨ FailsFirst peer conn world batch.ops := by
  obtain ⟨flags, ops⟩ := batch
  simp only [AllOrNothing, batchExecute, decide_eq_true atomic]
  by_cases succeed : Succeed conn ops world
  · refine iff_of_true ?_ (.inl succeed)
    rw [executeOps_of_succeed succeed]
    rintro _ ⟨⟩
  · obtain ⟨failed, rolled, -⟩ := executeOps_of_not_succeed ⟨world, 0, 0, [], false⟩ succeed
    rw [if_pos failed]
    simp only [rolled, succeed, false_or, ne_eq, dhcpErr, dhcpOk, not_false_eq_true, forall_const,
      show (-1 : Int) ≠ 0 by decide]
    cases ops with
    | nil => exact absurd trivial succeed
    | cons op rest =>
      by_cases done : (conn.perform op world).2 = dhcpOk
      · refine iff_of_false ?_ fun first => first.1 done
        -- the first operation is reported as done
        rintro ⟨-, errors⟩
        rw [executeOps, if_pos done] at errors
        have later : ¬ Succeed conn rest (conn.perform op world).1 :=
          fun further => succeed ⟨done, further⟩
        obtain ⟨-, -, grown⟩ := executeOps_of_not_succeed ⟨_, 0 + 1, 0, _, false⟩ later
        exact errors _ (grown.subset (List.mem_singleton_self _)) done
      · rw [executeOps, if_neg done]
        refine ⟨fun holds => ⟨done, holds.1⟩, fun first => ⟨first.2, ?_⟩⟩
        intro error reported
        rcases List.mem_cons.mp reported with rfl | aborted
        · exact done
        · rw [List.eq_of_mem_replicate aborted]
          decide

/-- A peer with room for one interface. -/
def oneRoom : Conn (List Nat) Nat Nat Nat where
  addInterface iface peer := if peer = [] then ([iface], dhcpOk) else (peer, -6)
  delInterface _ peer := (peer, -5)
  setTrusted _ _ peer := (peer, -5)
  addBinding _ peer := (peer, -5)
  delBinding _ peer := (peer, -5)

/-- The peer has no interface to delete. -/
theorem allOrNothing_delFirst : AllOrNothing id oneRoom ⟨0x01, [.delIface 7, .addIface 1]⟩ [] := by
  refine (allOrNothing_iff id oneRoom (by decide) []).mpr (.inr ⟨?_, rfl⟩)
  decide

/-- The second interface does not fit, and the first one stays. -/
theorem not_allOrNothing_oneRoom :
    ¬ AllOrNothing id oneRoom ⟨0x01, [.addIface 1, .addIface 2]⟩ [] := by
  intro holds
  have kept := (holds (by decide) rfl).1
  cases kept

end QDaemon.Dhcp
