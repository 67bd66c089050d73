import Mathlib.Data.List.Find
import QDaemon.Ipc.Codec

/-!
# Services of the IPC server

`qd_ipc_server_register_service` puts a name and its handler at the head of the
server's list, `qd_ipc_server_unregister_service` takes the first entry of a
name out again, and `process_message` calls the first handler that is registered
under the service of the message.  The list and the message keep 63 bytes of a
name, while `qd_ipc_server_unregister_service` compares with the whole name.
-/

namespace QDaemon.Ipc

open Bytes Common List

/-- A string that a caller passes as a name. -/
abbrev Name := { bytes : List Byte // 0 ∉ bytes }

/-- `strncpy` of 63 bytes into an array for a name whose last byte is zero. -/
def copyName (name : Name) : NameField :=
  ⟨rightpad ipcMaxNameLen 0 (name.val.take (ipcMaxNameLen - 1)), by
    rw [length_rightpad, max_eq_left]
    exact (length_take_le _ _).trans (Nat.sub_le _ _)⟩

/-- `qd_ipc_msg_set_service`. -/
def msgSetService (msg : IpcMsg) (service : Name) : IpcMsg :=
  { msg with service := copyName service }

/-- `qd_ipc_service_t`; a handler is the function with its argument. -/
structure Service (H : Type) where
  name : NameField
  handler : H

variable {H : Type}

/-- `strcmp` finds the name of a service equal to a string. -/
def Service.named (name : List Byte) (service : Service H) : Bool :=
  cString service.name.val = name

/-- The handlers by message type and the services of `qd_ipc_server_t`. -/
structure Registry (H : Type) where
  handlers : Nat → Option H
  services : List (Service H)

/-- The service that a registration makes. -/
def service (entry : Name × H) : Service H :=
  ⟨copyName entry.1, entry.2⟩

/-- A call by the program. -/
inductive RegistryCall (H : Type)
  | registerService (name : Name) (handler : H)
  | unregisterService (name : Name)

namespace Registry

variable (server : Registry H)

/-- `qd_ipc_server_register_service`. -/
def registerService (name : Name) (handler : H) : Registry H :=
  { server with services := service (name, handler) :: server.services }

/-- `qd_ipc_server_unregister_service`. -/
def unregisterService (name : Name) : Except Int (Registry H) :=
  if server.services.any (Service.named name.val) then
    .ok { server with services := server.services.eraseP (Service.named name.val) }
  else .error qdErrNoent

/-- The handler that `process_message` calls, if any. -/
def processMessage (msg : IpcMsg) : Option H :=
  let msgType := msg.header.msgType.toNat
  let name := cString msg.service.val
  (if 0 < msgType ∧ msgType < 16 then server.handlers msgType else none).or
    (if name = [] then none else (server.services.find? (Service.named name)).map Service.handler)

def call : RegistryCall H → Registry H
  | .registerService name handler => server.registerService name handler
  | .unregisterService name => (server.unregisterService name).toOption.getD server

end Registry

/-- The registrations that have not been taken back, latest first. -/
def register (registered : List (Name × H)) : RegistryCall H → List (Name × H)
  | .registerService name handler => (name, handler) :: registered
  | .unregisterService name => registered.eraseP (·.1 = name)

/-- A request encoded for `name` is dispatched to the handler that was registered
for it last, or to none, and the name can be unregistered while it is registered. -/
def Serves (server : Registry H) (registered : List (Name × H)) (name : Name) : Prop :=
  (∀ memory msg, WellFormedMsg msg → ∃ received,
    msgDeserialize (msgSerialize memory (msgSetService msg name)) = .ok received ∧
      server.processMessage received = (registered.find? (·.1 = name)).map Prod.snd) ∧
    (name ∈ registered.map Prod.fst → ∃ next, server.unregisterService name = .ok next)

/-- A name that is neither empty nor longer than 63 bytes. -/
def Name.Short (name : Name) : Prop :=
  name.val ≠ [] ∧ name.val.length < ipcMaxNameLen

/-! ## Copied names -/

theorem zero_mem_copyName (name : Name) : 0 ∈ (copyName name).val := by
  have room : ipcMaxNameLen - (name.val.take (ipcMaxNameLen - 1)).length ≠ 0 := by
    rw [length_take, ipcMaxNameLen]
    omega
  exact mem_append_right _ (mem_replicate.mpr ⟨room, rfl⟩)

theorem cString_copyName {name : Name} (short : name.val.length < ipcMaxNameLen) :
    cString (copyName name).val = name.val := by
  have all : ∀ byte ∈ name.val, decide (byte ≠ 0) = true := fun byte mem =>
    decide_eq_true fun zero => name.property (zero ▸ mem)
  have copied : (copyName name).val = name.val ++ replicate (ipcMaxNameLen - name.val.length) 0 :=
    congrArg (rightpad ipcMaxNameLen 0) (take_of_length_le (Nat.le_sub_one_of_lt short))
  rw [copied, cString, takeWhile_append_of_pos all]
  simp

theorem named_service {entry : Name × H} (short : entry.1.Short) (name : Name) :
    (service entry).named name.val = decide (entry.1 = name) := by
  rw [service, Service.named, cString_copyName short.2]
  exact decide_eq_decide.mpr Subtype.ext_iff.symm

/-! ## Sequences of calls -/

/-- The services are those of the registrations, and all names are short. -/
structure Recorded (server : Registry H) (registered : List (Name × H)) : Prop where
  handlers : server.handlers = fun _ => none
  services : server.services = registered.map service
  short : ∀ entry ∈ registered, entry.1.Short

variable {server : Registry H} {registered : List (Name × H)}

theorem eraseP_service (short : ∀ entry ∈ registered, entry.1.Short) (name : Name) :
    (registered.map service).eraseP (Service.named name.val) =
      (registered.eraseP (·.1 = name)).map service := by
  induction registered with
  | nil => rfl
  | cons entry registered ih =>
    obtain ⟨head, tail⟩ := forall_mem_cons.mp short
    rw [map_cons, eraseP_cons, eraseP_cons, named_service head, ih tail]
    cases decide (entry.1 = name) <;> rfl

section

variable (recorded : Recorded server registered) (name : Name)
include recorded

/-- Unregistering takes the latest registration of the name out of the list, and
fails when there is none. -/
theorem Recorded.unregisterService_eq : server.unregisterService name =
      if name ∈ registered.map Prod.fst then
        .ok { server with services := (registered.eraseP (·.1 = name)).map service }
      else .error qdErrNoent := by
  rw [Registry.unregisterService, recorded.services, eraseP_service recorded.short]
  refine if_congr ?_ rfl rfl
  rw [any_map, any_eq_true, mem_map]
  refine exists_congr fun entry => and_congr_right fun mem => ?_
  rw [Function.comp, named_service (recorded.short entry mem), decide_eq_true_iff]

theorem Recorded.processMessage_eq {msg : IpcMsg} (nameEq : cString msg.service.val = name.val) :
    server.processMessage msg = (registered.find? (·.1 = name)).map Prod.snd := by
  have found : (registered.map service).find? (Service.named name.val) =
      (registered.find? (·.1 = name)).map service := by
    rw [find?_map]
    exact congrArg _ (find?_congr fun entry mem => named_service (recorded.short entry mem) name)
  rw [Registry.processMessage, recorded.handlers, nameEq, recorded.services, found, ite_self,
    Option.none_or, Option.map_map]
  split
  next empty =>
    have missing : registered.find? (·.1 = name) = none := by
      refine find?_eq_none.mpr fun entry mem same => (recorded.short entry mem).1 ?_
      rw [of_decide_eq_true same, empty]
    rw [missing, Option.map_none]
  · rfl

theorem Recorded.serves (short : name.val.length < ipcMaxNameLen) :
    Serves server registered name := by
  constructor
  · intro memory msg wellFormed
    have encoded : WellFormedMsg (msgSetService msg name) :=
      { wellFormed with terminated := zero_mem_copyName name }
    obtain ⟨long, receivedEq⟩ := encoded.msgDeserialize_append memory []
    rw [append_nil] at receivedEq
    refine ⟨_, receivedEq, recorded.processMessage_eq name ?_⟩
    exact (cString_loadService (copyName name).property (zero_mem_copyName name) long).trans
      (cString_copyName short)
  · intro mem
    rw [recorded.unregisterService_eq, if_pos mem]
    exact ⟨_, rfl⟩

theorem Recorded.unregister :
    Recorded (server.call (.unregisterService name)) (registered.eraseP (·.1 = name)) := by
  have short : ∀ entry ∈ registered.eraseP (·.1 = name), entry.1.Short := fun entry mem =>
    recorded.short entry (mem_of_mem_eraseP mem)
  rw [Registry.call, recorded.unregisterService_eq]
  split
  · exact ⟨recorded.handlers, rfl, short⟩
  next missing =>
    have same : registered.eraseP (·.1 = name) = registered := by
      refine eraseP_of_forall_not fun entry mem same => missing ?_
      exact mem_map.mpr ⟨entry, mem, of_decide_eq_true same⟩
    rw [same]
    exact recorded

theorem Recorded.calls {calls : List (RegistryCall H)}
    (short : ∀ name handler, .registerService name handler ∈ calls → name.Short) :
    Recorded (calls.foldl Registry.call server) (calls.foldl register registered) := by
  induction calls generalizing server registered with
  | nil => exact recorded
  | cons call calls ih =>
    refine ih ?_ fun name handler mem => short name handler (mem_cons_of_mem call mem)
    rcases call with ⟨name, handler⟩ | name
    · exact ⟨recorded.handlers, congrArg (_ :: ·) recorded.services,
        forall_mem_cons.mpr ⟨short name handler mem_cons_self, recorded.short⟩⟩
    · exact recorded.unregister name

end

/-- A name of equal letters. -/
def letters (length : Nat) : Name :=
  ⟨replicate length 97, by simp [mem_replicate]⟩

end QDaemon.Ipc
