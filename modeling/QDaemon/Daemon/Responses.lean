import QDaemon.Bytes.LittleEndian
import QDaemon.Transition.Run

/-!
# Responses of handlers

`qd_handler.c`: the response of a context is set, appended to or allocated in a buffer
that the calls share.  Appending makes the buffer larger, but setting a response keeps a
buffer that is there, and stores only the part of the data that fits into it.
-/

namespace QDaemon.Handler

open Option List Bytes Transition

/-- The fields of `qd_handler_ctx_t` for the response. -/
structure Context where
  response : Option (List Byte)
  responseLen : Nat
  responseCap : Nat

/-- `PTRDIFF_MAX`: no object is larger. -/
def ptrdiffMax : Nat := 2 ^ 63 - 1

/-- `realloc`, and `malloc` if there are no old bytes.  There is no answer if it returns
`NULL`; otherwise the answer has what the new bytes hold. -/
def realloc (old : List Byte) (size : Nat) (answer : Option (Nat → Byte)) : Option (List Byte) :=
  if size ≤ ptrdiffMax then
    answer.map fun fill => old.take size ++ (range (size - old.length)).map fill
  else none

/-- `memcpy` into a buffer, which has no result if it writes outside of it. -/
def memcpy (buffer : List Byte) (offset : Nat) (data : List Byte) : Option (List Byte) :=
  if offset + data.length ≤ buffer.length then
    some (buffer.take offset ++ data ++ buffer.drop (offset + data.length))
  else none

/-- The loop of `qd_handler_ctx_append_response`. -/
def growCap (newLen : Nat) : Nat → Nat → Option Nat
  | 0, _ => none
  | rounds + 1, newCap =>
      if newCap < newLen then growCap newLen rounds (newCap * 2 % 2 ^ 64) else some newCap

namespace Context

/-- `qd_handler_ctx_init`. -/
def init : Context := ⟨none, 0, 0⟩

variable (ctx : Context)

/-- The bytes at `response`. -/
def buffer : List Byte := ctx.response.getD []

/-- The bytes `response[0..response_len)`. -/
def content : List Byte := ctx.buffer.take ctx.responseLen

/-- The end of a call that stores the data. -/
def store (offset len : Nat) (data : List Byte) : Option (Context × Bool) :=
  (memcpy ctx.buffer offset data).map fun buffer =>
    ({ ctx with response := ctx.response.map fun _ => buffer, responseLen := len }, true)

/-- `qd_handler_ctx_set_response`. -/
def setResponse (data : List Byte) (answer : Option (Nat → Byte)) : Option (Context × Bool) :=
  if ctx.response.isSome ∧ 0 < ctx.responseCap then
    let len := min data.length ctx.responseCap
    ctx.store 0 len (data.take len)
  else
    match realloc [] data.length answer with
    | none => some ({ ctx with response := none }, false)
    | some buffer =>
        store ⟨some buffer, ctx.responseLen, data.length⟩ 0 data.length data

/-- `qd_handler_ctx_append_response`. -/
def appendResponse (data : List Byte) (rounds : Nat) (answer : Option (Nat → Byte)) :
    Option (Context × Bool) :=
  let newLen := (ctx.responseLen + data.length) % 2 ^ 64
  if newLen > ctx.responseCap then
    (growCap newLen rounds
      (if ctx.responseCap = 0 then 256 else ctx.responseCap * 2 % 2 ^ 64)).bind fun newCap =>
        match realloc ctx.buffer newCap answer with
        | none => some (ctx, false)
        | some buffer =>
            store ⟨some buffer, ctx.responseLen, newCap⟩ ctx.responseLen newLen data
  else ctx.store ctx.responseLen newLen data

/-- `qd_handler_ctx_alloc_response`, which fails if it returns `NULL`. -/
def allocResponse (len : Nat) (answer : Option (Nat → Byte)) : Context × Bool :=
  if ctx.responseCap ≥ len then ({ ctx with responseLen := len }, ctx.response.isSome)
  else
    match realloc ctx.buffer len answer with
    | none => (ctx, false)
    | some buffer => (⟨some buffer, len, len⟩, true)

end Context

/-! ## Calls -/

/-- A call, and what the allocator answers. -/
inductive Call
  | set (data : List Byte) (answer : Option (Nat → Byte))
  | append (data : List Byte) (rounds : Nat) (answer : Option (Nat → Byte))
  | alloc (len : Nat) (answer : Option (Nat → Byte))

/-- The context after a call, and whether the call reports success. -/
def Context.call (ctx : Context) : Call → Option (Context × Bool)
  | .set data answer => ctx.setResponse data answer
  | .append data rounds answer => ctx.appendResponse data rounds answer
  | .alloc len answer => some (ctx.allocResponse len answer)

def step : Step Context Call := fun ctx call => (ctx.call call).map Prod.fst

/-- The response is what the call specifies. -/
def Specified (ctx next : Context) : Call → Prop
  | .set data _ => next.content = data
  | .append data _ _ => next.content = ctx.content ++ data
  | .alloc len _ => next.content.length = len

/-- The call does not set a response that is larger than the buffer of the context. -/
def Roomy (ctx : Context) : Call → Prop
  | .set data _ => ctx.response.isSome → 0 < ctx.responseCap → data.length ≤ ctx.responseCap
  | _ => True

/-- The buffer has its capacity, and the response is in it. -/
structure Sound (ctx : Context) : Prop where
  length : ctx.buffer.length = ctx.responseCap
  small : ctx.responseCap ≤ ptrdiffMax
  inside : ctx.responseLen ≤ ctx.responseCap

variable {ctx next : Context} {status : Bool} {data old buffer written : List Byte}
  {offset len size : Nat} {answer : Option (Nat → Byte)}

theorem realloc_spec (returned : realloc old size answer = some buffer) :
    buffer.length = size ∧ size ≤ ptrdiffMax ∧
      ∀ count ≤ size, count ≤ old.length → buffer.take count = old.take count := by
  rw [realloc] at returned
  split at returned
  next small =>
    obtain ⟨fill, -, rfl⟩ := map_eq_some_iff.mp returned
    refine ⟨?_, small, ?_⟩
    · simp only [length_append, length_take, length_map, length_range]
      omega
    · intro count inside available
      rw [take_append_of_le_length (by rw [length_take]; omega), take_take, Nat.min_eq_left inside]
  · cases returned

theorem memcpy_spec (copied : memcpy buffer offset data = some written) :
    offset + data.length ≤ buffer.length ∧ written.length = buffer.length ∧
      written.take (offset + data.length) = buffer.take offset ++ data := by
  rw [memcpy] at copied
  split at copied
  next inside =>
    cases copied
    have front : (buffer.take offset ++ data).length = offset + data.length := by
      rw [length_append, length_take, Nat.min_eq_left (by omega)]
    refine ⟨inside, ?_, take_left' front⟩
    rw [length_append, front, length_drop]
    omega
  · cases copied

/-- The data stands behind what is kept of the buffer. -/
theorem store_spec (length : ctx.buffer.length = ctx.responseCap)
    (small : ctx.responseCap ≤ ptrdiffMax)
    (lenEq : offset + data.length < 2 ^ 64 → len = offset + data.length)
    (returned : ctx.store offset len data = some (next, status)) :
    Sound next ∧ next.content = ctx.buffer.take offset ++ data ∧ offset ≤ ctx.responseCap := by
  obtain ⟨written, copied, nextEq⟩ := map_eq_some_iff.mp returned
  cases nextEq
  obtain ⟨inside, same, front⟩ := memcpy_spec copied
  have kept : (ctx.response.map fun _ => written).getD [] = written := by
    cases present : ctx.response with
    | none =>
      rw [Context.buffer, present] at same
      exact (length_eq_zero_iff.mp same).symm
    | some _ => rfl
  obtain rfl := lenEq (by simp only [ptrdiffMax] at small; omega)
  refine ⟨⟨?_, small, length ▸ inside⟩, ?_, by omega⟩
  · rw [Context.buffer, kept, same, length]
  · rw [Context.content, Context.buffer, kept, front]

/-- A call keeps the response in the buffer, and if it reports success the response is
what the call specifies, unless it sets one that is larger than the buffer. -/
theorem Sound.call {call : Call} (sound : Sound ctx)
    (returned : ctx.call call = some (next, status)) :
    Sound next ∧ (status = true → (Specified ctx next call ↔ Roomy ctx call)) := by
  cases call with
  | set data answer =>
    simp only [Context.call, Context.setResponse] at returned
    split at returned
    next present =>
      obtain ⟨after, content, -⟩ := store_spec sound.length sound.small
        (fun _ => by rw [length_take]; omega) returned
      refine ⟨after, fun _ => ?_⟩
      rw [Specified, content, take_zero, nil_append, take_eq_self_iff]
      constructor
      · intro whole _ _
        exact Nat.le_trans whole (Nat.min_le_right _ _)
      · intro roomy
        exact Nat.le_min.mpr ⟨le_rfl, roomy present.1 present.2⟩
    next absent =>
      split at returned
      · cases returned
        have empty : 0 = ctx.responseCap := by
          have length := sound.length
          cases present : ctx.response with
          | none => rwa [Context.buffer, present] at length
          | some _ =>
            exact (Nat.eq_zero_of_not_pos fun positive => absent ⟨present ▸ rfl, positive⟩).symm
        exact ⟨⟨empty, sound.small, sound.inside⟩, nofun⟩
      next buffer allocated =>
        obtain ⟨size, limit, -⟩ := realloc_spec allocated
        obtain ⟨after, content, -⟩ := store_spec (by exact size) limit
          (fun _ => (Nat.zero_add _).symm) returned
        exact ⟨after, fun _ => iff_of_true content fun present positive =>
          absurd ⟨present, positive⟩ absent⟩
  | append data rounds answer =>
    simp only [Context.call, Context.appendResponse] at returned
    split at returned
    · obtain ⟨newCap, -, rest⟩ := bind_eq_some_iff.mp returned
      split at rest
      · cases rest
        exact ⟨sound, nofun⟩
      next buffer allocated =>
        obtain ⟨size, limit, kept⟩ := realloc_spec allocated
        obtain ⟨after, content, fits⟩ := store_spec (by exact size) limit Nat.mod_eq_of_lt rest
        refine ⟨after, fun _ => iff_of_true ?_ trivial⟩
        rw [Specified, content]
        exact congrArg (· ++ data) (kept ctx.responseLen fits (sound.length.symm ▸ sound.inside))
    · obtain ⟨after, content, -⟩ := store_spec sound.length sound.small Nat.mod_eq_of_lt returned
      exact ⟨after, fun _ => iff_of_true content trivial⟩
  | alloc len answer =>
    simp only [Context.call, Context.allocResponse] at returned
    split at returned
    next enough =>
      cases returned
      refine ⟨⟨sound.length, sound.small, enough⟩, fun _ => iff_of_true ?_ trivial⟩
      exact length_take_of_le (sound.length.symm ▸ enough)
    · split at returned
      · cases returned
        exact ⟨sound, nofun⟩
      next buffer allocated =>
        cases returned
        obtain ⟨size, limit, -⟩ := realloc_spec allocated
        refine ⟨⟨size, limit, le_rfl⟩, fun _ => iff_of_true ?_ trivial⟩
        exact length_take_of_le (Nat.le_of_eq size.symm)

/-- After any calls the response is in its buffer, and a call that reports success leaves
the response that it specifies, unless it sets one that is larger than the buffer. -/
theorem response_complete_iff (run : Reachable step .init ctx) : ctx.responseLen ≤ ctx.responseCap ∧
      ∀ call next, ctx.call call = some (next, true) →
        (Specified ctx next call ↔ Roomy ctx call) := by
  have sound : Sound ctx := by
    apply run.invariant Sound ⟨rfl, Nat.zero_le _, le_rfl⟩
    intro state call later before _ stepEq
    obtain ⟨⟨_, status⟩, called, rfl⟩ := map_eq_some_iff.mp stepEq
    exact (before.call called).1
  exact ⟨sound.inside, fun call next called => (sound.call called).2 rfl⟩

/-- A response is set, and then another byte appended. -/
theorem response_complete_iff_appended :
    ∃ ctx next, exec step .init [.set [1] (some fun _ => 0)] = some ctx ∧
      ctx.call (.append [2] 2 (some fun _ => 0)) = some (next, true) ∧
      next.content = ctx.content ++ [2] := by
  have run : exec step .init [.set [1] (some fun _ => 0)] = some ⟨some [1], 1, 1⟩ := rfl
  have called : Context.call ⟨some [1], 1, 1⟩ (.append [2] 2 (some fun _ => 0)) = _ := rfl
  exact ⟨_, _, run, called, ((response_complete_iff (reachable_of_exec run)).2 _ _ called).mpr trivial⟩

/-- A response of two bytes is set after one of one byte, and the second byte is lost. -/
theorem set_truncates : ∃ ctx next, exec step .init [.set [1] (some fun _ => 0)] = some ctx ∧
      ctx.call (.set [1, 2] none) = some (next, true) ∧ next.content = [1] :=
  ⟨_, _, rfl, rfl, rfl⟩

end QDaemon.Handler
