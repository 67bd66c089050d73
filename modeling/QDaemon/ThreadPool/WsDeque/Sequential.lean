import QDaemon.ThreadPool.WsDeque.Core

/-!
# Undisturbed deque operations

What `qd_wsdeque_push`, `qd_wsdeque_pop` and `qd_wsdeque_steal` do when no other
thread is in the deque: the result of running the atomic steps of one call to
its end.
-/

namespace QDaemon.ThreadPool.WsDeque

open Option Function Transition

universe u v

variable {Task : Type u} {Tid : Type v} (deque : WsDeque Task)

/-- `qd_wsdeque_push`, with whether it returned zero. -/
def wsdequePush (task : Task) : WsDeque Task × Bool :=
  if deque.capacity - 1 ≤ (deque.bottom + 2 ^ 64 - deque.top) % 2 ^ 64 then (deque, false)
  else ({ deque with
    buffer := update deque.buffer (deque.bottom &&& (deque.capacity - 1)) (some task)
    bottom := (deque.bottom + 1) % 2 ^ 64 }, true)

/-- `qd_wsdeque_pop`. -/
def wsdequePop : WsDeque Task × Option Task :=
  if deque.bottom = 0 then (deque, none)
  else
    let bottom := deque.bottom - 1
    if deque.top ≤ bottom then
      if deque.top = bottom then
        ({ deque with top := (deque.top + 1) % 2 ^ 64, bottom := (bottom + 1) % 2 ^ 64 },
          deque.slot bottom)
      else ({ deque with bottom := bottom }, deque.slot bottom)
    else ({ deque with bottom := (bottom + 1) % 2 ^ 64 }, none)

/-- `qd_wsdeque_steal`. -/
def wsdequeSteal : WsDeque Task × Option Task :=
  if deque.bottom ≤ deque.top then (deque, none)
  else ({ deque with top := (deque.top + 1) % 2 ^ 64 }, deque.slot deque.top)

section Agreement

variable [DecidableEq Tid] (state : State Task Tid)

end Agreement

end QDaemon.ThreadPool.WsDeque
