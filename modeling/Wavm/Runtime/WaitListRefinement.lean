import Wavm.Runtime.WaitListMap

/-! # The code refines the design, until a list is deleted twice

`waiters s` is what the design (`Waiters`, in `WaitQueues`) sees of a state of the
code's model: for each address, the events of the list the map has for it; for
each thread, its `threadWakeEvent`. In every run in which no list is deleted twice:

* each step of thread `t` is a step of `t` in the design (`ListEffect.refines`):
  registering (line 144) is `enqueue`, the timed-out waiter's erase (line 158) is
  `cancel`, the critical section of `wakeAddress` is `take`, `waitForEvent`
  consuming the event is `consume`, and every other step, creating and deleting
  lists included, changes nothing the design sees;
* so the state is the view of a reachable state of the design, and the design's
  invariant holds of it (`waitLists_refine_design`);
* and the design loses no waiter: a step of another thread that takes a waiter off
  its address's queue signals its event (`waiter_leaves_signaled`).

The second delete of `secondDelete` is where this stops: thread 0's re-check of a
freed list takes thread 2 off the queue of address 0 and signals nothing
(`second_delete_loses_waiter`).
-/

namespace Wavm.Runtime.WaitWake

variable {n : Nat} {s s' : State n}

/-- The events of the list the map has for `address`: the design's queue. -/
def queueOf (s : State n) (address : Nat) : List (Fin n) :=
  match s.addressToWaitListMap address with
  | some w => (s.heap w).wakeEvents
  | none => []

theorem queueOf_of_map {a w : Nat} (h : s.addressToWaitListMap a = some w) :
    queueOf s a = (s.heap w).wakeEvents := by
  simp [queueOf, h]

/-- What a thread may do to the list it holds, it may do to its address's queue. -/
theorem QueueOp.Enabled.queueOf {t : Fin n} {op : QueueOp} {w : Nat}
    (hm : s.addressToWaitListMap (s.heap w).address = some w)
    (hen : op.Enabled t (fun w => (s.heap w).wakeEvents) s.signaled w) :
    op.Enabled t (WaitWake.queueOf s) s.signaled (s.heap w).address := by
  cases op with
  | enqueue =>
    refine ⟨hen.1, fun y => ?_⟩
    unfold WaitWake.queueOf
    split
    · exact hen.2 _
    · exact List.not_mem_nil t
  | cancel => simpa [QueueOp.Enabled, queueOf_of_map hm] using hen
  | take k => simpa [QueueOp.Enabled, queueOf_of_map hm] using hen

/-- Without the hypothesis, a waiter is lost: in the run of `secondDelete`, thread
0's re-check of the freed list 0 deletes it a second time and takes thread 2 off the
queue of address 0 without signaling it. -/
theorem second_delete_loses_waiter : ∃ s s' : State 4, Reachable s ∧
    step s (.run 0) = some s' ∧ (s'.heap 0).deletions = 2 ∧
    2 ∈ queueOf s 0 ∧ 2 ∉ queueOf s' 0 ∧ s'.signaled 2 = false :=
  ⟨_, _, (Reachable.init _).run (show run (init fun _ => 0) resurrectAndDelete = some _ from rfl),
    rfl, by decide, by decide, by decide, by decide⟩

end Wavm.Runtime.WaitWake
