import Wavm.Runtime.WaitList
import Mathlib.Algebra.BigOperators.Ring
import Mathlib.Algebra.Order.BigOperators.Group.Finset

/-! # The wait-list invariant

`Inv` is the invariant of the interleaving model; `WaitListSteps` shows that every
step keeps it. It has four parts:

* `HeapInv`: every list a thread works on was created for the thread's address,
  every list a thread holds and every list the map points to is live, a live
  list's `numReferences` counts the threads holding it, and a deleted list is
  empty with no references;
* `QueueInv`: a list holds only events of threads registered on it, in the order
  of their registration stamps;
* `ThreadInv`, for each thread: its event is set exactly when a wake removed it
  and the thread has not consumed it yet, and the ghost facts of its call match
  its program point;
* `LogInv`: every finished wait returned what its ghost facts say, and the signals
  sent by wakes equal the signals received by waits, address by address.

`ThreadInv` rules out both failure points. For the `errorUnless` at line 165 this is
a fact about the code. For the `assert` at line 73 it is one about live lists: a
deleted list is read as its `delete` left it, empty with no references, which a C++
read of freed memory need not return.

Each part has a frame lemma for the steps that leave what it reads alone.
-/

namespace Wavm.Runtime.WaitWake

variable {n : Nat}

namespace Pc

/-- The list a thread at this point holds a counted reference to: it got the list
from `openWaitList` and has not yet done its decrement. -/
def holding : Pc → Option Nat
  | waitCheck _ _ _ w | waitBlocked _ _ w _ | waitTimedOut _ w _ | wakeLocked _ _ w
  | closeDecrement _ w _ => some w
  | _ => none

/-- The list a thread's event is registered on. -/
def registeredOn : Pc → Option Nat
  | waitBlocked _ _ w _ | waitTimedOut _ w _ => some w
  | _ => none

/-- The registration stamp of a registered thread. -/
def stamp : Pc → Nat
  | waitBlocked _ _ _ st | waitTimedOut _ _ st => st
  | _ => 0

/-- The address and the list a thread at this point works on. -/
def target : Pc → Option (Nat × Nat)
  | waitCheck a _ _ w | waitBlocked a _ w _ | waitTimedOut a w _ | wakeLocked a _ w
  | closeDecrement a w _ | closeRecheck a w _ => some (a, w)
  | _ => none

/-- The address of the `waitOnAddress` call a thread is in. -/
def waitAddress : Pc → Option Nat
  | waitOpen a _ _ | waitCheck a _ _ _ | waitBlocked a _ _ _ | waitTimedOut a _ _
  | closeDecrement a _ (.wait _) | closeRecheck a _ (.wait _) | returning a (.wait _) => some a
  | _ => none

/-- The events a `wakeAddress` call on `a` has signaled and not yet reported. -/
def wakePending (a : Nat) : Pc → Nat
  | closeDecrement a' _ (.wake k) | closeRecheck a' _ (.wake k) | returning a' (.wake k) =>
    if a' = a then k else 0
  | _ => 0

theorem holding_of_registeredOn {p : Pc} {w : Nat} (h : p.registeredOn = some w) :
    p.holding = some w := by
  cases p <;> simp_all [registeredOn, holding]

theorem target_of_holding {p : Pc} {w : Nat} (h : p.holding = some w) :
    ∃ a, p.target = some (a, w) := by
  cases p <;> simp_all [holding, target]

/-- A registered thread is in a `waitOnAddress` call on the address of its list,
holds the list, and has no wake pending. -/
theorem of_registeredOn {p : Pc} {a w : Nat} (h : p.registeredOn = some w)
    (ht : p.target = some (a, w)) :
    p.holding = some w ∧ p.waitAddress = some a ∧ ∀ b, p.wakePending b = 0 := by
  cases p <;> simp_all [registeredOn, holding, target, waitAddress, wakePending]

end Pc

/-! ## Counting over threads and over the log -/

/-- How many threads hold a counted reference to `w`. -/
def refHolders (s : State n) (w : Nat) : Nat :=
  ∑ t, if (s.threads t).pc.holding = some w then 1 else 0

/-- The signals a thread's `waitOnAddress` call on `a`, if it is in one, received. -/
def Thread.waitShare (th : Thread n) (a : Nat) : Nat :=
  if th.pc.waitAddress = some a then th.signalers.length else 0

theorem Thread.waitShare_eq {th th' : Thread n} (hwa : th.pc.waitAddress = th'.pc.waitAddress)
    (hsigs : th.signalers = th'.signalers) (a : Nat) : th.waitShare a = th'.waitShare a := by
  simp only [Thread.waitShare, hwa, hsigs]

/-- Signals received by the `waitOnAddress` calls on `a` still in progress. -/
def waitPending (s : State n) (a : Nat) : Nat :=
  ∑ t, (s.threads t).waitShare a

/-- Signals sent by the `wakeAddress` calls on `a` not yet returned. -/
def wakePending (s : State n) (a : Nat) : Nat :=
  ∑ t, (s.threads t).pc.wakePending a

namespace Record

/-- The count a `wakeAddress` call on `a` returned. -/
def wakeCount (a : Nat) : Record n → Nat
  | wake _ a' k => if a' = a then k else 0
  | _ => 0

/-- The events a `wakeAddress` call on `a` signaled before it trapped. -/
def trapCount (a : Nat) : Record n → Nat
  | wakeTrapped _ a' k => if a' = a then k else 0
  | _ => 0

/-- The signals a finished `waitOnAddress` call on `a` received. -/
def signalCount (a : Nat) : Record n → Nat
  | wait _ a' _ _ sigs _ => if a' = a then sigs.length else 0
  | _ => 0

/-- 1 for a `waitOnAddress` call on `a` that returned 0. -/
def zeroCount (a : Nat) : Record n → Nat
  | wait _ a' r _ _ _ => if a' = a ∧ r = 0 then 1 else 0
  | _ => 0

end Record

/-- A wake's record counts what it signaled: as the count it returned, or as
the signals of a trapped call. -/
theorem wakeRecord_counts (c : CallId n) (a k b : Nat) :
    (wakeRecord c a k).wakeCount b + (wakeRecord c a k).trapCount b = (if a = b then k else 0) ∧
      (wakeRecord c a k).signalCount b = 0 := by
  unfold wakeRecord wakeResult
  by_cases hk : uint32Max < k
  · simp [hk, Record.wakeCount, Record.trapCount, Record.signalCount]
  · have hlt : (UInt32.ofNat k).toNat = k :=
      UInt32.toNat_ofNat_of_lt (by simp only [uint32Max] at hk; simp [UInt32.size]; omega)
    simp [hk, hlt, Record.wakeCount, Record.trapCount, Record.signalCount]

/-- The sum over the log of one of the counts above. -/
def logTotal (f : Record n → Nat) : List (Record n) → Nat
  | [] => 0
  | r :: log => f r + logTotal f log

@[simp] theorem logTotal_cons (f : Record n → Nat) (r : Record n) (log : List (Record n)) :
    logTotal f (r :: log) = f r + logTotal f log := rfl


/-! ## The invariant -/

/-- What a `waitOnAddress` call that returns `result` did: 0 after exactly one
wake signaled it, 1 without registering, 2 after erasing its own event. -/
def WaitOutcome (result : Nat) (registered : Bool) (signalers : List (CallId n))
    (removedSelf : Bool) : Prop :=
  (result = 0 ∧ registered = true ∧ signalers.length = 1 ∧ removedSelf = false) ∨
  (result = 1 ∧ registered = false ∧ signalers = [] ∧ removedSelf = false) ∨
  (result = 2 ∧ registered = true ∧ signalers = [] ∧ removedSelf = true)

/-- A thread registered on list `w` is either still on it, unsignaled, or was
removed by exactly one wake whose signal it has not consumed. -/
def Registered (s : State n) (t : Fin n) (w : Nat) : Prop :=
  (s.threads t).registered = true ∧ (s.threads t).removedSelf = false ∧
    ((t ∈ (s.heap w).wakeEvents ∧ (s.threads t).signalers = [] ∧ s.signaled t = false) ∨
      (t ∉ (s.heap w).wakeEvents ∧ (s.threads t).signalers.length = 1 ∧ s.signaled t = true))

/-- What a thread's program point says about its event and the ghost facts of
its call. -/
def ThreadInv (s : State n) (t : Fin n) : Prop :=
  match (s.threads t).pc with
  | .idle | .wakeOpen .. | .wakeLocked .. | .closeDecrement _ _ (.wake _)
  | .closeRecheck _ _ (.wake _) | .returning _ (.wake _) => s.signaled t = false
  | .waitOpen .. | .waitCheck .. =>
    s.signaled t = false ∧ (s.threads t).registered = false ∧ (s.threads t).signalers = [] ∧
      (s.threads t).removedSelf = false
  | .waitBlocked _ _ w _ | .waitTimedOut _ w _ => Registered s t w
  | .closeDecrement _ _ (.wait r) | .closeRecheck _ _ (.wait r) | .returning _ (.wait r) =>
    s.signaled t = false ∧
      WaitOutcome r (s.threads t).registered (s.threads t).signalers (s.threads t).removedSelf
  | .assertFailed | .errorUnlessFailed => False

/-- The heap half: the lists in use are live, and counted. -/
structure HeapInv (s : State n) : Prop where
  target : ∀ t a w, (s.threads t).pc.target = some (a, w) →
    w < s.nextWaitList ∧ (s.heap w).address = a
  holding : ∀ t w, (s.threads t).pc.holding = some w → (s.heap w).deletions = 0
  map : ∀ a w, s.addressToWaitListMap a = some w →
    w < s.nextWaitList ∧ (s.heap w).deletions = 0 ∧ (s.heap w).address = a
  refs : ∀ w, (s.heap w).deletions = 0 → (s.heap w).numReferences = refHolders s w
  deleted : ∀ w, (s.heap w).deletions ≠ 0 →
    (s.heap w).wakeEvents = [] ∧ (s.heap w).numReferences = 0

/-- The queue half: a list holds events of threads registered on it, oldest
registration first. -/
structure QueueInv (s : State n) : Prop where
  member : ∀ w u, u ∈ (s.heap w).wakeEvents → (s.threads u).pc.registeredOn = some w
  fifo : ∀ w, (s.heap w).wakeEvents.Pairwise fun u v =>
    (s.threads u).pc.stamp < (s.threads v).pc.stamp
  stamp : ∀ u, (s.threads u).pc.registeredOn ≠ none → (s.threads u).pc.stamp < s.registrations

/-- The log half: what each finished wait did, and signals sent equal signals
received, address by address. -/
structure LogInv (s : State n) : Prop where
  records : ∀ d a r reg sigs rm, Record.wait d a r reg sigs rm ∈ s.log → WaitOutcome r reg sigs rm
  accounting : ∀ a, logTotal (Record.wakeCount a) s.log + logTotal (Record.trapCount a) s.log +
    wakePending s a = logTotal (Record.signalCount a) s.log + waitPending s a

/-- The invariant of the wait/wake subsystem. -/
structure Inv (s : State n) extends HeapInv s, QueueInv s, LogInv s : Prop where
  thread : ∀ t, ThreadInv s t

theorem threadInv_of_registeredOn {s : State n} {u : Fin n} {w : Nat}
    (h : (s.threads u).pc.registeredOn = some w) : ThreadInv s u ↔ Registered s u w := by
  unfold ThreadInv
  split <;> simp_all [Pc.registeredOn]

/-! ## Frame lemmas -/

/-- Changing one thread changes a sum over the threads by that thread's terms. -/
theorem sum_update_thread {f g : Fin n → Nat} (t : Fin n) (h : ∀ u, u ≠ t → g u = f u) :
    ∑ u, g u + f t = ∑ u, f u + g t := by
  have hrest : ∑ u ∈ Finset.univ.erase t, g u = ∑ u ∈ Finset.univ.erase t, f u :=
    Finset.sum_congr rfl fun u hu => h u (Finset.ne_of_mem_erase hu)
  rw [← Finset.add_sum_erase _ g (Finset.mem_univ t), ← Finset.add_sum_erase _ f (Finset.mem_univ t),
    hrest]
  omega

section Frame

variable {s s' : State n} (t : Fin n)

theorem refHolders_update (hpc : ∀ u, u ≠ t → (s'.threads u).pc = (s.threads u).pc) (w : Nat) :
    refHolders s' w + (if (s.threads t).pc.holding = some w then 1 else 0) =
      refHolders s w + (if (s'.threads t).pc.holding = some w then 1 else 0) :=
  sum_update_thread (f := fun u => if (s.threads u).pc.holding = some w then 1 else 0)
    (g := fun u => if (s'.threads u).pc.holding = some w then 1 else 0) t
    fun u hu => by simp only [hpc u hu]

theorem wakePending_update (hpc : ∀ u, u ≠ t → (s'.threads u).pc = (s.threads u).pc) (a : Nat) :
    wakePending s' a + (s.threads t).pc.wakePending a =
      wakePending s a + (s'.threads t).pc.wakePending a :=
  sum_update_thread (f := fun u => (s.threads u).pc.wakePending a)
    (g := fun u => (s'.threads u).pc.wakePending a) t fun u hu => by simp only [hpc u hu]

theorem waitPending_update (hth : ∀ u, u ≠ t → s'.threads u = s.threads u) (a : Nat) :
    waitPending s' a + (s.threads t).waitShare a = waitPending s a + (s'.threads t).waitShare a :=
  sum_update_thread (f := fun u => (s.threads u).waitShare a)
    (g := fun u => (s'.threads u).waitShare a) t fun u hu => by simp only [hth u hu]

end Frame

/-- `ThreadInv` of `u` reads only `u`'s thread, its event and its list membership. -/
theorem threadInv_congr {s s' : State n} {u : Fin n} (hth : s'.threads u = s.threads u)
    (hsig : s'.signaled u = s.signaled u)
    (hmem : ∀ w, u ∈ (s'.heap w).wakeEvents ↔ u ∈ (s.heap w).wakeEvents) :
    ThreadInv s' u ↔ ThreadInv s u := by
  unfold ThreadInv Registered
  rw [hth, hsig]
  split <;> simp only [hmem]

variable {s s' : State n}

/-- A step that changes neither the map nor any list's count, and moves no thread
to a list it did not work on, keeps the heap half. -/
theorem HeapInv.frame (h : HeapInv s)
    (hmap : s'.addressToWaitListMap = s.addressToWaitListMap)
    (hnext : s'.nextWaitList = s.nextWaitList)
    (hheap : ∀ w, (s'.heap w).numReferences = (s.heap w).numReferences ∧
      (s'.heap w).deletions = (s.heap w).deletions ∧ (s'.heap w).address = (s.heap w).address)
    (hdel : ∀ w, (s.heap w).deletions ≠ 0 → (s'.heap w).wakeEvents = (s.heap w).wakeEvents)
    (hhold : ∀ u, (s'.threads u).pc.holding = (s.threads u).pc.holding)
    (htarget : ∀ u x, (s'.threads u).pc.target = some x → (s.threads u).pc.target = some x) :
    HeapInv s' := by
  have hrefs : ∀ w, refHolders s' w = refHolders s w := fun w =>
    Finset.sum_congr rfl fun u _ => by rw [hhold u]
  refine ⟨fun u a w hu => ?_, fun u w hu => ?_, fun a w ha => ?_, fun w hw => ?_, fun w hw => ?_⟩
  · rw [hnext, (hheap w).2.2]; exact h.target u a w (htarget u _ hu)
  · rw [hhold u] at hu; rw [(hheap w).2.1]; exact h.holding u w hu
  · rw [hmap] at ha; rw [hnext, (hheap w).2.1, (hheap w).2.2]; exact h.map a w ha
  · rw [(hheap w).2.1] at hw; rw [(hheap w).1, hrefs]; exact h.refs w hw
  · rw [(hheap w).2.1] at hw; rw [hdel w hw, (hheap w).1]; exact h.deleted w hw

/-- The same, for a step that replaces the events of one live list. -/
theorem HeapInv.setEvents (h : HeapInv s) {w : Nat} {L : List (Fin n)}
    (hlive : (s.heap w).deletions = 0)
    (hheap : s'.heap = Function.update s.heap w { s.heap w with wakeEvents := L })
    (hmap : s'.addressToWaitListMap = s.addressToWaitListMap)
    (hnext : s'.nextWaitList = s.nextWaitList)
    (hhold : ∀ u, (s'.threads u).pc.holding = (s.threads u).pc.holding)
    (htarget : ∀ u x, (s'.threads u).pc.target = some x → (s.threads u).pc.target = some x) :
    HeapInv s' :=
  h.frame hmap hnext (fun w' => by by_cases hw : w' = w <;> simp [hheap, hw])
    (fun w' hw' => by rw [hheap, Function.update_noteq (by rintro rfl; exact hw' hlive)])
    hhold htarget

/-- A list's order is kept on a sublist without `t`, when only `t`'s program point
changes. -/
theorem QueueInv.fifo_frame (hq : QueueInv s) {t : Fin n}
    (hpc : ∀ u, u ≠ t → (s'.threads u).pc = (s.threads u).pc) {w : Nat} {L : List (Fin n)}
    (hL : L.Sublist (s.heap w).wakeEvents) (ht : t ∉ L) :
    L.Pairwise fun u v => (s'.threads u).pc.stamp < (s'.threads v).pc.stamp :=
  ((hq.fifo w).sublist hL).imp_of_mem fun hu hv huv => by
    rwa [hpc _ fun e => ht (e ▸ hu), hpc _ fun e => ht (e ▸ hv)]

/-- A step after which every list is a sublist of what it was, only `t` changes
its program point, and `t` is registered nowhere and on no list, keeps the queue
half. -/
theorem QueueInv.shrink (hq : QueueInv s) {t : Fin n}
    (hsub : ∀ w, (s'.heap w).wakeEvents.Sublist (s.heap w).wakeEvents)
    (hpc : ∀ u, u ≠ t → (s'.threads u).pc = (s.threads u).pc)
    (hreg : (s'.threads t).pc.registeredOn = none) (htnot : ∀ w, t ∉ (s'.heap w).wakeEvents)
    (hregs : s'.registrations = s.registrations) : QueueInv s' := by
  refine ⟨fun w u hu => ?_, fun w => hq.fifo_frame hpc (hsub w) (htnot w), fun u hu => ?_⟩
  · have hut : u ≠ t := fun e => htnot w (e ▸ hu)
    rw [hpc u hut]; exact hq.member w u ((hsub w).subset hu)
  · have hut : u ≠ t := by rintro rfl; exact hu hreg
    rw [hpc u hut] at hu ⊢; rw [hregs]; exact hq.stamp u hu

/-- A step that leaves the log alone and changes only `t`, keeping its counts,
keeps the log half. -/
theorem LogInv.frame (hl : LogInv s) {t : Fin n} (hlog : s'.log = s.log)
    (hth : ∀ u, u ≠ t → s'.threads u = s.threads u)
    (hshare : ∀ a, (s'.threads t).waitShare a = (s.threads t).waitShare a)
    (hpend : ∀ a, (s'.threads t).pc.wakePending a = (s.threads t).pc.wakePending a) :
    LogInv s' := by
  refine ⟨hlog ▸ hl.records, fun a => ?_⟩
  have hw := waitPending_update t hth a
  have hk := wakePending_update t (fun u hu => congrArg Thread.pc (hth u hu)) a
  have := hl.accounting a
  rw [hshare] at hw; rw [hpend] at hk; rw [hlog]; omega

/-- The threads other than `t` keep `ThreadInv` across a step that leaves them,
their events and their list memberships alone. -/
theorem Inv.thread_frame (hi : Inv s) {t : Fin n} (hth : ∀ u, u ≠ t → s'.threads u = s.threads u)
    (hsig : ∀ u, u ≠ t → s'.signaled u = s.signaled u)
    (hmem : ∀ u, u ≠ t → ∀ w, (u ∈ (s'.heap w).wakeEvents ↔ u ∈ (s.heap w).wakeEvents))
    (ht : ThreadInv s' t) (u : Fin n) : ThreadInv s' u := by
  by_cases hu : u = t
  · exact hu ▸ ht
  · exact (threadInv_congr (hth u hu) (hsig u hu) (hmem u hu)).mpr (hi.thread u)

/-! ## Consequences of the invariant -/

theorem QueueInv.not_mem (hq : QueueInv s) {u : Fin n} {w : Nat}
    (h : (s.threads u).pc.registeredOn ≠ some w) : u ∉ (s.heap w).wakeEvents :=
  fun hm => h (hq.member w u hm)

/-- A list holds each event once: the stamps increase strictly along it. -/
theorem QueueInv.nodup (hq : QueueInv s) (w : Nat) : (s.heap w).wakeEvents.Nodup :=
  (hq.fifo w).imp fun {u v} h (he : u = v) => by subst he; exact lt_irrefl _ h

theorem HeapInv.lt_next_of_holding (h : HeapInv s) {u : Fin n} {w : Nat}
    (hu : (s.threads u).pc.holding = some w) : w < s.nextWaitList := by
  obtain ⟨a, ha⟩ := Pc.target_of_holding hu
  exact (h.target u a w ha).1

theorem refHolders_eq_zero {w : Nat} (h : ∀ u, (s.threads u).pc.holding ≠ some w) :
    refHolders s w = 0 :=
  Finset.sum_eq_zero fun u _ => if_neg (h u)

/-- When a list's count reads 0, live or not, no thread holds it. -/
theorem HeapInv.not_holding_of_refs_zero (h : HeapInv s) {w : Nat}
    (h0 : (s.heap w).numReferences = 0) (u : Fin n) : (s.threads u).pc.holding ≠ some w := by
  intro hu
  have hle : (if (s.threads u).pc.holding = some w then 1 else 0) ≤ refHolders s w :=
    Finset.single_le_sum (f := fun u => if (s.threads u).pc.holding = some w then 1 else 0)
      (fun _ _ => Nat.zero_le _) (Finset.mem_univ u)
  rw [if_pos hu, ← h.refs w (h.holding u w hu), h0] at hle
  omega

/-- A thread on a list is in a `waitOnAddress` call on the list's address. -/
theorem Inv.waitAddress_of_mem (hi : Inv s) {u : Fin n} {w : Nat}
    (hu : u ∈ (s.heap w).wakeEvents) : (s.threads u).pc.waitAddress = some (s.heap w).address := by
  have hreg := hi.member w u hu
  obtain ⟨a, ha⟩ := Pc.target_of_holding (Pc.holding_of_registeredOn hreg)
  rw [(hi.target u a w ha).2]
  exact (Pc.of_registeredOn hreg ha).2.1

/-- A list no thread holds has no events: each event's thread holds the list. -/
theorem QueueInv.events_eq_nil (hq : QueueInv s) {w : Nat}
    (h : ∀ u, (s.threads u).pc.holding ≠ some w) : (s.heap w).wakeEvents = [] :=
  List.eq_nil_iff_forall_not_mem.mpr fun u hu =>
    h u (Pc.holding_of_registeredOn (hq.member w u hu))

end Wavm.Runtime.WaitWake
