import Wavm.Runtime.WakeAddress
import Mathlib.Algebra.BigOperators.Fin

/-! # Wait lists: the interleaving model of `atomic.wait` and `atomic.wake`

`waitOnAddress` and `wakeAddress` (`Threads.cpp`) are run by any number `n` of
threads, interleaved. Each section that a mutex guards, each atomic refcount
update, each seq-cst store and each wait on an event is one step:

* `openWaitList` is one step under `addressToWaitListMapMutex`;
* `closeWaitList` is two: the decrement at line 68, then, if it reached 0, the
  re-check, `delete` and `erase` under the map mutex;
* the value check and the registration at lines 130–146 are one step, as are the
  timeout re-check at lines 153–166 and the signal-and-erase at lines 181–198;
* the return of a call (for `wakeAddress`, with the overflow check at line 201) is
  a step of its own, after `closeWaitList`.

`WaitList` objects live in a heap of pointers that `new` never reuses. `delete`
marks the object and leaves its contents, so a thread that reads an object after
another thread deleted it reads what was last written there. In C++ such a read is
undefined behaviour: the model follows an allocator that neither reuses nor
clobbers freed memory. The re-check at line 71 can read a freed object this way
(`closeWaitList_rechecks_freed_list`, at the end of this module).

A thread's `threadWakeEvent` is an auto-reset event, identified with its thread:
`signalEvent` sets it, a successful `waitForEvent` clears it. A blocked wait with
a finite deadline may time out at any step; `waitForEvent(e, now)` succeeds iff
`e` is set.

Ghost state, which no step reads: each thread's call counter and, for its
current call, whether it registered, which wake calls signaled it, whether it
removed its own event; a registration counter that stamps each registration; and
a log of finished calls.
-/

namespace Wavm.Runtime.WaitWake

/-- A call, named by its thread and its number among that thread's calls. -/
abbrev CallId (n : Nat) := Fin n × Nat

/-- A `WaitList` object (lines 23–31). Its mutex is not modelled: every section
it guards is one step. -/
structure WaitList (n : Nat) where
  wakeEvents : List (Fin n)
  numReferences : Nat
  /-- How many times `delete` has run on the object; 0 while it is live. -/
  deletions : Nat
  /-- The address `openWaitList` created the object for (ghost: the C++ object
  does not store it). -/
  address : Nat
  deriving DecidableEq, Repr

/-- What the caller of `closeWaitList` does once the list is closed. -/
inductive Resume where
  /-- `waitOnAddress` returns `result` (lines 136 and 170). -/
  | wait (result : Nat)
  /-- `wakeAddress` runs its overflow check and returns (lines 201–205). -/
  | wake (actualNumToWake : Nat)
  deriving DecidableEq, Repr

/-- Where a thread is in its current call. -/
inductive Pc where
  | idle
  /-- `waitOnAddress`, before `openWaitList` (line 127). -/
  | waitOpen (address : Nat) (expected : Int) (endTime : Nat)
  /-- Holding the list, before the locked value check (lines 130–146). -/
  | waitCheck (address : Nat) (expected : Int) (endTime : Nat) (waitList : Nat)
  /-- Registered by the `stamp`-th registration, in `waitForEvent` (line 150). -/
  | waitBlocked (address : Nat) (endTime : Nat) (waitList : Nat) (stamp : Nat)
  /-- `waitForEvent` timed out; before the locked re-check (lines 153–166). -/
  | waitTimedOut (address : Nat) (waitList : Nat) (stamp : Nat)
  /-- `wakeAddress` with a nonzero count, before `openWaitList` (line 178). -/
  | wakeOpen (address : Nat) (numToWake : UInt32)
  /-- Holding the list, before the locked section (lines 181–198). -/
  | wakeLocked (address : Nat) (numToWake : UInt32) (waitList : Nat)
  /-- `closeWaitList`, before the decrement at line 68. -/
  | closeDecrement (address : Nat) (waitList : Nat) (resume : Resume)
  /-- `closeWaitList` after the decrement reached 0, before lines 70–76. -/
  | closeRecheck (address : Nat) (waitList : Nat) (resume : Resume)
  /-- `closeWaitList` has returned; the call returns next. -/
  | returning (address : Nat) (resume : Resume)
  /-- The `assert` at line 73 failed: the re-check found events on a list whose
  count reads 0. -/
  | assertFailed
  /-- The `errorUnless` at line 165 failed: the immediately expiring wait found the
  event clear. -/
  | errorUnlessFailed
  deriving DecidableEq, Repr

/-- A thread: its program point and ghost facts about its current call. -/
structure Thread (n : Nat) where
  pc : Pc
  /-- Calls begun so far; the current call is `(t, calls)`. -/
  calls : Nat
  /-- The current call pushed the thread's event onto a wait list. -/
  registered : Bool
  /-- The wake calls that signaled the thread's event during the current call. -/
  signalers : List (CallId n)
  /-- The current call erased its own event after a timeout (line 158). -/
  removedSelf : Bool
  deriving DecidableEq, Repr

/-- A finished call, as the ghost log keeps it. -/
inductive Record (n : Nat) where
  /-- `waitOnAddress` returned `result`, with the ghost facts of the call. -/
  | wait (call : CallId n) (address : Nat) (result : Nat) (registered : Bool)
      (signalers : List (CallId n)) (removedSelf : Bool)
  /-- `wakeAddress` returned `count`. -/
  | wake (call : CallId n) (address : Nat) (count : Nat)
  /-- `wakeAddress` threw at line 203 after signaling `signaled` events. -/
  | wakeTrapped (call : CallId n) (address : Nat) (signaled : Nat)
  deriving DecidableEq, Repr

/-- The shared state of the wait/wake subsystem, and each thread. -/
structure State (n : Nat) where
  /-- The memory cells, by host address. -/
  memory : Nat → Int
  addressToWaitListMap : Nat → Option Nat
  /-- `WaitList` objects by the pointer `new` returned for them. -/
  heap : Nat → WaitList n
  /-- The pointer the next `new WaitList()` returns. -/
  nextWaitList : Nat
  /-- Whether each thread's `threadWakeEvent` is signaled. -/
  signaled : Fin n → Bool
  threads : Fin n → Thread n
  /-- Ghost: registrations so far; the stamp of the next one. -/
  registrations : Nat
  /-- Ghost: the finished calls, latest first. -/
  log : List (Record n)

/-- The actions of the threads. `run` takes the next step of the current call. -/
inductive Action (n : Nat) where
  /-- `atomic_wait_i32` / `atomic_wait_i64` enter `waitOnAddress`, with the end time
  `getEndTimeFromTimeout` computed. -/
  | atomicWait (t : Fin n) (address : Nat) (expected : Int) (endTime : Nat)
  /-- `atomic_wake` enters `wakeAddress`. -/
  | atomicWake (t : Fin n) (address : Nat) (numToWake : UInt32)
  /-- A seq-cst store by an idle thread. -/
  | store (t : Fin n) (address : Nat) (value : Int)
  | run (t : Fin n)
  /-- The blocking `waitForEvent` at line 150 reports a timeout. -/
  | timeout (t : Fin n)

variable {n : Nat}

namespace State

/-- The call a thread is in (or last finished). -/
def callOf (s : State n) (t : Fin n) : CallId n := (t, (s.threads t).calls)

@[simps] def setThread (s : State n) (t : Fin n) (th : Thread n) : State n :=
  { s with threads := Function.update s.threads t th }

def setPc (s : State n) (t : Fin n) (pc : Pc) : State n :=
  s.setThread t { s.threads t with pc := pc }

@[simps] def modifyWaitList (s : State n) (w : Nat) (f : WaitList n → WaitList n) : State n :=
  { s with heap := Function.update s.heap w (f (s.heap w)) }

@[simps] def addLog (s : State n) (r : Record n) : State n := { s with log := r :: s.log }

/-- A thread begins a call: a new call number, fresh ghost facts. -/
def beginCall (s : State n) (t : Fin n) (pc : Pc) : State n :=
  s.setThread t ⟨pc, (s.threads t).calls + 1, false, [], false⟩

@[simp] theorem setPc_eq (s : State n) (t : Fin n) (p : Pc) :
    s.setPc t p = s.setThread t { s.threads t with pc := p } := rfl

@[simp] theorem beginCall_eq (s : State n) (t : Fin n) (p : Pc) :
    s.beginCall t p = s.setThread t ⟨p, (s.threads t).calls + 1, false, [], false⟩ := rfl

end State

/-! ## The operations -/

/-- Lines 58–59: `new WaitList()`, holding one reference, entered in the map. -/
@[simps] def createWaitList (s : State n) (address : Nat) : State n :=
  { s with
    heap := Function.update s.heap s.nextWaitList ⟨[], 1, 0, address⟩
    nextWaitList := s.nextWaitList + 1
    addressToWaitListMap := Function.update s.addressToWaitListMap address (some s.nextWaitList) }

/-- `openWaitList(address)` (lines 48–63), one step under the map mutex: the
list found or created, and the state after. -/
def openWaitList (s : State n) (address : Nat) : Nat × State n :=
  match s.addressToWaitListMap address with
  | some w => (w, s.modifyWaitList w fun wl => { wl with numReferences := wl.numReferences + 1 })
  | none => (s.nextWaitList, createWaitList s address)

section
variable (s : State n) (address : Nat)

@[simp] theorem openWaitList_threads : (openWaitList s address).2.threads = s.threads := by
  unfold openWaitList; split <;> rfl
@[simp] theorem openWaitList_signaled : (openWaitList s address).2.signaled = s.signaled := by
  unfold openWaitList; split <;> rfl
@[simp] theorem openWaitList_registrations :
    (openWaitList s address).2.registrations = s.registrations := by
  unfold openWaitList; split <;> rfl
@[simp] theorem openWaitList_log : (openWaitList s address).2.log = s.log := by
  unfold openWaitList; split <;> rfl

end

/-- What the log keeps of a `wakeAddress` call that signaled `actual` events: the
count it returned, or the trap at line 203. -/
def wakeRecord (c : CallId n) (address actual : Nat) : Record n :=
  match wakeResult actual with
  | .ok count => .wake c address count.toNat
  | .error _ => .wakeTrapped c address actual

/-- The record the log keeps of thread `t`'s call on `address` when it returns:
`waitOnAddress` with its result, `wakeAddress` through its overflow check. -/
def callRecord (s : State n) (t : Fin n) (address : Nat) : Resume → Record n
  | .wait result =>
    let th := s.threads t
    .wait (s.callOf t) address result th.registered th.signalers th.removedSelf
  | .wake actual => wakeRecord (s.callOf t) address actual

/-- The call returns, and is logged. -/
def finish (s : State n) (t : Fin n) (address : Nat) (r : Resume) : State n :=
  (s.addLog (callRecord s t address r)).setPc t .idle

/-- The decrement at line 68; if it reached 0 the section under the map mutex
follows, else `closeWaitList` returns. -/
def closeDecrement (s : State n) (t : Fin n) (address w : Nat) (r : Resume) : State n :=
  (s.modifyWaitList w fun wl => { wl with numReferences := wl.numReferences - 1 }).setPc t
    (if (s.heap w).numReferences - 1 = 0 then .closeRecheck address w r else .returning address r)

/-- Lines 74–75: `delete waitList` and `erase(address)`. The object keeps its
contents and only counts the `delete`; a second `delete` of it, a double free in
C++, is counted the same way. -/
@[simps] def deleteWaitList (s : State n) (address w : Nat) : State n :=
  { s with
    heap := Function.update s.heap w { s.heap w with deletions := (s.heap w).deletions + 1 }
    addressToWaitListMap := Function.update s.addressToWaitListMap address none }

/-- Lines 70–76 under the map mutex: if `numReferences` reads 0, the assert at
line 73, `delete`, and `erase(address)`. The object is read as it is: for a list
another thread has deleted, what its `delete` left there. -/
def closeRecheck (s : State n) (t : Fin n) (address w : Nat) (r : Resume) : State n :=
  if (s.heap w).numReferences = 0 then
    if (s.heap w).wakeEvents = [] then (deleteWaitList s address w).setPc t (.returning address r)
    else s.setPc t .assertFailed
  else s.setPc t (.returning address r)

/-- Line 144: push the thread's event; the thread then blocks in `waitForEvent`. -/
@[simps] def registerWaiter (s : State n) (t : Fin n) (address endTime w : Nat) : State n :=
  { s with
    heap := Function.update s.heap w { s.heap w with wakeEvents := (s.heap w).wakeEvents ++ [t] }
    threads := Function.update s.threads t
      { s.threads t with pc := .waitBlocked address endTime w s.registrations, registered := true }
    registrations := s.registrations + 1 }

/-- Lines 130–146 under the list's mutex: if the cell does not hold the expected
value, give up with 1; else register and block. -/
def waitCheck (s : State n) (t : Fin n) (address : Nat) (expected : Int) (endTime w : Nat) :
    State n :=
  if s.memory address = expected then registerWaiter s t address endTime w
  else s.setPc t (.closeDecrement address w (.wait 1))

/-- `waitForEvent` consumes the thread's signaled event; the wait result is 0. -/
@[simps] def consumeSignal (s : State n) (t : Fin n) (address w : Nat) : State n :=
  { s with
    signaled := Function.update s.signaled t false
    threads := Function.update s.threads t
      { s.threads t with pc := .closeDecrement address w (.wait 0) } }

/-- Line 158: the timed-out thread erases its own event; the wait result is 2. -/
@[simps] def removeOwnEvent (s : State n) (t : Fin n) (address w : Nat) : State n :=
  { s with
    heap := Function.update s.heap w { s.heap w with wakeEvents := (s.heap w).wakeEvents.erase t }
    threads := Function.update s.threads t
      { s.threads t with pc := .closeDecrement address w (.wait 2), removedSelf := true } }

/-- Lines 153–166 under the list's mutex after a timeout: erase the event if it is
still registered; else a waker has signaled it, and the immediately expiring
wait consumes the signal, or `errorUnless` fails. -/
def waitTimedOut (s : State n) (t : Fin n) (address w : Nat) : State n :=
  if t ∈ (s.heap w).wakeEvents then removeOwnEvent s t address w
  else if s.signaled t then consumeSignal s t address w
  else s.setPc t .errorUnlessFailed

/-- The ghost note that wake call `c` signaled the events of `woken`. -/
def noteSignals (threads : Fin n → Thread n) (woken : List (Fin n)) (c : CallId n) :
    Fin n → Thread n :=
  fun u => if u ∈ woken then { threads u with signalers := (threads u).signalers ++ [c] }
    else threads u

/-- Lines 181–198 under the list's mutex: `wakeLocked` signals and erases the
oldest `actualNumToWake` events. -/
@[simps] def wakeLockedStep (s : State n) (t : Fin n) (address : Nat) (numToWake : UInt32)
    (w : Nat) : State n :=
  let r := wakeLocked (s.heap w).wakeEvents numToWake
  { s with
    heap := Function.update s.heap w { s.heap w with wakeEvents := r.2.1 }
    signaled := signalEvents r.1 s.signaled
    threads := Function.update (noteSignals s.threads r.1 (s.callOf t)) t
      { s.threads t with pc := .closeDecrement address w (.wake r.2.2) } }

/-- The next step of thread `t`'s current call; `none` when it has none, or is
blocked on an unsignaled event. -/
def runStep (s : State n) (t : Fin n) : Option (State n) :=
  match (s.threads t).pc with
  | .idle => none
  | .waitOpen address expected endTime =>
    let (w, s') := openWaitList s address
    some (s'.setPc t (.waitCheck address expected endTime w))
  | .waitCheck address expected endTime w => some (waitCheck s t address expected endTime w)
  | .waitBlocked address _ w _ => if s.signaled t then some (consumeSignal s t address w) else none
  | .waitTimedOut address w _ => some (waitTimedOut s t address w)
  | .wakeOpen address numToWake =>
    let (w, s') := openWaitList s address
    some (s'.setPc t (.wakeLocked address numToWake w))
  | .wakeLocked address numToWake w => some (wakeLockedStep s t address numToWake w)
  | .closeDecrement address w r => some (closeDecrement s t address w r)
  | .closeRecheck address w r => some (closeRecheck s t address w r)
  | .returning address r => some (finish s t address r)
  | .assertFailed | .errorUnlessFailed => none

/-- One step of the system. -/
def step (s : State n) : Action n → Option (State n)
  | .atomicWait t address expected endTime =>
    if (s.threads t).pc = .idle then some (s.beginCall t (.waitOpen address expected endTime))
    else none
  | .atomicWake t address numToWake =>
    if (s.threads t).pc = .idle then
      if numToWake = 0 then
        let s' := s.beginCall t .idle
        some (s'.addLog (.wake (s'.callOf t) address 0))
      else some (s.beginCall t (.wakeOpen address numToWake))
    else none
  | .store t address value =>
    if (s.threads t).pc = .idle then
      some { s with memory := Function.update s.memory address value }
    else none
  | .run t => runStep s t
  | .timeout t =>
    match (s.threads t).pc with
    | .waitBlocked address endTime w stamp =>
      if endTime = uint64Max then none else some (s.setPc t (.waitTimedOut address w stamp))
    | _ => none

/-- The state before any call: all threads idle, no wait lists. -/
def init (memory : Nat → Int) : State n where
  memory := memory
  addressToWaitListMap := fun _ => none
  heap := fun _ => ⟨[], 0, 0, 0⟩
  nextWaitList := 0
  signaled := fun _ => false
  threads := fun _ => ⟨.idle, 0, false, [], false⟩
  registrations := 0
  log := []

/-- The states some interleaving reaches. -/
inductive Reachable : State n → Prop where
  | init (memory : Nat → Int) : Reachable (init memory)
  | step {s s' : State n} (a : Action n) : Reachable s → step s a = some s' → Reachable s'

/-- Runs a schedule of actions; `none` if some action is not enabled. -/
def run (s : State n) : List (Action n) → Option (State n)
  | [] => some s
  | a :: as => (step s a).bind fun s' => run s' as

theorem Reachable.run {s s' : State n} (hs : Reachable s) :
    ∀ {as : List (Action n)}, WaitWake.run s as = some s' → Reachable s'
  | [], h => by cases h; exact hs
  | a :: as, h => by
    simp only [WaitWake.run, Option.bind_eq_some] at h
    obtain ⟨s₁, h₁, h₂⟩ := h
    exact (hs.step a h₁).run h₂

/-- A run that ends in a state where `P` holds shows a reachable state where `P`
holds. -/
theorem exists_reachable_of_run (memory : Nat → Int) (sched : List (Action n))
    (P : State n → Prop) [DecidablePred P]
    (h : (run (init memory) sched).map (fun s => decide (P s)) = some true) :
    ∃ s, Reachable s ∧ P s := by
  cases hr : run (init memory) sched with
  | none => simp [hr] at h
  | some s => exact ⟨s, (Reachable.init memory).run hr, by simpa [hr] using h⟩

/-! ## A re-check of a freed list

`closeWaitList` decrements `numReferences` outside the map mutex and re-checks it
under the mutex. Between the two, another thread may open the list again (the
resurrection the spec describes), close it, and delete it. The first thread's
re-check then reads the freed object: its count reads 0 and its list is empty, so
it deletes it a second time and erases the map's entry for the address, which by
then belongs to a newer list. `WaitListMap` follows the waiter this loses.

The schedules run from the initial state, with four threads and every cell 0.
-/

/-- Thread 0 wakes address 0 and stops between its decrement and its re-check;
thread 1 wakes address 0, which reopens, closes and deletes list 0; thread 2 waits
on address 0 for the value 0 with no deadline, and parks on a new list 1. -/
def resurrectAndDelete : List (Action 4) :=
  [.atomicWake 0 0 1, .run 0, .run 0, .run 0,
   .atomicWake 1 0 1, .run 1, .run 1, .run 1, .run 1, .run 1,
   .atomicWait 2 0 0 uint64Max, .run 2, .run 2]

/-- Then thread 0 runs its re-check on the freed list 0, and returns. -/
def secondDelete : List (Action 4) := resurrectAndDelete ++ [.run 0, .run 0]

/-- Thread 0 is about to re-check list 0, which is already deleted, under the map
entry for address 0 that now maps to list 1; its step deletes list 0 again and
erases that entry, leaving the live list 1 with thread 2's event out of the map. -/
theorem closeWaitList_rechecks_freed_list :
    (∃ s : State 4, Reachable s ∧ (s.threads 0).pc = .closeRecheck 0 0 (.wake 0) ∧
      (s.heap 0).deletions = 1 ∧ s.addressToWaitListMap 0 = some 1) ∧
    ∃ s : State 4, Reachable s ∧ (s.heap 0).deletions = 2 ∧ s.addressToWaitListMap 0 = none ∧
      (s.heap 1).deletions = 0 ∧ (s.heap 1).wakeEvents = [2] :=
  ⟨exists_reachable_of_run (fun _ => 0) resurrectAndDelete _ (by decide),
    exists_reachable_of_run (fun _ => 0) secondDelete _ (by decide)⟩

end Wavm.Runtime.WaitWake
