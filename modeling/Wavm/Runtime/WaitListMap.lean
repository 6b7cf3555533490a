import Wavm.Runtime.WaitListSteps
import Wavm.Runtime.WaitQueues

/-! # Without a second `delete`, no waiter is lost to the map

`closeWaitList`'s re-check can read a list that another thread has deleted, delete
it a second time, and erase the map entry of a newer list
(`closeWaitList_rechecks_freed_list`). A waiter parked on that newer list is then
lost (`parked_waiter_lost`, `wake_skips_parked_waiter`, at the end of this module).
This module shows that this is the only way a waiter is lost. In every reachable
state in which no list has been deleted twice (`SingleDelete`):

* the map holds exactly the live lists, each under the address it was created for;
* a thread whose event is on a list is in a `waitOnAddress` call on that list's
  address, and `openWaitList` on that address returns the list, so a wake on the
  address finds the thread (`waiters_mapped_of_single_delete`).

A step changes the map in one of three ways (`ListEffect`, from `step_listEffect`):
it keeps the map, it creates a list for an address the map has no entry for, or a
re-check deletes a list and erases an address. `ListEffect` also says what the step
does to the lists' events and to the threads' events, which `WaitListRefinement`
uses. Deletion counts never decrease, so a run that ends with no list deleted twice
passes only through such states. `MapComplete` (every live list is the map's entry
for its address) holds along such a run (`Reachable.mapComplete`).
-/

namespace Wavm.Runtime.WaitWake

variable {n : Nat} {s s' : State n}

/-- No list that `new` has returned has been deleted more than once. -/
def SingleDelete (s : State n) : Prop :=
  ∀ w, w < s.nextWaitList → (s.heap w).deletions ≤ 1

instance (s : State n) : Decidable (SingleDelete s) :=
  inferInstanceAs (Decidable (∀ w, w < s.nextWaitList → (s.heap w).deletions ≤ 1))

/-- Every live list is the one the map has for its address. -/
def MapComplete (s : State n) : Prop :=
  ∀ w, w < s.nextWaitList → (s.heap w).deletions = 0 →
    s.addressToWaitListMap (s.heap w).address = some w

/-- List `w` has the same deletion count and address in `s` and `s'`. -/
def SameLife (s s' : State n) (w : Nat) : Prop :=
  (s'.heap w).deletions = (s.heap w).deletions ∧ (s'.heap w).address = (s.heap w).address

/-- The map, `nextWaitList`, and every list's deletion count and address are kept. -/
structure MapKept (s s' : State n) : Prop where
  map : s'.addressToWaitListMap = s.addressToWaitListMap
  next : s'.nextWaitList = s.nextWaitList
  life : ∀ w, SameLife s s' w

/-! ## What a step does to the map and the lists -/

/-- What a step of thread `t` does to the map, to the lists, and to the threads'
events. -/
inductive ListEffect (s s' : State n) (t : Fin n) : Prop where
  /-- Only the threads, the counts, the memory or the log change. -/
  | keep (hk : MapKept s s') (hev : ∀ w, (s'.heap w).wakeEvents = (s.heap w).wakeEvents)
      (hsig : s'.signaled = s.signaled)
  /-- `waitForEvent` consumes `t`'s signaled event. -/
  | consume (hk : MapKept s s') (hev : ∀ w, (s'.heap w).wakeEvents = (s.heap w).wakeEvents)
      (ht : s.signaled t = true) (hsig : s'.signaled = Function.update s.signaled t false)
  /-- Lines 144, 158 and 191–196: `t` applies `op` to the events of the list `w` it
  holds, and signals those `op` takes. -/
  | queue (w : Nat) (op : QueueOp) (hhold : (s.threads t).pc.holding = some w)
      (hen : op.Enabled t (fun w => (s.heap w).wakeEvents) s.signaled w) (hk : MapKept s s')
      (hw : (s'.heap w).wakeEvents = op.apply t (s.heap w).wakeEvents)
      (hev : ∀ w', w' ≠ w → (s'.heap w').wakeEvents = (s.heap w').wakeEvents)
      (hsig : s'.signaled = signalEvents (op.signals (s.heap w).wakeEvents) s.signaled)
  /-- Lines 58–59: a new list for an address the map has no entry for. -/
  | create (a : Nat) (hnone : s.addressToWaitListMap a = none)
      (hmap : s'.addressToWaitListMap =
        Function.update s.addressToWaitListMap a (some s.nextWaitList))
      (hnext : s'.nextWaitList = s.nextWaitList + 1)
      (hnew : s'.heap s.nextWaitList = ⟨[], 1, 0, a⟩)
      (hlife : ∀ w, w ≠ s.nextWaitList →
        SameLife s s' w ∧ (s'.heap w).wakeEvents = (s.heap w).wakeEvents)
      (hsig : s'.signaled = s.signaled)
  /-- Lines 70–75: `t`'s re-check at `closeRecheck a w r` finds `w` empty, deletes
  it and erases `a`. -/
  | delete (a w : Nat) (r : Resume) (hpc : (s.threads t).pc = .closeRecheck a w r)
      (hnil : (s.heap w).wakeEvents = [])
      (hmap : s'.addressToWaitListMap = Function.update s.addressToWaitListMap a none)
      (hnext : s'.nextWaitList = s.nextWaitList)
      (hdel : (s'.heap w).deletions = (s.heap w).deletions + 1)
      (hlife : ∀ w', w' ≠ w → SameLife s s' w')
      (hev : ∀ w, (s'.heap w).wakeEvents = (s.heap w).wakeEvents)
      (hsig : s'.signaled = s.signaled)

theorem MapKept.of_update {w : Nat} {x : WaitList n}
    (hmap : s'.addressToWaitListMap = s.addressToWaitListMap)
    (hnext : s'.nextWaitList = s.nextWaitList) (hheap : s'.heap = Function.update s.heap w x)
    (hx : x.deletions = (s.heap w).deletions ∧ x.address = (s.heap w).address) :
    MapKept s s' :=
  ⟨hmap, hnext, fun w' => by
    by_cases hw : w' = w
    · subst hw; rw [SameLife, hheap, Function.update_same]; exact hx
    · rw [SameLife, hheap, Function.update_noteq hw]; exact ⟨rfl, rfl⟩⟩

theorem MapKept.of_heap (hmap : s'.addressToWaitListMap = s.addressToWaitListMap)
    (hnext : s'.nextWaitList = s.nextWaitList) (hheap : s'.heap = s.heap) : MapKept s s' :=
  ⟨hmap, hnext, fun w => by rw [SameLife, hheap]; exact ⟨rfl, rfl⟩⟩

/-- A step that changes one list's count. -/
theorem ListEffect.of_update {t : Fin n} {w : Nat} {x : WaitList n}
    (hmap : s'.addressToWaitListMap = s.addressToWaitListMap)
    (hnext : s'.nextWaitList = s.nextWaitList) (hheap : s'.heap = Function.update s.heap w x)
    (hx : x.deletions = (s.heap w).deletions ∧ x.address = (s.heap w).address ∧
      x.wakeEvents = (s.heap w).wakeEvents) (hsig : s'.signaled = s.signaled) :
    ListEffect s s' t :=
  .keep (.of_update hmap hnext hheap ⟨hx.1, hx.2.1⟩) (fun w' => by
    by_cases hw : w' = w
    · subst hw; rw [hheap, Function.update_same]; exact hx.2.2
    · rw [hheap, Function.update_noteq hw]) hsig

/-- A step that changes no list. -/
theorem ListEffect.of_heap {t : Fin n} (hmap : s'.addressToWaitListMap = s.addressToWaitListMap)
    (hnext : s'.nextWaitList = s.nextWaitList) (hheap : s'.heap = s.heap)
    (hsig : s'.signaled = s.signaled) : ListEffect s s' t :=
  .keep (.of_heap hmap hnext hheap) (fun w => by rw [hheap]) hsig

/-- Moving a thread after the step changes none of it. -/
theorem ListEffect.setPc {t : Fin n} (he : ListEffect s s' t) (u : Fin n) (p : Pc) :
    ListEffect s (s'.setPc u p) t := by
  cases he with
  | keep hk hev hsig => exact .keep ⟨hk.map, hk.next, hk.life⟩ hev hsig
  | consume hk hev ht hsig => exact .consume ⟨hk.map, hk.next, hk.life⟩ hev ht hsig
  | queue w op hhold hen hk hw hev hsig =>
    exact .queue w op hhold hen ⟨hk.map, hk.next, hk.life⟩ hw hev hsig
  | create a hnone hmap hnext hnew hlife hsig => exact .create a hnone hmap hnext hnew hlife hsig
  | delete a w r hpc hnil hmap hnext hdel hlife hev hsig =>
    exact .delete a w r hpc hnil hmap hnext hdel hlife hev hsig

theorem openWaitList_listEffect (s : State n) (t : Fin n) (a : Nat) :
    ListEffect s (openWaitList s a).2 t := by
  unfold openWaitList
  split
  · exact .of_update rfl rfl rfl ⟨rfl, rfl, rfl⟩ rfl
  · rename_i hnone
    exact .create a hnone rfl rfl (Function.update_same _ _ _)
      (fun w hw => by simp only [SameLife, createWaitList_heap, Function.update_noteq hw,
        and_self]) rfl

theorem runStep_listEffect (hi : Inv s) {t : Fin n} (h : runStep s t = some s') :
    ListEffect s s' t := by
  unfold runStep at h
  split at h
  · cases h
  · cases h; exact (openWaitList_listEffect s t _).setPc t _
  · rename_i a e T w hpc
    cases h; unfold waitCheck; split
    · have ht : s.signaled t = false := by
        have := hi.thread t; simp only [ThreadInv, hpc] at this; exact this.1
      exact .queue w .enqueue (by simp [hpc, Pc.holding])
        ⟨ht, fun y => hi.not_mem (by simp [hpc, Pc.registeredOn])⟩
        (.of_update rfl rfl rfl ⟨rfl, rfl⟩) (by simp [QueueOp.apply])
        (fun w' hw => by simp [hw]) rfl
    · exact .of_heap rfl rfl rfl rfl
  · split at h
    · cases h; exact .consume (.of_heap rfl rfl rfl)
        (fun _ => rfl) ‹_› rfl
    · cases h
  · rename_i a w st hpc
    cases h; unfold waitTimedOut; split
    · exact .queue w .cancel (by simp [hpc, Pc.holding]) ‹_›
        (.of_update rfl rfl rfl ⟨rfl, rfl⟩) (by simp [QueueOp.apply]) (fun w' hw => by simp [hw])
        rfl
    · split
      · exact .consume (.of_heap rfl rfl rfl)
          (fun _ => rfl) ‹_› rfl
      · exact .of_heap rfl rfl rfl rfl
  · cases h; exact (openWaitList_listEffect s t _).setPc t _
  · rename_i a k w hpc
    cases h
    exact .queue w (.take _) (by simp [hpc, Pc.holding]) (actualNumToWake_le _ _)
      (.of_update rfl rfl rfl ⟨rfl, rfl⟩) (by simp [QueueOp.apply]) (fun w' hw => by simp [hw])
      rfl
  · cases h; exact .of_update rfl rfl rfl ⟨rfl, rfl, rfl⟩ rfl
  · rename_i a w r hpc
    cases h; unfold closeRecheck; split
    · split
      · rename_i hnil
        exact .delete a w r hpc hnil rfl rfl (by simp) (fun w' hw =>
          by simp only [SameLife, State.setPc_eq, State.setThread_heap, deleteWaitList_heap,
            Function.update_noteq hw, and_self])
          (fun w' => by by_cases hw : w' = w <;> simp [hw]) rfl
      · exact .of_heap rfl rfl rfl rfl
    · exact .of_heap rfl rfl rfl rfl
  · cases h; exact .of_heap rfl rfl rfl rfl
  · cases h
  · cases h

/-- The thread that takes a step. -/
def Action.thread : Action n → Fin n
  | .atomicWait t .. | .atomicWake t .. | .store t .. | .run t | .timeout t => t

/-- Every step changes the map, the lists and the events in one of the ways of
`ListEffect`. -/
theorem step_listEffect (hi : Inv s) {a : Action n} (h : step s a = some s') :
    ListEffect s s' a.thread := by
  cases a with
  | run t => exact runStep_listEffect hi h
  | _ =>
    simp only [step] at h
    repeat' split at h
    all_goals first | (cases h; exact .of_heap rfl rfl rfl rfl) | cases h

/-! ## The map along a run -/

theorem MapKept.singleDelete (hk : MapKept s s') (hd : SingleDelete s') : SingleDelete s :=
  fun w hw => (hk.life w).1 ▸ hd w (hk.next ▸ hw)

theorem MapKept.mapComplete (hk : MapKept s s') (hc : MapComplete s) : MapComplete s' :=
  fun w hw hl => by
    rw [hk.map, (hk.life w).2]; rw [(hk.life w).1] at hl; exact hc w (hk.next ▸ hw) hl

/-- A state after the step has no list deleted twice only if the state before has
none: deletion counts never decrease. -/
theorem ListEffect.singleDelete {t : Fin n} (he : ListEffect s s' t) (hd : SingleDelete s') :
    SingleDelete s := by
  cases he with
  | keep hk => exact hk.singleDelete hd
  | consume hk => exact hk.singleDelete hd
  | queue w op hhold hen hk => exact hk.singleDelete hd
  | create a hnone hmap hnext hnew hlife =>
    intro w hw
    rw [← (hlife w (Nat.ne_of_lt hw)).1.1]; exact hd w (by omega)
  | delete a w' r hpc hnil hmap hnext hdel hlife =>
    intro w hw
    have := hd w (hnext ▸ hw)
    by_cases hw' : w = w'
    · subst hw'; omega
    · rwa [(hlife w hw').1] at this

/-- A step keeps `MapComplete` when it deletes no list a second time: a re-check
that deletes a live list erases the map's entry for that very list. -/
theorem ListEffect.mapComplete {t : Fin n} (he : ListEffect s s' t) (hi : HeapInv s)
    (hc : MapComplete s) (hd : SingleDelete s') : MapComplete s' := by
  cases he with
  | keep hk => exact hk.mapComplete hc
  | consume hk => exact hk.mapComplete hc
  | queue w op hhold hen hk => exact hk.mapComplete hc
  | create a hnone hmap hnext hnew hlife =>
    intro w hw hl
    by_cases hwn : w = s.nextWaitList
    · subst hwn; rw [hmap, hnew, Function.update_same]
    · obtain ⟨hdw, haw⟩ := (hlife w hwn).1
      have hm := hc w (by omega) (hdw ▸ hl)
      have hne : (s.heap w).address ≠ a := fun e => by rw [e, hnone] at hm; cases hm
      rw [hmap, haw, Function.update_noteq hne, hm]
  | delete a w' r hpc hnil hmap hnext hdel hlife =>
    intro w hw hl
    obtain ⟨hlt, haddr⟩ := hi.target t a w' (by simp [hpc, Pc.target])
    have hne : w ≠ w' := by rintro rfl; rw [hdel] at hl; omega
    obtain ⟨hdw, haw⟩ := hlife w hne
    have hm := hc w (hnext ▸ hw) (hdw ▸ hl)
    have hlive : (s.heap w').deletions = 0 := by have := hd w' (hnext ▸ hlt); omega
    have hba : (s.heap w).address ≠ a := fun e => by
      have hm' := hc w' hlt hlive
      rw [haddr, ← e, hm] at hm'
      exact hne (Option.some.inj hm')
    rw [hmap, haw, Function.update_noteq hba, hm]

/-- `MapComplete` holds in every reachable state with no list deleted twice. -/
theorem Reachable.mapComplete (hs : Reachable s) (hd : SingleDelete s) : MapComplete s := by
  induction hs with
  | init memory => intro w hw; simp [WaitWake.init] at hw
  | step a hs hstep ih =>
    have he := step_listEffect hs.inv hstep
    exact he.mapComplete hs.inv.toHeapInv (ih (he.singleDelete hd)) hd

/-- In a reachable state with no list deleted twice, the map holds exactly the live
lists, each under the address it was created for; and a thread whose event is on a
list is in a `waitOnAddress` call on the list's address, for which `openWaitList`
returns that list, so a wake on the address finds the thread. -/
theorem waiters_mapped_of_single_delete (hs : Reachable s) (hd : SingleDelete s) :
    (∀ a w, s.addressToWaitListMap a = some w ↔
      w < s.nextWaitList ∧ (s.heap w).deletions = 0 ∧ (s.heap w).address = a) ∧
    ∀ u w, u ∈ (s.heap w).wakeEvents →
      (s.threads u).pc.waitAddress = some (s.heap w).address ∧
        (openWaitList s (s.heap w).address).1 = w := by
  have hi := hs.inv
  have hc := hs.mapComplete hd
  refine ⟨fun a w => ⟨hi.map a w, fun ⟨hlt, hl, ha⟩ => ha ▸ hc w hlt hl⟩,
    fun u w hu => ⟨hi.waitAddress_of_mem hu, ?_⟩⟩
  have hhold := Pc.holding_of_registeredOn (hi.member w u hu)
  simp [openWaitList, hc w (hi.lt_next_of_holding hhold) (hi.holding u w hhold)]

/-- Thread 0 waits on address 0 for the value 0 with no deadline, and parks. -/
def parkOne : List (Action 1) := [.atomicWait 0 0 0 uint64Max, .run 0, .run 0]

theorem waiters_mapped_parkOne : ∃ s : State 1, run (init fun _ => 0) parkOne = some s ∧
    (s.heap 0).wakeEvents = [0] ∧ SingleDelete s ∧
    (∀ a w, s.addressToWaitListMap a = some w ↔
      w < s.nextWaitList ∧ (s.heap w).deletions = 0 ∧ (s.heap w).address = a) ∧
    ∀ u w, u ∈ (s.heap w).wakeEvents →
      (s.threads u).pc.waitAddress = some (s.heap w).address ∧
        (openWaitList s (s.heap w).address).1 = w :=
  ⟨_, rfl, by decide, by decide,
    waiters_mapped_of_single_delete
      ((Reachable.init _).run (show run (init fun _ => 0) parkOne = some _ from rfl)) (by decide)⟩

/-! ## After a second delete, a parked waiter is lost

The run of `secondDelete` goes on: a wake on the address no longer finds thread 2.
-/

/-- Then thread 3 stores 1 to cell 0 and wakes every waiter on address 0. -/
def lostWake : List (Action 4) :=
  secondDelete ++ [.store 3 0 1, .atomicWake 3 0 4294967295, .run 3, .run 3, .run 3, .run 3,
    .run 3]

/-- Thread 3's store of 1 and its wake of all waiters on address 0 are done, the
wake having returned 0, and thread 2, which waits for the value 0 with no deadline,
is still parked, its event unsignaled and on list 1, which `openWaitList(0)` no
longer returns; no step of thread 2 is enabled. -/
theorem parked_waiter_lost :
    ∃ s : State 4, Reachable s ∧ s.memory 0 = 1 ∧ s.log.head? = some (.wake (3, 1) 0 0) ∧
      (s.threads 3).pc = .idle ∧ (s.threads 2).pc = .waitBlocked 0 uint64Max 1 0 ∧
      s.signaled 2 = false ∧ (s.heap 1).wakeEvents = [2] ∧ (openWaitList s 0).1 ≠ 1 ∧
      (step s (.run 2)).isNone ∧ (step s (.timeout 2)).isNone :=
  exists_reachable_of_run (fun _ => 0) lostWake _ (by decide)

/-- Thread 3, after its store, holds the list `openWaitList(0)` gave its wake. -/
def wakeOnNewList : List (Action 4) :=
  secondDelete ++ [.store 3 0 1, .atomicWake 3 0 4294967295, .run 3]

/-- Thread 3's wake on address 0 holds list 2, which is empty, so `wakeLocked`
signals no event, while thread 2, registered on address 0 before it, is still
parked there and no wake has removed it. -/
theorem wake_skips_parked_waiter :
    ∃ s : State 4, Reachable s ∧ (s.threads 3).pc = .wakeLocked 0 4294967295 2 ∧
      (wakeLocked (s.heap 2).wakeEvents 4294967295).1 = [] ∧
      (s.threads 2).pc.waitAddress = some 0 ∧ (s.threads 2).pc.registeredOn = some 1 ∧
      (s.threads 2).signalers = [] ∧ (s.threads 2).pc.stamp < s.registrations :=
  exists_reachable_of_run (fun _ => 0) wakeOnNewList _ (by decide)

end Wavm.Runtime.WaitWake
