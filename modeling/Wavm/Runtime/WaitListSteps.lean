import Wavm.Runtime.WaitListInvariant

/-! # Every step keeps the wait-list invariant

One lemma per operation of the interleaving model, each assembled from the frame
lemmas of `WaitListInvariant` and, where the operation changes what a part of the
invariant reads, a lemma for that part:

* `openWaitList` and the decrement of `closeWaitList` change the counts
  (`HeapInv.addReference`, `HeapInv.newWaitList`, `HeapInv.release`);
* the re-check of `closeWaitList` deletes a list (`HeapInv.delete`); a live list it
  reads at count 0 is empty, so its `assert` holds, and a deleted one reads as its
  `delete` left it (`closeRecheck_inv`);
* registration appends to a list (`QueueInv.register`);
* `wakeLocked` moves `actualNumToWake` signals from the list to the waiters, and
  as many to the wake's pending count (`LogInv.wakeLockedStep`);
* the return of a call moves its counts to the log (`LogInv.finish`).

`step_inv` puts them together along `step`, and `Reachable.inv` along every
interleaving.
-/

namespace Wavm.Runtime.WaitWake

variable {n : Nat} {s : State n}

/-! ## Moves of one thread that keep its role -/

/-- Two thread states that play the same part in every count of the invariant;
the new one may work on no list where the old one worked on one. -/
structure SameRole (th th' : Thread n) : Prop where
  holding : th.pc.holding = th'.pc.holding
  target : ∀ x, th.pc.target = some x → th'.pc.target = some x
  registeredOn : th.pc.registeredOn = th'.pc.registeredOn
  stamp : th.pc.stamp = th'.pc.stamp
  waitShare : ∀ a, th.waitShare a = th'.waitShare a
  wakePending : ∀ a, th.pc.wakePending a = th'.pc.wakePending a

theorem SameRole.refl (th : Thread n) : SameRole th th :=
  ⟨rfl, fun _ => id, rfl, rfl, fun _ => rfl, fun _ => rfl⟩

/-- A move of one thread to a state of the same role keeps the invariant, once the
moved thread's own `ThreadInv` holds. -/
theorem Inv.setThread (hi : Inv s) {t : Fin n} {th : Thread n} (hth : SameRole th (s.threads t))
    (ht : ThreadInv (s.setThread t th) t) : Inv (s.setThread t th) := by
  have hthr : ∀ u, u ≠ t → (s.setThread t th).threads u = s.threads u := fun u hu => by simp [hu]
  have role : ∀ u, SameRole ((s.setThread t th).threads u) (s.threads u) := fun u => by
    by_cases hu : u = t
    · subst hu; simpa using hth
    · rw [hthr u hu]; exact SameRole.refl _
  refine ⟨hi.toHeapInv.frame rfl rfl (fun _ => ⟨rfl, rfl, rfl⟩) (fun _ _ => rfl)
      (fun u => (role u).holding) (fun u => (role u).target),
    ⟨fun w u hu => ?_, fun w => ?_, fun u hu => ?_⟩,
    hi.toLogInv.frame rfl hthr (role t).waitShare (role t).wakePending,
    hi.thread_frame hthr (fun _ _ => rfl) (fun _ _ _ => Iff.rfl) ht⟩
  · rw [(role u).registeredOn]; exact hi.member w u hu
  · simpa only [State.setThread_heap, (role _).stamp] using hi.fifo w
  · rw [(role u).registeredOn] at hu; rw [(role u).stamp]; exact hi.stamp u hu

/-- An idle thread begins a call. -/
theorem beginCall_inv (hi : Inv s) {t : Fin n} (hidle : (s.threads t).pc = .idle) {p : Pc}
    (hp : p = .idle ∨ (∃ a e T, p = .waitOpen a e T) ∨ ∃ a k, p = .wakeOpen a k) :
    Inv (s.beginCall t p) := by
  have hsig : s.signaled t = false := by simpa [ThreadInv, hidle] using hi.thread t
  rw [State.beginCall_eq]
  rcases hp with rfl | ⟨a, e, T, rfl⟩ | ⟨a, k, rfl⟩ <;>
    exact hi.setThread (by constructor <;> simp [hidle, Pc.holding, Pc.target, Pc.registeredOn,
      Pc.stamp, Thread.waitShare, Pc.waitAddress, Pc.wakePending]) (by simp [ThreadInv, hsig])

/-- A blocked wait times out. -/
theorem timeout_inv (hi : Inv s) {t : Fin n} {a T w st : Nat}
    (hpc : (s.threads t).pc = .waitBlocked a T w st) : Inv (s.setPc t (.waitTimedOut a w st)) :=
  hi.setThread (by constructor <;> simp [hpc, Pc.holding, Pc.target, Pc.registeredOn, Pc.stamp,
    Thread.waitShare, Pc.waitAddress, Pc.wakePending])
    (by simpa [ThreadInv, Registered, hpc] using hi.thread t)

/-- A seq-cst store changes only the memory, which the invariant does not read. -/
theorem store_inv (hi : Inv s) (a : Nat) (v : Int) :
    Inv { s with memory := Function.update s.memory a v } :=
  ⟨⟨hi.target, hi.holding, hi.map, hi.refs, hi.deleted⟩, ⟨hi.member, hi.fifo, hi.stamp⟩,
    ⟨hi.records, hi.accounting⟩, hi.thread⟩

/-- Logging a `wakeAddress` call with a zero count, which returned 0. -/
theorem logWakeZero_inv (hi : Inv s) (c : CallId n) (a : Nat) : Inv (s.addLog (.wake c a 0)) :=
  ⟨⟨hi.target, hi.holding, hi.map, hi.refs, hi.deleted⟩, ⟨hi.member, hi.fifo, hi.stamp⟩,
    ⟨by simpa using hi.records, fun b => by
      simpa [Record.wakeCount, Record.trapCount, Record.signalCount] using hi.accounting b⟩,
    hi.thread⟩

/-! ## `openWaitList` -/

/-- Line 55: the thread takes a reference to the list the map has for `a`. -/
theorem HeapInv.addReference (h : HeapInv s) {s' : State n} {t : Fin n} {a w : Nat}
    (hm : s.addressToWaitListMap a = some w) (hold : (s.threads t).pc.holding = none)
    (hheap : s'.heap = Function.update s.heap w
      { s.heap w with numReferences := (s.heap w).numReferences + 1 })
    (hmap : s'.addressToWaitListMap = s.addressToWaitListMap)
    (hnext : s'.nextWaitList = s.nextWaitList) (hthr : ∀ u, u ≠ t → s'.threads u = s.threads u)
    (hth : (s'.threads t).pc.holding = some w ∧ (s'.threads t).pc.target = some (a, w)) :
    HeapInv s' := by
  obtain ⟨hwlt, hwlive, hwaddr⟩ := h.map a w hm
  have hkeep : ∀ w', (s'.heap w').deletions = (s.heap w').deletions ∧
      (s'.heap w').address = (s.heap w').address := fun w' => by
    by_cases hw : w' = w <;> simp [hheap, hw]
  have hr := refHolders_update t (fun u hu => congrArg Thread.pc (hthr u hu)) w
  rw [hth.1, hold] at hr
  refine ⟨fun u b w' hu => ?_, fun u w' hu => ?_, fun b w' hb => ?_, fun w' hw' => ?_,
    fun w' hw' => ?_⟩
  · rw [hnext, (hkeep w').2]
    by_cases hut : u = t
    · subst hut; rw [hth.2] at hu; obtain ⟨rfl, rfl⟩ := hu; exact ⟨hwlt, hwaddr⟩
    · rw [hthr u hut] at hu; exact h.target u b w' hu
  · rw [(hkeep w').1]
    by_cases hut : u = t
    · subst hut; rw [hth.1] at hu; cases hu; exact hwlive
    · rw [hthr u hut] at hu; exact h.holding u w' hu
  · rw [hmap] at hb; rw [hnext, (hkeep w').1, (hkeep w').2]; exact h.map b w' hb
  · rw [(hkeep w').1] at hw'
    by_cases hw : w' = w
    · subst hw; simp only [hheap, Function.update_same, h.refs w' hw']; simp at hr; omega
    · have hr' := refHolders_update t (fun u hu => congrArg Thread.pc (hthr u hu)) w'
      simp only [hth.1, hold, hw, Ne.symm hw, Option.some.injEq, reduceCtorEq, if_false] at hr'
      rw [hheap, Function.update_noteq hw, h.refs w' hw']; omega
  · have hw : w' ≠ w := by rintro rfl; rw [(hkeep w').1] at hw'; exact hw' hwlive
    rw [(hkeep w').1] at hw'; rw [hheap, Function.update_noteq hw]; exact h.deleted w' hw'

/-- Lines 58–59: the thread takes the one reference of a new list for `a`. -/
theorem HeapInv.newWaitList (h : HeapInv s) {s' : State n} {t : Fin n} {a : Nat}
    (hold : (s.threads t).pc.holding = none)
    (hheap : s'.heap = Function.update s.heap s.nextWaitList ⟨[], 1, 0, a⟩)
    (hmap : s'.addressToWaitListMap =
      Function.update s.addressToWaitListMap a (some s.nextWaitList))
    (hnext : s'.nextWaitList = s.nextWaitList + 1) (hthr : ∀ u, u ≠ t → s'.threads u = s.threads u)
    (hth : (s'.threads t).pc.holding = some s.nextWaitList ∧
      (s'.threads t).pc.target = some (a, s.nextWaitList)) :
    HeapInv s' := by
  have hold' : ∀ w', w' ≠ s.nextWaitList → s'.heap w' = s.heap w' := fun w' hw => by
    rw [hheap, Function.update_noteq hw]
  have hnew : s'.heap s.nextWaitList = ⟨[], 1, 0, a⟩ := by rw [hheap, Function.update_same]
  refine ⟨fun u b w' hu => ?_, fun u w' hu => ?_, fun b w' hb => ?_, fun w' hw' => ?_,
    fun w' hw' => ?_⟩
  · rw [hnext]
    by_cases hut : u = t
    · subst hut; rw [hth.2] at hu; obtain ⟨rfl, rfl⟩ := hu; rw [hnew]; exact ⟨by omega, rfl⟩
    · rw [hthr u hut] at hu
      obtain ⟨hlt, ha⟩ := h.target u b w' hu
      rw [hold' w' (Nat.ne_of_lt hlt)]; exact ⟨by omega, ha⟩
  · by_cases hut : u = t
    · subst hut; rw [hth.1] at hu; cases hu; rw [hnew]
    · rw [hthr u hut] at hu
      rw [hold' w' (Nat.ne_of_lt (h.lt_next_of_holding hu))]; exact h.holding u w' hu
  · rw [hnext]
    by_cases hb' : b = a
    · subst hb'; rw [hmap, Function.update_same] at hb; cases hb; rw [hnew]; exact ⟨by omega, rfl, rfl⟩
    · rw [hmap, Function.update_noteq hb'] at hb
      obtain ⟨hlt, hl, ha⟩ := h.map b w' hb
      rw [hold' w' (Nat.ne_of_lt hlt)]; exact ⟨by omega, hl, ha⟩
  · have hr := refHolders_update t (fun u hu => congrArg Thread.pc (hthr u hu)) w'
    rw [hth.1, hold] at hr
    by_cases hw : w' = s.nextWaitList
    · subst hw
      rw [refHolders_eq_zero fun u hu => Nat.lt_irrefl _ (h.lt_next_of_holding hu)] at hr
      rw [hnew]; simp at hr ⊢; omega
    · rw [hold' w' hw] at hw' ⊢
      simp only [Ne.symm hw, Option.some.injEq, reduceCtorEq, if_false] at hr
      rw [h.refs w' hw']; omega
  · by_cases hw : w' = s.nextWaitList
    · subst hw; rw [hnew] at hw'; exact absurd rfl hw'
    · rw [hold' w' hw] at hw' ⊢; exact h.deleted w' hw'

/-- `openWaitList` by a thread that holds no list and is registered nowhere. The
thread moves to a point `p w` that holds the list `w` it got, with the same
counts. -/
theorem openWaitList_inv (hi : Inv s) {t : Fin n} {a : Nat} {p : Nat → Pc}
    (hold : (s.threads t).pc.holding = none) (hreg : (s.threads t).pc.registeredOn = none)
    (hp : ∀ w, (p w).holding = some w ∧ (p w).target = some (a, w) ∧ (p w).registeredOn = none ∧
      (p w).waitAddress = (s.threads t).pc.waitAddress ∧
      ∀ b, (p w).wakePending b = (s.threads t).pc.wakePending b)
    (ht : ∀ w, ThreadInv ((openWaitList s a).2.setPc t (p w)) t) :
    Inv ((openWaitList s a).2.setPc t (p (openWaitList s a).1)) := by
  have tnot : ∀ w, t ∉ (s.heap w).wakeEvents := fun w => hi.not_mem (by simp [hreg])
  have hshare : ∀ w b, ({ s.threads t with pc := p w } : Thread n).waitShare b =
      (s.threads t).waitShare b := fun w b => by simp [Thread.waitShare, (hp w).2.2.2.1]
  unfold openWaitList at ht ⊢
  split
  · -- the map has a list for `a`
    rename_i w hm
    have hthr : ∀ u, u ≠ t → ((s.modifyWaitList w fun wl =>
        { wl with numReferences := wl.numReferences + 1 }).setPc t (p w)).threads u = s.threads u :=
      fun u hu => by simp [hu]
    have hev : ∀ w', (((s.modifyWaitList w fun wl =>
        { wl with numReferences := wl.numReferences + 1 }).setPc t (p w)).heap w').wakeEvents =
          (s.heap w').wakeEvents := fun w' => by
      by_cases hw : w' = w <;> simp [hw]
    refine ⟨hi.toHeapInv.addReference hm hold rfl rfl rfl hthr (by simpa using ⟨(hp w).1, (hp w).2.1⟩),
      hi.toQueueInv.shrink (t := t) (fun w' => by rw [hev])
        (fun u hu => by rw [hthr u hu]) (by simpa using (hp w).2.2.1)
        (fun w' => by rw [hev]; exact tnot w') rfl,
      hi.toLogInv.frame rfl hthr (by simpa using hshare w) (by simpa using (hp w).2.2.2.2),
      hi.thread_frame hthr (fun _ _ => rfl) (fun u _ w' => by rw [hev]) (by simpa [hm] using ht w)⟩
  · -- no list for `a`: a new one
    rename_i hm
    have hthr : ∀ u, u ≠ t → ((createWaitList s a).setPc t (p s.nextWaitList)).threads u =
        s.threads u := fun u hu => by simp [hu]
    have hnil : (s.heap s.nextWaitList).wakeEvents = [] :=
      hi.events_eq_nil fun u hu => Nat.lt_irrefl _ (hi.lt_next_of_holding hu)
    have hev : ∀ w', (((createWaitList s a).setPc t (p s.nextWaitList)).heap w').wakeEvents =
        (s.heap w').wakeEvents := fun w' => by
      by_cases hw : w' = s.nextWaitList
      · subst hw; simp [hnil]
      · simp [hw]
    refine ⟨hi.toHeapInv.newWaitList hold rfl rfl rfl hthr (by simpa using ⟨(hp _).1, (hp _).2.1⟩),
      hi.toQueueInv.shrink (t := t) (fun w' => by rw [hev]) (fun u hu => by rw [hthr u hu])
        (by simpa using (hp _).2.2.1) (fun w' => by rw [hev]; exact tnot w') rfl,
      hi.toLogInv.frame rfl hthr (by simpa using hshare _) (by simpa using (hp _).2.2.2.2),
      hi.thread_frame hthr (fun _ _ => rfl) (fun u _ w' => by rw [hev])
        (by simpa [hm] using ht s.nextWaitList)⟩

/-! ## Registration and the wait's own exits -/

/-- Registration appends the thread, with the next stamp, to the list it holds. -/
theorem QueueInv.register (hq : QueueInv s) {s' : State n} {t : Fin n} {w : Nat}
    (hreg : (s.threads t).pc.registeredOn = none)
    (hev : ∀ w', (s'.heap w').wakeEvents =
      if w' = w then (s.heap w).wakeEvents ++ [t] else (s.heap w').wakeEvents)
    (hpc : ∀ u, u ≠ t → (s'.threads u).pc = (s.threads u).pc)
    (ht : (s'.threads t).pc.registeredOn = some w ∧ (s'.threads t).pc.stamp = s.registrations)
    (hregs : s'.registrations = s.registrations + 1) : QueueInv s' := by
  have tnot : ∀ w', t ∉ (s.heap w').wakeEvents := fun w' => hq.not_mem (by simp [hreg])
  refine ⟨fun w' u hu => ?_, fun w' => ?_, fun u hu => ?_⟩
  · rw [hev] at hu
    by_cases hut : u = t
    · subst hut; split at hu
      · rename_i hw; rw [hw]; exact ht.1
      · exact absurd hu (tnot w')
    · rw [hpc u hut]; apply hq.member
      split at hu
      · rename_i hw; rw [hw]; simpa [hut] using hu
      · exact hu
  · rw [hev]; split
    · refine List.pairwise_append.mpr ⟨hq.fifo_frame hpc (List.Sublist.refl _) (tnot w),
        List.pairwise_singleton _ _, fun u hu v hv => ?_⟩
      rw [List.mem_singleton] at hv; subst hv
      rw [hpc u (fun e => tnot w (e ▸ hu)), ht.2]
      exact hq.stamp u (by rw [hq.member w u hu]; simp)
    · exact hq.fifo_frame hpc (List.Sublist.refl _) (tnot w')
  · rw [hregs]
    by_cases hut : u = t
    · subst hut; rw [ht.2]; omega
    · rw [hpc u hut] at hu ⊢; have := hq.stamp u hu; omega

/-- Line 144: the thread registers on the list it holds, and blocks. -/
theorem registerWaiter_inv (hi : Inv s) {t : Fin n} {a : Nat} {e : Int} {T w : Nat}
    (hpc : (s.threads t).pc = .waitCheck a e T w) : Inv (registerWaiter s t a T w) := by
  obtain ⟨hsig, -, hsigs, hrm⟩ : s.signaled t = false ∧ (s.threads t).registered = false ∧
      (s.threads t).signalers = [] ∧ (s.threads t).removedSelf = false := by
    simpa [ThreadInv, hpc] using hi.thread t
  have hthr : ∀ u, u ≠ t → (registerWaiter s t a T w).threads u = s.threads u :=
    fun u hu => by simp [hu]
  have hev : ∀ w', ((registerWaiter s t a T w).heap w').wakeEvents =
      if w' = w then (s.heap w).wakeEvents ++ [t] else (s.heap w').wakeEvents := fun w' => by
    by_cases hw : w' = w <;> simp [hw]
  refine ⟨hi.toHeapInv.setEvents (hi.holding t w (by simp [hpc, Pc.holding])) rfl rfl rfl
      (fun u => ?_) (fun u x => ?_),
    hi.toQueueInv.register (by simp [hpc, Pc.registeredOn]) hev
      (fun u hu => congrArg Thread.pc (hthr u hu)) (by simp [Pc.registeredOn, Pc.stamp]) rfl,
    hi.toLogInv.frame rfl hthr (fun b => by simp [Thread.waitShare, hpc, Pc.waitAddress])
      (fun b => by simp [hpc, Pc.wakePending]),
    hi.thread_frame hthr (fun _ _ => rfl) (fun u hu w' => by rw [hev]; split <;> simp_all) ?_⟩
  · by_cases hu : u = t <;> simp [hu, hpc, Pc.holding]
  · by_cases hu : u = t <;> simp [hu, hpc, Pc.target]
  · simp [ThreadInv, Registered, hsig, hsigs, hrm]

/-- Lines 130–146: the locked value check; on a mismatch the wait returns 1. -/
theorem waitCheck_inv (hi : Inv s) {t : Fin n} {a : Nat} {e : Int} {T w : Nat}
    (hpc : (s.threads t).pc = .waitCheck a e T w) : Inv (waitCheck s t a e T w) := by
  unfold waitCheck
  split
  · exact registerWaiter_inv hi hpc
  · exact hi.setThread (by constructor <;> simp [hpc, Pc.holding, Pc.target, Pc.registeredOn,
      Pc.stamp, Thread.waitShare, Pc.waitAddress, Pc.wakePending])
      (by simpa [ThreadInv, hpc, WaitOutcome] using hi.thread t)

/-- `waitForEvent` consumes the signal of a registered thread that a wake removed
from its list; the wait will return 0. -/
theorem consumeSignal_inv (hi : Inv s) {t : Fin n} {a w : Nat}
    (hreg : (s.threads t).pc.registeredOn = some w)
    (htarget : (s.threads t).pc.target = some (a, w)) (hsig : s.signaled t = true) :
    Inv (consumeSignal s t a w) := by
  obtain ⟨hhold, hwa, hwp⟩ := Pc.of_registeredOn hreg htarget
  obtain ⟨hr, hrm, ⟨-, -, hf⟩ | ⟨hnot, hlen, -⟩⟩ :=
    (threadInv_of_registeredOn hreg).mp (hi.thread t)
  · simp [hsig] at hf
  have tnot : ∀ w', t ∉ (s.heap w').wakeEvents := fun w' => by
    by_cases hw : w' = w
    · rw [hw]; exact hnot
    · exact hi.not_mem (by simp [hreg, Ne.symm hw])
  have hthr : ∀ u, u ≠ t → (consumeSignal s t a w).threads u = s.threads u :=
    fun u hu => by simp [hu]
  refine ⟨hi.toHeapInv.frame rfl rfl (fun _ => ⟨rfl, rfl, rfl⟩) (fun _ _ => rfl)
      (fun u => ?_) (fun u x => ?_),
    hi.toQueueInv.shrink (t := t) (fun _ => List.Sublist.refl _)
      (fun u hu => congrArg Thread.pc (hthr u hu)) (by simp [Pc.registeredOn]) tnot rfl,
    hi.toLogInv.frame rfl hthr (Thread.waitShare_eq (by rw [hwa]; simp [Pc.waitAddress]) (by simp))
      (fun b => by rw [hwp]; simp [Pc.wakePending]),
    hi.thread_frame hthr (fun u hu => by simp [hu]) (fun _ _ _ => Iff.rfl) ?_⟩
  · by_cases hu : u = t
    · subst hu; rw [hhold]; simp [Pc.holding]
    · simp [hu]
  · by_cases hu : u = t
    · subst hu; rw [htarget]; simp [Pc.target]
    · simp [hu]
  · simp [ThreadInv, WaitOutcome, hr, hlen, hrm]

/-- Line 158: a timed-out thread still on its list erases its own event; the wait
will return 2. -/
theorem removeOwnEvent_inv (hi : Inv s) {t : Fin n} {a w : Nat}
    (hreg : (s.threads t).pc.registeredOn = some w)
    (htarget : (s.threads t).pc.target = some (a, w)) (hmem : t ∈ (s.heap w).wakeEvents) :
    Inv (removeOwnEvent s t a w) := by
  obtain ⟨hhold, hwa, hwp⟩ := Pc.of_registeredOn hreg htarget
  obtain ⟨hr, hrm, ⟨-, hsigs, hsig⟩ | ⟨hnot, -, -⟩⟩ :=
    (threadInv_of_registeredOn hreg).mp (hi.thread t)
  swap
  · exact absurd hmem hnot
  have hthr : ∀ u, u ≠ t → (removeOwnEvent s t a w).threads u = s.threads u :=
    fun u hu => by simp [hu]
  have hev : ∀ w', ((removeOwnEvent s t a w).heap w').wakeEvents =
      if w' = w then (s.heap w).wakeEvents.erase t else (s.heap w').wakeEvents := fun w' => by
    by_cases hw : w' = w <;> simp [hw]
  refine ⟨hi.toHeapInv.setEvents (hi.holding t w hhold) rfl rfl rfl (fun u => ?_) (fun u x => ?_),
    hi.toQueueInv.shrink (t := t) (fun w' => ?_) (fun u hu => congrArg Thread.pc (hthr u hu))
      (by simp [Pc.registeredOn]) (fun w' => ?_) rfl,
    hi.toLogInv.frame rfl hthr (Thread.waitShare_eq (by rw [hwa]; simp [Pc.waitAddress]) (by simp))
      (fun b => by rw [hwp]; simp [Pc.wakePending]),
    hi.thread_frame hthr (fun _ _ => rfl) (fun u hu w' => ?_) ?_⟩
  · by_cases hu : u = t
    · subst hu; rw [hhold]; simp [Pc.holding]
    · simp [hu]
  · by_cases hu : u = t
    · subst hu; rw [htarget]; simp [Pc.target]
    · simp [hu]
  · rw [hev]; split
    · rename_i hw; rw [hw]; exact List.erase_sublist ..
    · exact List.Sublist.refl _
  · rw [hev]; split
    · exact (hi.nodup w).not_mem_erase
    · rename_i hw; exact hi.not_mem (by simp [hreg, Ne.symm hw])
  · rw [hev]; split
    · rename_i hw; rw [hw]; exact List.mem_erase_of_ne hu
    · rfl
  · simp [ThreadInv, WaitOutcome, hr, hsigs, hsig]

/-- Lines 153–166: the re-check after a timeout. The `errorUnless` at line 165
never fails: a thread no longer on its list has been signaled. -/
theorem waitTimedOut_inv (hi : Inv s) {t : Fin n} {a w st : Nat}
    (hpc : (s.threads t).pc = .waitTimedOut a w st) : Inv (waitTimedOut s t a w) := by
  have hreg : (s.threads t).pc.registeredOn = some w := by simp [hpc, Pc.registeredOn]
  have htarget : (s.threads t).pc.target = some (a, w) := by simp [hpc, Pc.target]
  unfold waitTimedOut
  split
  · exact removeOwnEvent_inv hi hreg htarget ‹_›
  · obtain ⟨-, -, ⟨hm, -⟩ | ⟨-, -, hsig⟩⟩ := (threadInv_of_registeredOn hreg).mp (hi.thread t)
    · contradiction
    · rw [if_pos hsig]; exact consumeSignal_inv hi hreg htarget hsig

/-! ## `wakeLocked` -/

/-- Counting the threads on a list without duplicates. -/
theorem sum_ite_mem {L : List (Fin n)} (h : L.Nodup) :
    (∑ u : Fin n, if u ∈ L then 1 else 0) = L.length := by
  rw [Finset.sum_boole, Nat.cast_id, ← List.toFinset_card_of_nodup h]
  congr 1; ext u; simp

/-- A wake's signals reach both sides of the accounting: each woken waiter, in a
wait on `a`, gains one signaler, and the wake's pending count on `a` gains as
many as it woke. -/
theorem LogInv.signal (hl : LogInv s) {s' : State n} {t : Fin n} {a : Nat} {c : CallId n}
    {woken : List (Fin n)} (hnd : woken.Nodup) (htw : t ∉ woken)
    (hwa : ∀ u ∈ woken, (s.threads u).pc.waitAddress = some a) (hlog : s'.log = s.log)
    (hthreads : ∀ u, u ≠ t → s'.threads u = noteSignals s.threads woken c u)
    (hshare : ∀ b, (s'.threads t).waitShare b = (s.threads t).waitShare b)
    (hpend : ∀ b, (s'.threads t).pc.wakePending b =
      (s.threads t).pc.wakePending b + if a = b then woken.length else 0) : LogInv s' := by
  refine ⟨hlog ▸ hl.records, fun b => ?_⟩
  have hpc : ∀ u, u ≠ t → (s'.threads u).pc = (s.threads u).pc := fun u hu => by
    rw [hthreads u hu]; unfold noteSignals; split <;> rfl
  have hshare' : ∀ u, (s'.threads u).waitShare b =
      (s.threads u).waitShare b + if a = b then (if u ∈ woken then 1 else 0) else 0 := fun u => by
    by_cases hut : u = t
    · subst hut; simp [hshare, htw]
    · rw [hthreads u hut]; unfold noteSignals
      split
      · rename_i hu; simp only [Thread.waitShare, hwa u hu, Option.some.injEq]
        split <;> simp [*]
      · simp [*]
  have hw : waitPending s' b = waitPending s b + if a = b then woken.length else 0 := by
    unfold waitPending
    rw [Finset.sum_congr rfl fun u _ => hshare' u, Finset.sum_add_distrib]
    split <;> simp [sum_ite_mem hnd]
  have hk := wakePending_update t hpc b
  have := hl.accounting b
  rw [hpend] at hk; rw [hlog, hw]; omega

/-- Lines 181–198: the wake signals and erases the oldest `K` events of the list
`w` it holds. -/
theorem Inv.signalOldest (hi : Inv s) {s' : State n} {t : Fin n} {a w K : Nat} {k : UInt32}
    (hpc : (s.threads t).pc = .wakeLocked a k w) (hK : K ≤ (s.heap w).wakeEvents.length)
    (hheap : s'.heap = Function.update s.heap w
      { s.heap w with wakeEvents := (s.heap w).wakeEvents.drop K })
    (hsignaled : s'.signaled = signalEvents ((s.heap w).wakeEvents.take K) s.signaled)
    (hthreads : s'.threads = Function.update
      (noteSignals s.threads ((s.heap w).wakeEvents.take K) (s.callOf t)) t
      { s.threads t with pc := .closeDecrement a w (.wake K) })
    (hmap : s'.addressToWaitListMap = s.addressToWaitListMap)
    (hnext : s'.nextWaitList = s.nextWaitList) (hregs : s'.registrations = s.registrations)
    (hlog : s'.log = s.log) : Inv s' := by
  have hsig : s.signaled t = false := by simpa [ThreadInv, hpc] using hi.thread t
  have tnot : ∀ w', t ∉ (s.heap w').wakeEvents :=
    fun w' => hi.not_mem (by simp [hpc, Pc.registeredOn])
  have hlen : ((s.heap w).wakeEvents.take K).length = K := by simp [hK]
  have hdrop : ∀ u ∈ (s.heap w).wakeEvents.take K, u ∉ (s.heap w).wakeEvents.drop K :=
    fun u hu hd => List.disjoint_take_drop (hi.nodup w) le_rfl hu hd
  have hwa : ∀ u ∈ (s.heap w).wakeEvents.take K, (s.threads u).pc.waitAddress = some a := by
    intro u hu
    rw [hi.waitAddress_of_mem ((List.take_sublist _ _).subset hu),
      (hi.target t a w (by simp [hpc, Pc.target])).2]
  generalize hwk : (s.heap w).wakeEvents.take K = woken at hsignaled hthreads hlen hdrop hwa
  have hin : ∀ u ∈ woken, u ∈ (s.heap w).wakeEvents :=
    fun u hu => (List.take_sublist K _).subset (hwk ▸ hu)
  have htw : t ∉ woken := fun h => tnot w (hin t h)
  have hpc' : ∀ u, u ≠ t → (s'.threads u).pc = (s.threads u).pc := fun u hu => by
    rw [hthreads, Function.update_noteq hu]; unfold noteSignals; split <;> rfl
  have htt : s'.threads t = { s.threads t with pc := .closeDecrement a w (.wake K) } := by
    rw [hthreads, Function.update_same]
  have hev : ∀ w', (s'.heap w').wakeEvents =
      if w' = w then (s.heap w).wakeEvents.drop K else (s.heap w').wakeEvents := fun w' => by
    by_cases hw : w' = w <;> simp [hheap, hw]
  refine ⟨hi.toHeapInv.setEvents (hi.holding t w (by simp [hpc, Pc.holding])) hheap hmap hnext
      (fun u => ?_) (fun u x => ?_),
    hi.toQueueInv.shrink (t := t) (fun w' => ?_) hpc' (by simp [htt, Pc.registeredOn])
      (fun w' => ?_) hregs,
    hi.toLogInv.signal ((hi.nodup w).sublist (hwk ▸ List.take_sublist _ _)) htw hwa hlog
      (fun u hu => by rw [hthreads, Function.update_noteq hu])
      (fun b => by simp [htt, hpc, Thread.waitShare, Pc.waitAddress])
      (fun b => by simp [htt, hpc, Pc.wakePending, hlen]),
    fun u => ?_⟩
  · by_cases hu : u = t
    · subst hu; simp [htt, hpc, Pc.holding]
    · rw [hpc' u hu]
  · by_cases hu : u = t
    · subst hu; simp [htt, hpc, Pc.target]
    · rw [hpc' u hu]; exact id
  · rw [hev]; split
    · rename_i hw; rw [hw]; exact List.drop_sublist _ _
    · exact List.Sublist.refl _
  · rw [hev]; split
    · exact fun h => tnot w (List.mem_of_mem_drop h)
    · exact tnot w'
  · by_cases hut : u = t
    · subst hut; simp [ThreadInv, htt, hsignaled, hsig, htw]
    by_cases huw : u ∈ woken
    · -- a woken waiter: off its list, signaled by this call
      have hreg := hi.member w u (hin u huw)
      obtain ⟨hr, hrm, ⟨-, hsigs, -⟩ | ⟨hnot, -, -⟩⟩ :=
        (threadInv_of_registeredOn hreg).mp (hi.thread u)
      swap
      · exact absurd (hin u huw) hnot
      have htu : s'.threads u =
          { s.threads u with signalers := (s.threads u).signalers ++ [s.callOf t] } := by
        rw [hthreads, Function.update_noteq hut]; simp [noteSignals, huw]
      refine (threadInv_of_registeredOn (by rw [hpc' u hut]; exact hreg)).mpr
        ⟨by simp [htu, hr], by simp [htu, hrm], .inr ⟨?_, by simp [htu, hsigs], by simp [hsignaled, huw]⟩⟩
      rw [hev, if_pos rfl]; exact hdrop u huw
    · -- any other thread: nothing it reads changes
      refine (threadInv_congr ?_ (by simp [hsignaled, huw]) fun w' => ?_).mpr (hi.thread u)
      · rw [hthreads, Function.update_noteq hut]; simp [noteSignals, huw]
      · rw [hev]; split
        · rename_i hw; rw [hw]
          refine ⟨List.mem_of_mem_drop, fun h => ?_⟩
          rw [← List.take_append_drop K (s.heap w).wakeEvents, hwk] at h
          exact (List.mem_append.mp h).resolve_left huw
        · rfl

theorem wakeLockedStep_inv (hi : Inv s) {t : Fin n} {a : Nat} {k : UInt32} {w : Nat}
    (hpc : (s.threads t).pc = .wakeLocked a k w) : Inv (wakeLockedStep s t a k w) :=
  hi.signalOldest hpc (actualNumToWake_le _ _) rfl rfl rfl rfl rfl rfl rfl

/-! ## `closeWaitList` -/

/-- Line 68: the thread gives up its reference to the list it holds. -/
theorem HeapInv.release (h : HeapInv s) {s' : State n} {t : Fin n} {w : Nat}
    (hold : (s.threads t).pc.holding = some w)
    (hheap : s'.heap = Function.update s.heap w
      { s.heap w with numReferences := (s.heap w).numReferences - 1 })
    (hmap : s'.addressToWaitListMap = s.addressToWaitListMap)
    (hnext : s'.nextWaitList = s.nextWaitList) (hthr : ∀ u, u ≠ t → s'.threads u = s.threads u)
    (hth : (s'.threads t).pc.holding = none)
    (htarget : ∀ x, (s'.threads t).pc.target = some x → (s.threads t).pc.target = some x) :
    HeapInv s' := by
  have hlive := h.holding t w hold
  have hkeep : ∀ w', (s'.heap w').deletions = (s.heap w').deletions ∧
      (s'.heap w').address = (s.heap w').address := fun w' => by
    by_cases hw : w' = w <;> simp [hheap, hw]
  refine ⟨fun u b w' hu => ?_, fun u w' hu => ?_, fun b w' hb => ?_, fun w' hw' => ?_,
    fun w' hw' => ?_⟩
  · rw [hnext, (hkeep w').2]
    by_cases hut : u = t
    · subst hut; exact h.target u b w' (htarget _ hu)
    · rw [hthr u hut] at hu; exact h.target u b w' hu
  · have hut : u ≠ t := by rintro rfl; rw [hth] at hu; cases hu
    rw [hthr u hut] at hu; rw [(hkeep w').1]; exact h.holding u w' hu
  · rw [hmap] at hb; rw [hnext, (hkeep w').1, (hkeep w').2]; exact h.map b w' hb
  · rw [(hkeep w').1] at hw'
    have hr := refHolders_update t (fun u hu => congrArg Thread.pc (hthr u hu)) w'
    rw [hth, hold] at hr
    by_cases hw : w' = w
    · subst hw; rw [hheap, Function.update_same, h.refs w' hw']; simp at hr ⊢; omega
    · simp only [hw, Ne.symm hw, Option.some.injEq, reduceCtorEq, if_false] at hr
      rw [hheap, Function.update_noteq hw, h.refs w' hw']; omega
  · have hw : w' ≠ w := by rintro rfl; rw [(hkeep w').1] at hw'; exact hw' hlive
    rw [(hkeep w').1] at hw'; rw [hheap, Function.update_noteq hw]; exact h.deleted w' hw'

/-- Line 68: the decrement, then the re-check if it reached 0, else the return. -/
theorem closeDecrement_inv (hi : Inv s) {t : Fin n} {a w : Nat} {r : Resume}
    (hpc : (s.threads t).pc = .closeDecrement a w r) : Inv (closeDecrement s t a w r) := by
  obtain ⟨p, hp, hs'⟩ : ∃ p : Pc, (p = .closeRecheck a w r ∨ p = .returning a r) ∧
      closeDecrement s t a w r = (s.modifyWaitList w fun wl =>
        { wl with numReferences := wl.numReferences - 1 }).setPc t p :=
    ⟨_, by split <;> simp, rfl⟩
  generalize closeDecrement s t a w r = s' at hs' ⊢
  have hthr : ∀ u, u ≠ t → s'.threads u = s.threads u := fun u hu => by simp [hs', hu]
  have hev : ∀ w', (s'.heap w').wakeEvents = (s.heap w').wakeEvents := fun w' => by
    by_cases hw : w' = w <;> simp [hs', hw]
  have htt : (s'.threads t).pc = p := by simp [hs']
  refine ⟨hi.toHeapInv.release (w := w) (by simp [hpc, Pc.holding]) (by rw [hs']; rfl)
      (by rw [hs']; rfl) (by rw [hs']; rfl) hthr (by rcases hp with rfl | rfl <;> simp [htt, Pc.holding])
      (fun x hx => ?_),
    hi.toQueueInv.shrink (t := t) (fun w' => by rw [hev]) (fun u hu => congrArg Thread.pc (hthr u hu))
      (by rcases hp with rfl | rfl <;> simp [htt, Pc.registeredOn])
      (fun w' => by rw [hev]; exact hi.not_mem (by simp [hpc, Pc.registeredOn])) (by simp [hs']),
    hi.toLogInv.frame (by simp [hs']) hthr
      (Thread.waitShare_eq (by rcases hp with rfl | rfl <;> cases r <;>
        simp [htt, hpc, Pc.waitAddress]) (by simp [hs']))
      (fun b => by rcases hp with rfl | rfl <;> cases r <;> simp [htt, hpc, Pc.wakePending]),
    hi.thread_frame hthr (fun u _ => by simp [hs']) (fun u _ w' => by rw [hev]) ?_⟩
  · rcases hp with rfl | rfl <;> simp_all [Pc.target]
  · have ht := hi.thread t
    rcases hp with rfl | rfl <;> cases r <;> simpa [ThreadInv, hpc, hs'] using ht

/-- Lines 73–75: `delete` and `erase(address)` on a list whose count reads 0. -/
theorem HeapInv.delete (h : HeapInv s) {s' : State n} {t : Fin n} {a w : Nat}
    (hold : (s.threads t).pc.holding = none) (htarget : (s.threads t).pc.target = some (a, w))
    (h0 : (s.heap w).numReferences = 0) (hnil : (s.heap w).wakeEvents = [])
    (hheap : s'.heap = Function.update s.heap w
      { s.heap w with deletions := (s.heap w).deletions + 1 })
    (hmap : s'.addressToWaitListMap = Function.update s.addressToWaitListMap a none)
    (hnext : s'.nextWaitList = s.nextWaitList) (hthr : ∀ u, u ≠ t → s'.threads u = s.threads u)
    (hth : (s'.threads t).pc.holding = none ∧ (s'.threads t).pc.target = none) :
    HeapInv s' := by
  have haddr := (h.target t a w htarget).2
  have nohold := h.not_holding_of_refs_zero h0
  have hkeep : ∀ w', w' ≠ w → s'.heap w' = s.heap w' := fun w' hw => by
    rw [hheap, Function.update_noteq hw]
  have hdel : (s'.heap w).deletions ≠ 0 := by simp [hheap]
  refine ⟨fun u b w' hu => ?_, fun u w' hu => ?_, fun b w' hb => ?_, fun w' hw' => ?_,
    fun w' hw' => ?_⟩
  · have hut : u ≠ t := by rintro rfl; rw [hth.2] at hu; cases hu
    rw [hthr u hut] at hu; rw [hnext]
    by_cases hw : w' = w
    · subst hw; simpa [hheap] using h.target u b w' hu
    · rw [hkeep w' hw]; exact h.target u b w' hu
  · have hut : u ≠ t := by rintro rfl; rw [hth.1] at hu; cases hu
    rw [hthr u hut] at hu
    rw [hkeep w' fun e => nohold u (e ▸ hu)]; exact h.holding u w' hu
  · have hb' : b ≠ a := by rintro rfl; rw [hmap, Function.update_same] at hb; cases hb
    rw [hmap, Function.update_noteq hb'] at hb
    obtain ⟨hlt, hl, ha⟩ := h.map b w' hb
    have hw : w' ≠ w := by rintro rfl; exact hb' (ha.symm.trans haddr)
    rw [hnext, hkeep w' hw]; exact ⟨hlt, hl, ha⟩
  · have hw : w' ≠ w := by rintro rfl; exact hdel hw'
    have hr := refHolders_update t (fun u hu => congrArg Thread.pc (hthr u hu)) w'
    rw [hth.1, hold] at hr
    rw [hkeep w' hw] at hw' ⊢; rw [h.refs w' hw']; simp at hr; omega
  · by_cases hw : w' = w
    · subst hw; simp [hheap, hnil, h0]
    · rw [hkeep w' hw] at hw' ⊢; exact h.deleted w' hw'

/-- Lines 70–76: the re-check under the map mutex. A list whose count reads 0 is
held by no thread and so has no events, and the `assert` at line 73 holds; for a
deleted list this rests on the model's reading of freed memory. -/
theorem closeRecheck_inv (hi : Inv s) {t : Fin n} {a w : Nat} {r : Resume}
    (hpc : (s.threads t).pc = .closeRecheck a w r) : Inv (closeRecheck s t a w r) := by
  have hrole : SameRole { s.threads t with pc := .returning a r } (s.threads t) := by
    cases r <;> constructor <;> simp [hpc, Pc.holding, Pc.target, Pc.registeredOn, Pc.stamp,
      Thread.waitShare, Pc.waitAddress, Pc.wakePending]
  have ht : ∀ s' : State n, s'.threads t = { s.threads t with pc := .returning a r } →
      s'.signaled t = s.signaled t → ThreadInv s' t := fun s' h1 h2 => by
    have := hi.thread t
    cases r <;> simpa [ThreadInv, hpc, h1, h2] using this
  unfold closeRecheck
  split
  · rename_i h0
    rw [if_pos (hi.events_eq_nil (hi.not_holding_of_refs_zero h0))]
    generalize hs' : (deleteWaitList s a w).setPc t (.returning a r) = s'
    have hthr : ∀ u, u ≠ t → s'.threads u = s.threads u := fun u hu => by simp [← hs', hu]
    have hev : ∀ w', (s'.heap w').wakeEvents = (s.heap w').wakeEvents := fun w' => by
      by_cases hw : w' = w <;> simp [← hs', hw]
    have htt : s'.threads t = { s.threads t with pc := .returning a r } := by simp [← hs']
    refine ⟨hi.toHeapInv.delete (a := a) (w := w) (by simp [hpc, Pc.holding]) (by simp [hpc, Pc.target]) h0
        (hi.events_eq_nil (hi.not_holding_of_refs_zero h0)) (by rw [← hs']; rfl) (by rw [← hs']; rfl)
        (by rw [← hs']; rfl) hthr (by simp [htt, Pc.holding, Pc.target]),
      hi.toQueueInv.shrink (t := t) (fun w' => by rw [hev])
        (fun u hu => congrArg Thread.pc (hthr u hu)) (by simp [htt, Pc.registeredOn])
        (fun w' => by rw [hev]; exact hi.not_mem (by simp [hpc, Pc.registeredOn]))
        (by simp [← hs']),
      hi.toLogInv.frame (by simp [← hs']) hthr (by rw [htt]; exact hrole.waitShare)
        (by rw [htt]; exact hrole.wakePending),
      hi.thread_frame hthr (fun u _ => by simp [← hs']) (fun u _ w' => by rw [hev])
        (ht s' htt (by simp [← hs']))⟩
  · exact hi.setThread hrole (ht _ (by simp) (by simp))

/-! ## The return of a call -/

/-- The return of thread `t`'s call moves its counts to the log: the record's
counts on each address are what the thread had pending. -/
theorem LogInv.addRecord (hl : LogInv s) {s' : State n} {t : Fin n} {rec : Record n}
    (hlog : s'.log = rec :: s.log) (hthr : ∀ u, u ≠ t → s'.threads u = s.threads u)
    (hrec : ∀ d a r reg sigs rm, rec = .wait d a r reg sigs rm → WaitOutcome r reg sigs rm)
    (hcount : ∀ b, rec.wakeCount b + rec.trapCount b + (s'.threads t).pc.wakePending b +
      (s.threads t).waitShare b = rec.signalCount b + (s'.threads t).waitShare b +
        (s.threads t).pc.wakePending b) : LogInv s' := by
  refine ⟨fun d a r reg sigs rm h => ?_, fun b => ?_⟩
  · rw [hlog, List.mem_cons] at h
    rcases h with h | h
    · exact hrec d a r reg sigs rm h.symm
    · exact hl.records d a r reg sigs rm h
  · have hw := waitPending_update t hthr b
    have hk := wakePending_update t (fun u hu => congrArg Thread.pc (hthr u hu)) b
    have := hl.accounting b
    have := hcount b
    rw [hlog, logTotal_cons, logTotal_cons, logTotal_cons]; omega

/-- The call returns and is logged. -/
theorem finish_inv (hi : Inv s) {t : Fin n} {a : Nat} {r : Resume}
    (hpc : (s.threads t).pc = .returning a r) : Inv (finish s t a r) := by
  have hthr : ∀ u, u ≠ t → (finish s t a r).threads u = s.threads u :=
    fun u hu => by simp [finish, hu]
  have hsig : s.signaled t = false := by
    have := hi.thread t
    cases r <;> simp only [ThreadInv, hpc] at this <;> simp [this]
  refine ⟨hi.toHeapInv.frame rfl rfl (fun _ => ⟨rfl, rfl, rfl⟩) (fun _ _ => rfl)
      (fun u => ?_) (fun u x => ?_),
    hi.toQueueInv.shrink (t := t) (fun _ => List.Sublist.refl _)
      (fun u hu => congrArg Thread.pc (hthr u hu)) (by simp [finish, Pc.registeredOn])
      (fun w => hi.not_mem (by simp [hpc, Pc.registeredOn])) rfl,
    hi.toLogInv.addRecord rfl hthr (fun d a' r' reg sigs rm h => ?_) (fun b => ?_),
    hi.thread_frame hthr (fun _ _ => rfl) (fun _ _ _ => Iff.rfl) ?_⟩
  · by_cases hu : u = t <;> simp [finish, hu, hpc, Pc.holding]
  · by_cases hu : u = t <;> simp [finish, hu, hpc, Pc.target]
  · cases r with
    | wait res =>
      simp only [callRecord, Record.wait.injEq] at h
      obtain ⟨-, -, rfl, rfl, rfl, rfl⟩ := h
      have := hi.thread t
      simp only [ThreadInv, hpc] at this
      exact this.2
    | wake k => simp only [callRecord, wakeRecord] at h; split at h <;> cases h
  · cases r with
    | wait res =>
      by_cases hab : a = b <;>
        simp [callRecord, finish, hpc, hab, Record.wakeCount, Record.trapCount, Record.signalCount,
          Thread.waitShare, Pc.waitAddress, Pc.wakePending]
    | wake k =>
      obtain ⟨h1, h2⟩ := wakeRecord_counts (s.callOf t) a k b
      simp only [callRecord, h2]
      simp [finish, hpc, Thread.waitShare, Pc.waitAddress, Pc.wakePending]; omega
  · simpa [ThreadInv, finish] using hsig

/-! ## A step moves only its own thread -/

theorem noteSignals_pc (threads : Fin n → Thread n) (woken : List (Fin n)) (c : CallId n)
    (u : Fin n) : (noteSignals threads woken c u).pc = (threads u).pc := by
  unfold noteSignals; split <;> rfl

theorem runStep_pc_frame {s' : State n} {t u : Fin n} (h : runStep s t = some s') (hu : u ≠ t) :
    (s'.threads u).pc = (s.threads u).pc := by
  unfold runStep at h
  split at h
  · cases h
  · cases h; show (((openWaitList s _).2.setPc t _).threads u).pc = _; simp [hu]
  · cases h; unfold waitCheck; split <;> simp [hu]
  · split at h
    · cases h; simp [hu]
    · cases h
  · cases h; unfold waitTimedOut; split
    · simp [hu]
    · split <;> simp [hu]
  · cases h; show (((openWaitList s _).2.setPc t _).threads u).pc = _; simp [hu]
  · cases h; simp [hu, noteSignals_pc]
  · cases h; simp [closeDecrement, hu]
  · cases h; unfold closeRecheck; split
    · split <;> simp [hu]
    · simp [hu]
  · cases h; simp [finish, hu]
  · cases h
  · cases h

/-! ## Every step, and every interleaving -/

theorem init_inv (memory : Nat → Int) : Inv (init memory : State n) := by
  refine ⟨⟨?_, ?_, ?_, ?_, ?_⟩, ⟨?_, ?_, ?_⟩, ⟨?_, ?_⟩, ?_⟩ <;>
    simp [init, refHolders, ThreadInv, waitPending, wakePending, logTotal, Pc.target, Pc.holding,
      Pc.registeredOn, Thread.waitShare, Pc.waitAddress, Pc.wakePending]

theorem runStep_inv (hi : Inv s) {t : Fin n} {s' : State n} (h : runStep s t = some s') :
    Inv s' := by
  unfold runStep at h
  split at h
  · cases h
  · rename_i a e T hpc
    cases h
    exact openWaitList_inv hi (by simp [hpc, Pc.holding]) (by simp [hpc, Pc.registeredOn])
      (fun w => by simp [hpc, Pc.holding, Pc.target, Pc.registeredOn, Pc.waitAddress, Pc.wakePending])
      (fun w => by simpa [ThreadInv, hpc] using hi.thread t)
  · rename_i a e T w hpc; cases h; exact waitCheck_inv hi hpc
  · rename_i a T w st hpc
    split at h
    · cases h
      exact consumeSignal_inv hi (by simp [hpc, Pc.registeredOn]) (by simp [hpc, Pc.target]) ‹_›
    · cases h
  · rename_i a w st hpc; cases h; exact waitTimedOut_inv hi hpc
  · rename_i a k hpc
    cases h
    exact openWaitList_inv hi (by simp [hpc, Pc.holding]) (by simp [hpc, Pc.registeredOn])
      (fun w => by simp [hpc, Pc.holding, Pc.target, Pc.registeredOn, Pc.waitAddress, Pc.wakePending])
      (fun w => by simpa [ThreadInv, hpc] using hi.thread t)
  · rename_i a k w hpc; cases h; exact wakeLockedStep_inv hi hpc
  · rename_i a w r hpc; cases h; exact closeDecrement_inv hi hpc
  · rename_i a w r hpc; cases h; exact closeRecheck_inv hi hpc
  · rename_i a r hpc; cases h; exact finish_inv hi hpc
  · cases h
  · cases h

/-- Every step keeps the invariant. -/
theorem step_inv (hi : Inv s) {a : Action n} {s' : State n} (h : step s a = some s') : Inv s' := by
  cases a with
  | atomicWait t address expected endTime =>
    simp only [step] at h
    split at h
    · cases h; exact beginCall_inv hi ‹_› (.inr (.inl ⟨_, _, _, rfl⟩))
    · cases h
  | atomicWake t address numToWake =>
    simp only [step] at h
    split at h
    · split at h
      · cases h; exact logWakeZero_inv (beginCall_inv hi ‹_› (.inl rfl)) _ _
      · cases h; exact beginCall_inv hi ‹_› (.inr (.inr ⟨_, _, rfl⟩))
    · cases h
  | store t address value =>
    simp only [step] at h
    split at h
    · cases h; exact store_inv hi _ _
    · cases h
  | run t => exact runStep_inv hi h
  | timeout t =>
    simp only [step] at h
    split at h
    · rename_i a T w st hpc
      split at h
      · cases h
      · cases h; exact timeout_inv hi hpc
    · cases h

/-- The invariant holds in every state an interleaving reaches. -/
theorem Reachable.inv {s : State n} (h : Reachable s) : Inv s := by
  induction h with
  | init memory => exact init_inv memory
  | step _ _ hstep ih => exact step_inv ih hstep

end Wavm.Runtime.WaitWake
