import Wavm.Runtime.WaitListSteps

/-! # What the wait-list invariant says about every interleaving

Consequences of `Reachable.inv`, one for each property of the wait/wake
subsystem that survives the defect of `closeWaitList`
(`closeWaitList_rechecks_freed_list`):

1. `token_hygiene`: a thread's event is on at most one list, at most once, and
   only while its wait is registered there and no wake has removed it; it is set
   only between a wake's removal and the wait's consumption of the signal. So the
   `errorUnless` at line 165 never fails, and no wait sees a stale signal.
2. `waitList_fifo`: each list holds exactly its registered waiters that no wake has
   removed, oldest registration first, and `wakeLocked` signals the oldest.
3. `wake_accounting`: what each finished wait did; and, with at most `UINT32_MAX`
   threads, no wake traps at line 203 and, once no call is in progress, the counts
   the wakes on an address returned equal the waits on it that returned 0. A wake
   signals distinct threads, so it signals at most as many events as there are
   threads (`WakeBound`, a second invariant).
4. `map_live_counted`: the map points only to live lists, each live list is counted
   by the threads holding it, and a live list whose count reads 0 is empty and held
   by no thread, so the `assert` at line 73 holds whenever the list it re-checks is
   still allocated.

Each theorem is followed by a run of two waiters and a waker on address 0
(`parkTwo`, `wakeOldest`, `wakeBoth`) that reaches a state it speaks about.
-/

namespace Wavm.Runtime.WaitWake

variable {n : Nat} {s : State n}

/-! ## Consequences of the invariant -/

theorem WaitOutcome.signalers_le {r : Nat} {reg rm : Bool} {sigs : List (CallId n)}
    (h : WaitOutcome r reg sigs rm) : sigs.length ≤ 1 := by
  rcases h with ⟨-, -, h, -⟩ | ⟨-, -, h, -⟩ | ⟨-, -, h, -⟩ <;> simp [h]

theorem Registered.signalers_le {t : Fin n} {w : Nat} (h : Registered s t w) :
    (s.threads t).signalers.length ≤ 1 := by
  rcases h with ⟨-, -, ⟨-, h, -⟩ | ⟨-, h, -⟩⟩ <;> simp [h]

/-- A list's members are the threads registered on it that no wake has removed. -/
theorem Inv.mem_iff (hi : Inv s) (w : Nat) (u : Fin n) :
    u ∈ (s.heap w).wakeEvents ↔
      (s.threads u).pc.registeredOn = some w ∧ (s.threads u).signalers = [] := by
  refine ⟨fun hu => ?_, fun ⟨hreg, hsigs⟩ => ?_⟩
  · have hreg := hi.member w u hu
    obtain ⟨-, -, ⟨-, h, -⟩ | ⟨hn, -, -⟩⟩ := (threadInv_of_registeredOn hreg).mp (hi.thread u)
    · exact ⟨hreg, h⟩
    · exact absurd hu hn
  · obtain ⟨-, -, ⟨h, -, -⟩ | ⟨-, hl, -⟩⟩ := (threadInv_of_registeredOn hreg).mp (hi.thread u)
    · exact h
    · simp [hsigs] at hl

/-- A thread registered nowhere has its event clear. -/
theorem Inv.signaled_eq_false (hi : Inv s) {t : Fin n}
    (h : (s.threads t).pc.registeredOn = none) : s.signaled t = false := by
  have ht := hi.thread t
  unfold ThreadInv at ht
  split at ht <;> simp_all [Pc.registeredOn]

/-- A thread's event is set only after one wake removed it from the list it is
registered on. -/
theorem Inv.of_signaled (hi : Inv s) {t : Fin n} (h : s.signaled t = true) :
    ∃ w, (s.threads t).pc.registeredOn = some w ∧ t ∉ (s.heap w).wakeEvents ∧
      (s.threads t).signalers.length = 1 := by
  cases hr : (s.threads t).pc.registeredOn with
  | none => simp [hi.signaled_eq_false hr] at h
  | some w =>
    obtain ⟨-, -, ⟨-, -, hf⟩ | ⟨hn, hl, -⟩⟩ := (threadInv_of_registeredOn hr).mp (hi.thread t)
    · simp [h] at hf
    · exact ⟨w, rfl, hn, hl⟩

/-- During a `waitOnAddress` call at most one wake signals the thread. -/
theorem Inv.signalers_le_one (hi : Inv s) {t : Fin n} (h : (s.threads t).pc.waitAddress ≠ none) :
    (s.threads t).signalers.length ≤ 1 := by
  have ht := hi.thread t
  cases hp : (s.threads t).pc with
  | waitOpen | waitCheck => simp only [ThreadInv, hp] at ht; simp [ht.2.2.1]
  | waitBlocked | waitTimedOut => simp only [ThreadInv, hp] at ht; exact ht.signalers_le
  | closeDecrement _ _ r | closeRecheck _ _ r | returning _ r =>
    cases r
    · simp only [ThreadInv, hp] at ht; exact ht.2.signalers_le
    · simp [hp, Pc.waitAddress] at h
  | idle | wakeOpen | wakeLocked | assertFailed | errorUnlessFailed =>
    simp [hp, Pc.waitAddress] at h

/-! ## Wake tokens -/

/-- What the wait/wake code promises of thread `t`'s event in state `s`. -/
def TokenHygiene (s : State n) (t : Fin n) : Prop :=
  -- on at most one list, at most once
  (∀ w, (s.heap w).wakeEvents.count t ≤ 1) ∧
  (∀ w w', t ∈ (s.heap w).wakeEvents → t ∈ (s.heap w').wakeEvents → w = w') ∧
  -- only between the push at line 144 and its removal, and clear meanwhile
  (∀ w, t ∈ (s.heap w).wakeEvents → (s.threads t).pc.registeredOn = some w ∧
    (s.threads t).signalers = [] ∧ s.signaled t = false) ∧
  -- signaled at most once per registration
  ((s.threads t).pc.waitAddress ≠ none → (s.threads t).signalers.length ≤ 1) ∧
  -- set only after a wake removed it, until the wait consumes it
  (s.signaled t = true → ∃ w, (s.threads t).pc.registeredOn = some w ∧
    t ∉ (s.heap w).wakeEvents ∧ (s.threads t).signalers.length = 1) ∧
  -- clear and on no list when `waitOnAddress` returns
  (∀ a r, (s.threads t).pc = .returning a (.wait r) →
    s.signaled t = false ∧ ∀ w, t ∉ (s.heap w).wakeEvents) ∧
  -- the immediately expiring wait at line 165 finds the event set: `errorUnless`
  -- never fails
  (∀ a w st, (s.threads t).pc = .waitTimedOut a w st → t ∉ (s.heap w).wakeEvents →
    s.signaled t = true) ∧
  (s.threads t).pc ≠ .errorUnlessFailed

theorem token_hygiene {s : State n} (hs : Reachable s) (t : Fin n) : TokenHygiene s t := by
  have hi := hs.inv
  have hunreg : (s.threads t).pc.registeredOn = none → ∀ w, t ∉ (s.heap w).wakeEvents :=
    fun h w => hi.not_mem (by simp [h])
  refine ⟨fun w => List.nodup_iff_count_le_one.mp (hi.nodup w) t,
    fun w w' h h' => Option.some.inj ((hi.member w t h).symm.trans (hi.member w' t h')),
    fun w h => ?_, hi.signalers_le_one, hi.of_signaled, fun a r hp => ?_,
    fun a w st hp hn => ?_, fun hp => by simpa [ThreadInv, hp] using hi.thread t⟩
  · obtain ⟨hreg, hsigs⟩ := (hi.mem_iff w t).mp h
    obtain ⟨-, -, ⟨-, -, hsig⟩ | ⟨hn, -, -⟩⟩ := (threadInv_of_registeredOn hreg).mp (hi.thread t)
    · exact ⟨hreg, hsigs, hsig⟩
    · exact absurd h hn
  · have hreg : (s.threads t).pc.registeredOn = none := by simp [hp, Pc.registeredOn]
    exact ⟨hi.signaled_eq_false hreg, hunreg hreg⟩
  · obtain ⟨-, -, ⟨hm, -⟩ | ⟨-, -, hsig⟩⟩ :=
      (threadInv_of_registeredOn (w := w) (by simp [hp, Pc.registeredOn])).mp (hi.thread t)
    · exact absurd hm hn
    · exact hsig

/-- Threads 0 and 1 wait on address 0 for the value 0 with no deadline, and park,
thread 0 first. -/
def parkTwo : List (Action 3) :=
  [.atomicWait 0 0 0 uint64Max, .run 0, .run 0, .atomicWait 1 0 0 uint64Max, .run 1, .run 1]

/-- Then thread 2 wakes one waiter on address 0, and signals the oldest, thread 0. -/
def wakeOldest : List (Action 3) := parkTwo ++ [.atomicWake 2 0 1, .run 2, .run 2]

/-- Thread 0 is off the list and signaled, thread 1 still on it and clear. -/
theorem token_hygiene_wakeOldest : ∃ s : State 3, run (init fun _ => 0) wakeOldest = some s ∧
    s.signaled 0 = true ∧ (s.heap 0).wakeEvents = [1] ∧ TokenHygiene s 0 ∧ TokenHygiene s 1 :=
  have hs := (Reachable.init _).run (show run (init fun _ => 0) wakeOldest = some _ from rfl)
  ⟨_, rfl, by decide, by decide, token_hygiene hs 0, token_hygiene hs 1⟩

/-! ## Order of the lists -/

/-- Each list holds exactly its registered waiters that no wake has removed, in
the order of their registrations; so whatever its count, `wakeLocked` signals
waiters that registered before every waiter it leaves on the list. -/
theorem waitList_fifo {s : State n} (hs : Reachable s) (w : Nat) :
    (∀ u, u ∈ (s.heap w).wakeEvents ↔
      (s.threads u).pc.registeredOn = some w ∧ (s.threads u).signalers = []) ∧
    (s.heap w).wakeEvents.Pairwise (fun u v => (s.threads u).pc.stamp < (s.threads v).pc.stamp) ∧
    ∀ k : UInt32, ∀ u ∈ (wakeLocked (s.heap w).wakeEvents k).1, ∀ v,
      (s.threads v).pc.registeredOn = some w → (s.threads v).signalers = [] →
      v ∉ (wakeLocked (s.heap w).wakeEvents k).1 →
      (s.threads u).pc.stamp < (s.threads v).pc.stamp := by
  have hi := hs.inv
  refine ⟨hi.mem_iff w, hi.fifo w, fun k u hu v hreg hsigs hv => ?_⟩
  have hfifo := hi.fifo w
  rw [← List.take_append_drop (actualNumToWake k (s.heap w).wakeEvents.length)
    (s.heap w).wakeEvents, List.pairwise_append] at hfifo
  have hvmem := (hi.mem_iff w v).mpr ⟨hreg, hsigs⟩
  rw [← List.take_append_drop (actualNumToWake k (s.heap w).wakeEvents.length)
    (s.heap w).wakeEvents, List.mem_append] at hvmem
  simp only [wakeLocked_eq] at hu hv
  exact hfifo.2.2 u hu v (hvmem.resolve_left hv)

/-- With both waiters parked, a wake of one signals thread 0, which registered first. -/
theorem waitList_fifo_parkTwo : ∃ s : State 3, run (init fun _ => 0) parkTwo = some s ∧
    (s.heap 0).wakeEvents = [0, 1] ∧ (wakeLocked (s.heap 0).wakeEvents 1).1 = [0] ∧
    (s.threads 0).pc.stamp < (s.threads 1).pc.stamp :=
  have hs := (Reachable.init _).run (show run (init fun _ => 0) parkTwo = some _ from rfl)
  ⟨_, rfl, by decide, by decide,
    (waitList_fifo hs 0).2.2 1 0 (by decide) 1 (by decide) (by decide) (by decide)⟩

/-! ## Accounting -/

/-- Over a log of finished calls, the signals the waits received count the waits
that returned 0. -/
theorem logTotal_signalCount {log : List (Record n)}
    (h : ∀ d a r reg sigs rm, Record.wait d a r reg sigs rm ∈ log → WaitOutcome r reg sigs rm)
    (a : Nat) : logTotal (Record.signalCount a) log = logTotal (Record.zeroCount a) log := by
  induction log with
  | nil => rfl
  | cons rec log ih =>
    rw [logTotal_cons, logTotal_cons,
      ih fun d a r reg sigs rm hm => h d a r reg sigs rm (List.mem_cons_of_mem _ hm)]
    congr 1
    cases rec with
    | wait d a' r reg sigs rm =>
      rcases h d a' r reg sigs rm (List.mem_cons_self _ _) with
        ⟨rfl, -, hl, -⟩ | ⟨rfl, -, hl, -⟩ | ⟨rfl, -, hl, -⟩ <;>
        simp [Record.signalCount, Record.zeroCount, hl]
    | wake | wakeTrapped => rfl

/-- Once no call is in progress, on each address the counts returned by the wakes
plus the events signaled by the wakes that trapped at line 203 equal the waits
that returned 0. -/
theorem Inv.quiescent_accounting (hi : Inv s) (hidle : ∀ t, (s.threads t).pc = .idle)
    (a : Nat) : logTotal (Record.wakeCount a) s.log + logTotal (Record.trapCount a) s.log =
      logTotal (Record.zeroCount a) s.log := by
  have hwait : waitPending s a = 0 :=
    Finset.sum_eq_zero fun u _ => by simp [Thread.waitShare, hidle u, Pc.waitAddress]
  have hwake : wakePending s a = 0 :=
    Finset.sum_eq_zero fun u _ => by simp [hidle u, Pc.wakePending]
  have := hi.accounting a
  rw [hwait, hwake, logTotal_signalCount hi.records] at this
  omega

theorem logTotal_trapCount_eq_zero {log : List (Record n)}
    (h : ∀ c a k, Record.wakeTrapped c a k ∉ log) (a : Nat) :
    logTotal (Record.trapCount a) log = 0 := by
  induction log with
  | nil => rfl
  | cons r log ih =>
    rw [logTotal_cons, ih fun c a k hm => h c a k (List.mem_cons_of_mem _ hm)]
    cases r with
    | wakeTrapped c a' k => exact absurd (List.mem_cons_self _ _) (h c a' k)
    | wait | wake => rfl

/-! ## Wakes signal at most one event per thread -/

/-- A wake that signaled at most `UINT32_MAX` events returns their number. -/
theorem wakeRecord_of_le (c : CallId n) (a : Nat) {k : Nat} (hk : k ≤ uint32Max) :
    wakeRecord c a k = .wake c a k := by
  have hlt : (UInt32.ofNat k).toNat = k :=
    UInt32.toNat_ofNat_of_lt (by simp only [uint32Max] at hk; simp [UInt32.size]; omega)
  simp [wakeRecord, wakeResult, Nat.not_lt.mpr hk, hlt]

/-- What the wakes signaled: those in progress, at most one event per thread, and
none has trapped. -/
structure WakeBound (s : State n) : Prop where
  pending : ∀ t a, (s.threads t).pc.wakePending a ≤ n
  noTrap : ∀ c a k, Record.wakeTrapped c a k ∉ s.log

section WakeBound

variable {s s' : State n}

/-- A step that moves only thread `t`, to a point with a bounded count, and logs
no trapped wake keeps `WakeBound`. -/
theorem WakeBound.of_thread (hb : WakeBound s) {t : Fin n}
    (hpc : ∀ u, u ≠ t → (s'.threads u).pc = (s.threads u).pc)
    (ht : ∀ a, (s'.threads t).pc.wakePending a ≤ n)
    (hlog : s'.log = s.log ∨ ∃ r, s'.log = r :: s.log ∧ ∀ c a k, r ≠ .wakeTrapped c a k) :
    WakeBound s' := by
  refine ⟨fun u a => ?_, fun c a k h => ?_⟩
  · by_cases hu : u = t
    · exact hu ▸ ht a
    · rw [hpc u hu]; exact hb.pending u a
  · rcases hlog with hl | ⟨r, hl, hr⟩
    · exact hb.noTrap c a k (hl ▸ h)
    · rcases List.mem_cons.mp (hl ▸ h) with h | h
      · exact hr c a k h.symm
      · exact hb.noTrap c a k h

variable (hn : n ≤ uint32Max)
include hn

theorem runStep_wakeBound (hi : Inv s) (hb : WakeBound s) {t : Fin n}
    (h : runStep s t = some s') : WakeBound s' := by
  suffices (∀ a, (s'.threads t).pc.wakePending a ≤ n) ∧ (s'.log = s.log ∨
      ∃ r, s'.log = r :: s.log ∧ ∀ c a k, r ≠ .wakeTrapped c a k) from
    hb.of_thread (fun u hu => runStep_pc_frame h hu) this.1 this.2
  have hold := hb.pending t
  unfold runStep at h
  split at h <;> rename_i hpc
  · cases h
  · cases h; exact ⟨by simp [Pc.wakePending], .inl (openWaitList_log s _)⟩
  · cases h; unfold waitCheck; split <;> simp [Pc.wakePending]
  · split at h
    · cases h; simp [Pc.wakePending]
    · cases h
  · cases h; unfold waitTimedOut; split
    · simp [Pc.wakePending]
    · split <;> simp [Pc.wakePending]
  · cases h; exact ⟨by simp [Pc.wakePending], .inl (openWaitList_log s _)⟩
  · -- the critical section: `actualNumToWake` events of a list of distinct threads
    rename_i a k w
    cases h
    have hk : actualNumToWake k (s.heap w).wakeEvents.length ≤ n :=
      (actualNumToWake_le _ _).trans ((hi.nodup w).length_le_card.trans_eq (Fintype.card_fin n))
    refine ⟨fun b => ?_, .inl rfl⟩
    simp only [wakeLockedStep_threads, Function.update_same, wakeLocked_eq, Pc.wakePending]
    split <;> omega
  · rename_i a w r
    cases h
    refine ⟨fun b => ?_, .inl rfl⟩
    have := hold b; rw [hpc] at this
    simp only [closeDecrement, State.setPc_eq, State.setThread_threads, Function.update_same]
    split <;> cases r <;> exact this
  · rename_i a w r
    cases h
    have := hold; rw [hpc] at this
    unfold closeRecheck
    split
    · split
      · refine ⟨fun b => ?_, .inl rfl⟩
        simp only [State.setPc_eq, State.setThread_threads, Function.update_same]
        cases r <;> exact this b
      · simp [Pc.wakePending]
    · refine ⟨fun b => ?_, .inl rfl⟩
      simp only [State.setPc_eq, State.setThread_threads, Function.update_same]
      cases r <;> exact this b
  · -- the return: a wake reports a count of at most `n`, so it does not trap
    rename_i a r
    cases h
    refine ⟨by simp [finish, Pc.wakePending], .inr ⟨callRecord s t a r, rfl, fun c b k => ?_⟩⟩
    cases r with
    | wait => simp [callRecord]
    | wake k' =>
      have hk := hold a; simp only [hpc, Pc.wakePending, if_true] at hk
      simp [callRecord, wakeRecord_of_le _ _ (hk.trans hn)]
  · cases h
  · cases h

theorem step_wakeBound (hi : Inv s) (hb : WakeBound s) {act : Action n}
    (h : step s act = some s') : WakeBound s' := by
  have hset : ∀ t th, ∀ u, u ≠ t → ((s.setThread t th).threads u).pc = (s.threads u).pc :=
    fun t th u hu => by simp [hu]
  cases act with
  | run t => exact runStep_wakeBound hn hi hb h
  | atomicWait t =>
    simp only [step] at h
    split at h
    · cases h; exact hb.of_thread (hset _ _) (by simp [Pc.wakePending]) (.inl rfl)
    · cases h
  | atomicWake t a k =>
    simp only [step] at h
    split at h
    · split at h
      · cases h
        exact hb.of_thread (hset _ _) (by simp [Pc.wakePending]) (.inr ⟨_, rfl, by simp⟩)
      · cases h; exact hb.of_thread (hset _ _) (by simp [Pc.wakePending]) (.inl rfl)
    · cases h
  | store t =>
    simp only [step] at h
    split at h
    · cases h; exact hb.of_thread (t := t) (fun _ _ => rfl) (hb.pending t) (.inl rfl)
    · cases h
  | timeout t =>
    simp only [step] at h
    split at h
    · split at h
      · cases h
      · cases h; exact hb.of_thread (hset _ _) (by simp [Pc.wakePending]) (.inl rfl)
    · cases h

theorem Reachable.wakeBound (hs : Reachable s) : WakeBound s := by
  induction hs with
  | init memory => exact ⟨fun _ _ => by simp [WaitWake.init, Pc.wakePending], by simp [WaitWake.init]⟩
  | step a hs hstep ih => exact step_wakeBound hn hs.inv ih hstep

end WakeBound

/-- What each finished wait did: 0 after exactly one wake removed and signaled its
event, 1 without registering, 2 after removing its own event, with no wake
counting it. With at most `UINT32_MAX` threads no wake traps at line 203, and once
no call is in progress, on each address the counts returned by the wakes equal the
waits that returned 0. -/
theorem wake_accounting {s : State n} (hn : n ≤ uint32Max) (hs : Reachable s) :
    (∀ d a r reg sigs rm, Record.wait d a r reg sigs rm ∈ s.log → WaitOutcome r reg sigs rm) ∧
    (∀ c a k, Record.wakeTrapped c a k ∉ s.log) ∧
    ((∀ t, (s.threads t).pc = .idle) → ∀ a,
      logTotal (Record.wakeCount a) s.log = logTotal (Record.zeroCount a) s.log) := by
  have hb := hs.wakeBound hn
  refine ⟨hs.inv.records, hb.noTrap, fun hidle a => ?_⟩
  have := hs.inv.quiescent_accounting hidle a
  rwa [logTotal_trapCount_eq_zero hb.noTrap, add_zero] at this

/-- Then every call returns: thread 2's wake with 1 and thread 0's wait with 0;
thread 2 wakes the other waiter, and thread 1's wait returns 0. -/
def wakeBoth : List (Action 3) :=
  wakeOldest ++ [.run 2, .run 2, .run 0, .run 0, .run 0,
    .atomicWake 2 0 1, .run 2, .run 2, .run 2, .run 2, .run 1, .run 1, .run 1, .run 1]

/-- Two waits returned 0, and the two wakes returned 1 each. -/
theorem wake_accounting_wakeBoth : ∃ s : State 3, run (init fun _ => 0) wakeBoth = some s ∧
    (∀ t, (s.threads t).pc = .idle) ∧ logTotal (Record.zeroCount 0) s.log = 2 ∧
    logTotal (Record.wakeCount 0) s.log = 2 :=
  have hs := (Reachable.init _).run (show run (init fun _ => 0) wakeBoth = some _ from rfl)
  ⟨_, rfl, by decide, by decide, ((wake_accounting (by decide) hs).2.2 (by decide) 0).trans (by decide)⟩

/-! ## Reference counts -/

/-- The map points only to live lists. A live list is counted by the threads that got
it from `openWaitList` and have not yet done their decrement, and when its count
reads 0 it is empty and held by no thread: the `assert` at line 73 holds whenever
the list it re-checks is still allocated. -/
theorem map_live_counted {s : State n} (hs : Reachable s) :
    (∀ a w, s.addressToWaitListMap a = some w → (s.heap w).deletions = 0) ∧
    ∀ w, (s.heap w).deletions = 0 → (s.heap w).numReferences = refHolders s w ∧
      ((s.heap w).numReferences = 0 →
        (s.heap w).wakeEvents = [] ∧ ∀ u, (s.threads u).pc.holding ≠ some w) := by
  have hi := hs.inv
  refine ⟨fun a w h => (hi.map a w h).2.1, fun w hlive => ⟨hi.refs w hlive, fun h0 => ?_⟩⟩
  have hfree := hi.not_holding_of_refs_zero h0
  exact ⟨hi.events_eq_nil hfree, hfree⟩

/-- With both waiters parked, list 0 is the map's entry for address 0, and its count
2 is its two holders. -/
theorem map_live_counted_parkTwo : ∃ s : State 3, run (init fun _ => 0) parkTwo = some s ∧
    s.addressToWaitListMap 0 = some 0 ∧ (s.heap 0).numReferences = 2 ∧ refHolders s 0 = 2 :=
  have hs := (Reachable.init _).run (show run (init fun _ => 0) parkTwo = some _ from rfl)
  ⟨_, rfl, by decide, by decide,
    ((map_live_counted hs).2 0 ((map_live_counted hs).1 0 0 (by decide))).1.symm.trans
      (by decide)⟩

end Wavm.Runtime.WaitWake
