import Wavm.Runtime.WaitListMap

/-! # At a quiescent point no `WaitList` is left

The spec asks that at any quiescent point the address table hold no entry whose
list is empty and unreferenced. In the model more holds, in every run, with or
without a second delete: when every thread is idle, the map is empty and every list
`new` returned has been deleted (`quiescent_waitLists_deleted`).

The invariant is `RecheckPending`: a live list whose count reads 0 has a thread
about to re-check it. A count reaches 0 only by a decrement (line 68), and the
decrementing thread then re-checks the list; that re-check deletes the list if its
count still reads 0. The rest is read off the invariant `Inv` of the states before
and after the step: a live list's count is the number of threads holding it, and
no thread is at `errorUnlessFailed`.

Three facts about one step are proved by cases on the step: the other threads keep
their program points (`step_pc_frame`), a thread lets go of a list only by its
decrement (`step_holding`), and a re-check that reads 0 deletes (`step_recheck`).
-/

namespace Wavm.Runtime.WaitWake

variable {n : Nat} {s s' : State n}

/-! ## Three facts about one step -/

/-- A step moves only its own thread. -/
theorem step_pc_frame {act : Action n} (h : step s act = some s') {u : Fin n}
    (hu : u ≠ act.thread) : (s'.threads u).pc = (s.threads u).pc := by
  cases act with
  | run t => exact runStep_pc_frame h hu
  | _ =>
    simp only [Action.thread] at hu
    simp only [step] at h
    repeat' split at h
    all_goals first | (cases h; simp [hu]) | cases h

theorem runStep_holding {t : Fin n} (h : runStep s t = some s')
    (hf : (s'.threads t).pc ≠ .errorUnlessFailed) {w : Nat}
    (hw : (s.threads t).pc.holding = some w) :
    (s'.threads t).pc.holding = some w ∨
      ∃ a r, (s.threads t).pc = .closeDecrement a w r ∧ s' = closeDecrement s t a w r := by
  unfold runStep at h
  split at h <;> rename_i hpc <;> simp only [hpc, Pc.holding, reduceCtorEq] at hw
  · rename_i a e T w'
    cases hw; cases h; left; unfold waitCheck; split <;> simp [Pc.holding]
  · split at h
    · cases hw; cases h; simp [Pc.holding]
    · cases h
  · cases hw; cases h; left
    unfold waitTimedOut at hf ⊢; split
    · simp [Pc.holding]
    · rename_i hmem
      split
      · simp [Pc.holding]
      · rename_i hsig; simp [hmem, hsig] at hf
  · cases hw; cases h; simp [Pc.holding]
  · rename_i a w' r
    cases hw; cases h; exact .inr ⟨a, r, hpc, rfl⟩

/-- A thread lets go of a list it holds only by its decrement at line 68. -/
theorem step_holding {act : Action n} (h : step s act = some s')
    (hf : (s'.threads act.thread).pc ≠ .errorUnlessFailed) {w : Nat}
    (hw : (s.threads act.thread).pc.holding = some w) :
    (s'.threads act.thread).pc.holding = some w ∨ ∃ a r,
      (s.threads act.thread).pc = .closeDecrement a w r ∧
        s' = closeDecrement s act.thread a w r := by
  cases act with
  | run t => exact runStep_holding h hf hw
  | timeout t =>
    simp only [step, Action.thread] at h hw ⊢
    split at h
    · rename_i hpc
      split at h
      · cases h
      · cases h; left; simp [hpc, Pc.holding] at hw ⊢; exact hw
    · cases h
  | _ =>
    simp only [step, Action.thread] at h hw
    split at h
    · rename_i hidle; rw [hidle] at hw; cases hw
    · cases h

/-- The re-check of a list whose count reads 0 and which holds no event deletes it
(lines 70–75), whether or not it was deleted before. -/
theorem step_recheck {act : Action n} (h : step s act = some s') {a w : Nat} {r : Resume}
    (hpc : (s.threads act.thread).pc = .closeRecheck a w r) (h0 : (s.heap w).numReferences = 0)
    (hnil : (s.heap w).wakeEvents = []) : (s'.heap w).deletions ≠ 0 := by
  cases act with
  | run t =>
    simp only [step, runStep, Action.thread] at h hpc
    rw [hpc] at h; cases h
    simp [closeRecheck, h0, hnil]
  | _ => simp only [Action.thread] at hpc; simp [step, hpc] at h

/-! ## Every live list whose count reads 0 is about to be re-checked -/

/-- A live list whose count reads 0 has a thread about to re-check it. -/
def RecheckPending (s : State n) : Prop :=
  ∀ w, w < s.nextWaitList → (s.heap w).deletions = 0 → (s.heap w).numReferences = 0 →
    ∃ u a r, (s.threads u).pc = .closeRecheck a w r

theorem Inv.pc_ne_errorUnlessFailed (hi : Inv s) (t : Fin n) :
    (s.threads t).pc ≠ .errorUnlessFailed := fun e => by
  have := hi.thread t; simp [ThreadInv, e] at this

theorem exists_holder {w : Nat} (h : refHolders s w ≠ 0) :
    ∃ u, (s.threads u).pc.holding = some w := by
  by_contra hno; push_neg at hno; exact h (refHolders_eq_zero hno)

theorem exists_holder_ne (t : Fin n) {w : Nat} (h : 2 ≤ refHolders s w) :
    ∃ u, u ≠ t ∧ (s.threads u).pc.holding = some w := by
  by_contra hno; push_neg at hno
  have : refHolders s w ≤ 1 := by
    unfold refHolders
    rw [Finset.sum_eq_single t (fun u _ hu => if_neg (hno u hu)) (by simp)]
    split <;> omega
  omega

theorem MapKept.live (hk : MapKept s s') {w : Nat} (hw : w < s'.nextWaitList)
    (hl : (s'.heap w).deletions = 0) : w < s.nextWaitList ∧ (s.heap w).deletions = 0 :=
  ⟨hk.next ▸ hw, by rw [← (hk.life w).1]; exact hl⟩

/-- A list live after the step was live before it, or the step created it with one
reference. -/
theorem ListEffect.live_before {t : Fin n} (he : ListEffect s s' t) {w : Nat}
    (hw : w < s'.nextWaitList) (hl : (s'.heap w).deletions = 0) :
    (w < s.nextWaitList ∧ (s.heap w).deletions = 0) ∨ (s'.heap w).numReferences = 1 := by
  cases he with
  | keep hk => exact .inl (hk.live hw hl)
  | consume hk => exact .inl (hk.live hw hl)
  | queue w' op hhold hen hk => exact .inl (hk.live hw hl)
  | create a hnone hmap hnext hnew hlife =>
    by_cases hwn : w = s.nextWaitList
    · subst hwn; right; rw [hnew]
    · exact .inl ⟨by omega, by rw [← (hlife w hwn).1.1]; exact hl⟩
  | delete a w' r hpc hnil hmap hnext hdel hlife =>
    have hne : w ≠ w' := by rintro rfl; omega
    exact .inl ⟨hnext ▸ hw, by rw [← (hlife w hne).1]; exact hl⟩

/-- Every step keeps `RecheckPending`: a count that falls to 0 falls by the
decrement of its last holder, which then re-checks the list, and a thread's re-check
of a list whose count reads 0 deletes it. -/
theorem RecheckPending.step (hp : RecheckPending s) (hi : Inv s) (hi' : Inv s')
    {act : Action n} (h : step s act = some s') : RecheckPending s' := by
  intro w hw hl h0
  have hfree' := hi'.not_holding_of_refs_zero h0
  rcases (step_listEffect hi h).live_before hw hl with ⟨hw₀, hl₀⟩ | h1
  · by_cases hr : (s.heap w).numReferences = 0
    · obtain ⟨u, a, r, hu⟩ := hp w hw₀ hl₀ hr
      by_cases hut : u = act.thread
      · subst hut
        exact absurd hl (step_recheck h hu hr (hi.events_eq_nil (hi.not_holding_of_refs_zero hr)))
      · exact ⟨u, a, r, (step_pc_frame h hut).trans hu⟩
    · obtain ⟨u, hu⟩ := exists_holder (by rwa [← hi.refs w hl₀])
      have hut : u = act.thread := by
        by_contra hut; exact hfree' u (by rw [step_pc_frame h hut]; exact hu)
      subst hut
      rcases step_holding h (hi'.pc_ne_errorUnlessFailed _) hu with hkeep | ⟨a, r, hpc, hs'⟩
      · exact absurd hkeep (hfree' _)
      · by_cases h1 : (s.heap w).numReferences - 1 = 0
        · exact ⟨act.thread, a, r, by rw [hs']; simp [closeDecrement, h1]⟩
        · obtain ⟨u', hu', hold⟩ := exists_holder_ne act.thread (w := w)
            (by rw [← hi.refs w hl₀]; omega)
          exact (hfree' u' (by rw [step_pc_frame h hu']; exact hold)).elim
  · omega

theorem Reachable.recheckPending (hs : Reachable s) : RecheckPending s := by
  induction hs with
  | init memory => intro w hw; simp [WaitWake.init] at hw
  | step a hs hstep ih => exact ih.step hs.inv (hs.step a hstep).inv hstep

/-- At every quiescent point of every run, every thread idle, the address table is
empty and every `WaitList` that `new` returned has been deleted: no entry is left,
empty and unreferenced or not, and no list leaks. -/
theorem quiescent_waitLists_deleted (hs : Reachable s) (hq : ∀ t, (s.threads t).pc = .idle) :
    (∀ a, s.addressToWaitListMap a = none) ∧
      ∀ w, w < s.nextWaitList → (s.heap w).deletions ≠ 0 := by
  have hi := hs.inv
  have hdead : ∀ w, w < s.nextWaitList → (s.heap w).deletions ≠ 0 := fun w hw hl => by
    have h0 : (s.heap w).numReferences = 0 := by
      rw [hi.refs w hl]; exact refHolders_eq_zero fun u => by simp [hq u, Pc.holding]
    obtain ⟨u, a, r, hu⟩ := hs.recheckPending w hw hl h0
    rw [hq u] at hu; cases hu
  refine ⟨fun a => ?_, hdead⟩
  cases hm : s.addressToWaitListMap a with
  | none => rfl
  | some w => obtain ⟨hlt, hl, -⟩ := hi.map a w hm; exact absurd hl (hdead w hlt)

/-- Thread 0 waits on address 0 for the value 1 while the cell holds 0: it creates
list 0, gives up with 1, deletes the list and returns. -/
def waitMismatch : List (Action 1) :=
  [.atomicWait 0 0 1 uint64Max, .run 0, .run 0, .run 0, .run 0, .run 0]

theorem quiescent_waitLists_deleted_waitMismatch : ∃ s : State 1,
    run (init fun _ => 0) waitMismatch = some s ∧ s.nextWaitList = 1 ∧
    (∀ t, (s.threads t).pc = .idle) ∧ (∀ a, s.addressToWaitListMap a = none) ∧
      ∀ w, w < s.nextWaitList → (s.heap w).deletions ≠ 0 :=
  ⟨_, rfl, rfl, by decide, quiescent_waitLists_deleted
    ((Reachable.init _).run (show run (init fun _ => 0) waitMismatch = some _ from rfl))
    (by decide)⟩

end Wavm.Runtime.WaitWake
