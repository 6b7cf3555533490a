import Wavm.Runtime.WakeAddress
import Mathlib.Data.List.Nodup

/-! # Thread records: `launchThread` and `threadFunc`

`launchThread` (`Threads.cpp`, lines 310–337) allocates a `Thread` record, whose
`GCPointer` fields are roots for the garbage collector, fills it, pushes it on the
global `threads` vector under `threadsMutex`, and spawns a thread that runs
`threadFunc` on it. `threadFunc` (lines 266–308) runs the entry function, then
finds its record in `threads`, erases it, and deletes it.

The model interleaves `n` threads that call `launchThread` with the spawned
threads, one step for each of:

* lines 317–323, which touch only the new record, that no other thread can see
  before line 326: the allocation, the context clone and both table lookups; a
  lookup that traps ends the call, with the record allocated;
* the push at lines 324–327, under `threadsMutex`;
* the spawn at lines 330–336;
* a spawned thread's lines 268–304: its functions, which touch no record, and the
  `find` and `erase` under `threadsMutex`;
* its `delete thread` at line 307.

Results:

1. the invariant `Inv` holds in every reachable state; from it, `std::find` in
   `threadFunc` always finds its record, once (`threadFunc_finds_record`);
2. a live record that is not in `threads` and that no thread holds is exactly a
   record whose `launchThread` trapped (`live_record_accounted`);
3. such a record stays allocated, out of `threads`, in every continuation of the
   run (`Orphaned.after_run`), and one `launchThread` with an out-of-range index makes
   one (`launchThread_trap_leaks_record`).
-/

namespace Wavm.Runtime.ThreadRecords

/-! ## The model -/

/-- The parts of a `TableInstance` that `getFunctionFromTable` reads. Function
types are interned, so a `FunctionType*` is a number, compared as one; so is an
object. -/
structure TableInstance where
  /-- The byte offset one past the last element. -/
  endOffset : Nat
  /-- `baseAddress[i].type`. -/
  elementType : Nat → Nat
  /-- `elements[i]`. -/
  elements : Nat → Nat

/-- `getFunctionFromTable` (lines 250–264); `elementSize` is
`sizeof(TableInstance::FunctionElement)`. The product is computed in `Uptr`, so it
does not wrap. -/
def getFunctionFromTable (elementSize : Nat) (table : TableInstance) (expectedType : Nat)
    (elementIndex : UInt32) : Except Exception Nat :=
  if table.endOffset ≤ elementIndex.toNat * elementSize then .error .undefinedTableElement
  else if table.elementType elementIndex.toNat ≠ expectedType then
    .error .indirectCallSignatureMismatch
  else .ok (table.elements elementIndex.toNat)

/-- `struct Thread` (lines 14–19): the roots of a spawned thread. A null
`GCPointer` is `none`. -/
structure Thread where
  context : Option Nat
  entryFunction : Option Nat
  errorFunction : Option Nat
  deriving DecidableEq, Repr

/-- Where a caller of `launchThread` is, after the part of lines 317–323. -/
inductive LaunchPc where
  | idle
  /-- The push of `thread` under `threadsMutex` (lines 324–327) is next. -/
  | publish (thread : Nat)
  /-- The spawn of the thread that runs `threadFunc(thread, ...)` is next. -/
  | spawn (thread : Nat)
  deriving DecidableEq, Repr

/-- The record a caller holds in its local `thread`. -/
def LaunchPc.thread? : LaunchPc → Option Nat
  | .idle => none
  | .publish thread => some thread
  | .spawn thread => some thread

/-- Where a spawned thread is in `threadFunc`. -/
inductive WorkerPc where
  /-- Lines 268–304 are next: its functions, then the `find` and `erase`. -/
  | running
  /-- The record is out of `threads`; `delete thread` (line 307) is next. -/
  | removed
  deriving DecidableEq, Repr

structure State (n : Nat) where
  /-- The tables `getTableFromRuntimeData` gives, by `tableId`. -/
  tables : Nat → TableInstance
  /-- `FunctionType::get(ResultType::none, {ValueType::i32})`. -/
  functionType : Nat
  /-- `sizeof(TableInstance::FunctionElement)`. -/
  functionElementSize : Nat
  /-- The live records, by pointer; `new` does not reuse a pointer. -/
  records : Nat → Option Thread
  /-- The pointer the next `new Thread()` returns. -/
  allocated : Nat
  /-- The object the next `cloneContext` returns. -/
  contexts : Nat
  /-- The global `threads` vector. -/
  threads : List Nat
  /-- The `n` threads that call `launchThread`. -/
  callers : Fin n → LaunchPc
  /-- The spawned thread that runs `threadFunc` on a record, by the record. -/
  workers : Nat → Option WorkerPc

variable {n : Nat}

/-- `new Thread()` with its fields given, and the `cloneContext` that gave its
context. -/
@[simps]
def State.allocate (s : State n) (thread : Thread) : State n :=
  { s with records := Function.update s.records s.allocated (some thread),
           allocated := s.allocated + 1, contexts := s.contexts + 1 }

/-- Lines 317–323 of `launchThread`. A lookup that traps leaves the record as
far as it was filled, and the call ends with the exception. -/
def launchLocal (s : State n) (c : Fin n) (entryFunctionIndex errorFunctionIndex : UInt32)
    (tableId : Nat) : State n :=
  let getFunction := getFunctionFromTable s.functionElementSize (s.tables tableId) s.functionType
  let context := some s.contexts
  match getFunction entryFunctionIndex with
  | .error _ => s.allocate ⟨context, none, none⟩
  | .ok entryFunction =>
    match getFunction errorFunctionIndex with
    | .error _ => s.allocate ⟨context, some entryFunction, none⟩
    | .ok errorFunction =>
      { s.allocate ⟨context, some entryFunction, some errorFunction⟩ with
        callers := Function.update s.callers c (.publish s.allocated) }

/-- `threads.erase(std::find(threads.begin(), threads.end(), thread))`: the first
occurrence goes; `none` when `find` returns `end()`, whose `erase` is undefined. -/
def removeThread (threads : List Nat) (thread : Nat) : Option (List Nat) :=
  if thread ∈ threads then some (threads.erase thread) else none

/-- The next step of caller `c`: the push, or the spawn. -/
def runCaller (s : State n) (c : Fin n) : Option (State n) :=
  match s.callers c with
  | .idle => none
  | .publish thread =>
    some { s with threads := s.threads ++ [thread],
                  callers := Function.update s.callers c (.spawn thread) }
  | .spawn thread =>
    some { s with workers := Function.update s.workers thread (some .running),
                  callers := Function.update s.callers c .idle }

/-- The next step of the thread spawned on `thread`. -/
def runThread (s : State n) (thread : Nat) : Option (State n) :=
  match s.workers thread with
  | none => none
  | some .running =>
    (removeThread s.threads thread).map fun threads =>
      { s with threads, workers := Function.update s.workers thread (some .removed) }
  | some .removed =>
    some { s with records := Function.update s.records thread none,
                  workers := Function.update s.workers thread none }

inductive Action (n : Nat) where
  /-- Caller `c` calls `launchThread(entryFunctionIndex, argument, errorFunctionIndex,
  tableId)`; the argument is passed on to code this model does not run. -/
  | launchThread (c : Fin n) (entryFunctionIndex errorFunctionIndex : UInt32) (tableId : Nat)
  | run (c : Fin n)
  | runThread (thread : Nat)
  deriving DecidableEq, Repr

def step (s : State n) : Action n → Option (State n)
  | .launchThread c entryFunctionIndex errorFunctionIndex tableId =>
    if s.callers c = .idle then some (launchLocal s c entryFunctionIndex errorFunctionIndex tableId)
    else none
  | .run c => runCaller s c
  | .runThread thread => runThread s thread

/-- No record yet and every caller idle. -/
def init (tables : Nat → TableInstance) (functionType functionElementSize : Nat) : State n where
  tables := tables
  functionType := functionType
  functionElementSize := functionElementSize
  records := fun _ => none
  allocated := 0
  contexts := 0
  threads := []
  callers := fun _ => .idle
  workers := fun _ => none

inductive Reachable : State n → Prop where
  | init (tables : Nat → TableInstance) (functionType functionElementSize : Nat) :
    Reachable (init tables functionType functionElementSize)
  | step {s s' : State n} (a : Action n) : Reachable s → step s a = some s' → Reachable s'

/-- Runs a schedule of actions; `none` if some action is not enabled. -/
def run (s : State n) : List (Action n) → Option (State n)
  | [] => some s
  | a :: as => (step s a).bind fun s' => run s' as

theorem Reachable.run {s s' : State n} (hs : Reachable s) :
    ∀ {as : List (Action n)}, ThreadRecords.run s as = some s' → Reachable s'
  | [], h => by cases h; exact hs
  | a :: as, h => by
    simp only [ThreadRecords.run, Option.bind_eq_some] at h
    obtain ⟨s₁, h₁, h₂⟩ := h
    exact (hs.step a h₁).run h₂

/-! ## What one step can do -/

/-- `launchLocal` allocates one record, at `allocated`, and moves at most its own
caller, to the push of that record; it frees nothing and leaves `threads` and the
spawned threads alone. -/
theorem launchLocal_eq (s : State n) (c : Fin n) (i j : UInt32) (tableId : Nat) :
    ∃ thread : Thread,
      launchLocal s c i j tableId =
        { s.allocate thread with
          callers := if thread.errorFunction = none then s.callers
            else Function.update s.callers c (.publish s.allocated) } := by
  unfold launchLocal
  dsimp only
  split
  · exact ⟨_, rfl⟩
  · split <;> exact ⟨_, rfl⟩

theorem removeThread_eq_some {threads threads' : List Nat} {thread : Nat}
    (h : removeThread threads thread = some threads') :
    thread ∈ threads ∧ threads' = threads.erase thread := by
  unfold removeThread at h
  split at h
  · exact ⟨‹_›, (Option.some.inj h).symm⟩
  · cases h

/-! ## The invariant -/

/-- What every reachable state keeps, pointer by pointer. -/
structure Inv (s : State n) : Prop where
  nodup : s.threads.Nodup
  /-- Pointers not yet returned by `new` are untouched. -/
  fresh : ∀ p, s.allocated ≤ p →
    s.records p = none ∧ s.workers p = none ∧ ∀ c, (s.callers c).thread? ≠ some p
  /-- A listed record is live, and a spawned thread or the caller about to spawn one
  holds it. -/
  listed : ∀ p ∈ s.threads,
    (s.records p).isSome ∧ (s.workers p = some .running ∨ ∃ c, s.callers c = .spawn p)
  running : ∀ p, s.workers p = some .running → p ∈ s.threads
  removed : ∀ p, s.workers p = some .removed → p ∉ s.threads ∧ (s.records p).isSome
  publish : ∀ c p, s.callers c = .publish p →
    p ∉ s.threads ∧ (s.records p).isSome ∧ s.workers p = none
  spawn : ∀ c p, s.callers c = .spawn p → p ∈ s.threads ∧ s.workers p = none
  owner : ∀ c c' p, (s.callers c).thread? = some p → (s.callers c').thread? = some p → c = c'
  /-- A record whose error function was never set is one whose `launchThread`
  trapped: it is nowhere but in the heap. -/
  trapped : ∀ p r, s.records p = some r → r.errorFunction = none →
    p ∉ s.threads ∧ s.workers p = none ∧ ∀ c, (s.callers c).thread? ≠ some p
  /-- A live record that is not listed and that no thread holds has no error
  function. -/
  orphan : ∀ p r, s.records p = some r → p ∉ s.threads → s.workers p = none →
    (∀ c, (s.callers c).thread? ≠ some p) → r.errorFunction = none

theorem init_inv (tables : Nat → TableInstance) (functionType functionElementSize : Nat) :
    Inv (init tables functionType functionElementSize : State n) where
  nodup := List.nodup_nil
  fresh _ _ := ⟨rfl, rfl, fun _ => nofun⟩
  listed _ := nofun
  running _ := nofun
  removed _ := nofun
  publish _ _ := nofun
  spawn _ _ := nofun
  owner _ _ _ := nofun
  trapped _ _ := nofun
  orphan _ _ := nofun

/-! ## Each step keeps the invariant -/

section Steps

variable {s : State n} {c : Fin n} {p : Nat}

theorem Inv.records_of_mem (hi : Inv s) {q : Nat} (h : q ∈ s.threads) : (s.records q).isSome :=
  (hi.listed q h).1

theorem Inv.lt_allocated (hi : Inv s) {q : Nat} (h : (s.records q).isSome) : q < s.allocated :=
  Nat.lt_of_not_le fun hq => by simp [(hi.fresh q hq).1] at h

/-- Lines 317–323, whether a lookup traps (the caller stays idle) or not (it moves
to the push of the new record). -/
theorem Inv.allocate (hi : Inv s) (hc : s.callers c = .idle) {thread : Thread} {s' : State n}
    (hrec' : s'.records = Function.update s.records s.allocated (some thread))
    (halloc : s'.allocated = s.allocated + 1) (hthr : s'.threads = s.threads)
    (hwork' : s'.workers = s.workers) (hother : ∀ c', c' ≠ c → s'.callers c' = s.callers c')
    (hself : (s'.callers c = .idle ∧ thread.errorFunction = none) ∨
      (s'.callers c = .publish s.allocated ∧ thread.errorFunction ≠ none)) : Inv s' := by
  obtain ⟨hrec, hwork, hfree⟩ := hi.fresh s.allocated le_rfl
  have hmem : s.allocated ∉ s.threads := fun h => by simpa [hrec] using hi.records_of_mem h
  -- a caller holds what it held, or it is `c` and holds the new record
  have hheld : ∀ c' q, (s'.callers c').thread? = some q →
      (s.callers c').thread? = some q ∨ (c' = c ∧ q = s.allocated ∧ thread.errorFunction ≠ none) := by
    intro c' q h
    by_cases hc' : c' = c
    · subst hc'
      rcases hself with ⟨h1, -⟩ | ⟨h1, h2⟩
      · simp [h1, LaunchPc.thread?] at h
      · simp only [h1, LaunchPc.thread?, Option.some.injEq] at h
        exact .inr ⟨rfl, h.symm, h2⟩
    · exact .inl (hother c' hc' ▸ h)
  -- the old records keep their contents
  have hold : ∀ q, q ≠ s.allocated → s'.records q = s.records q :=
    fun q h => by rw [hrec', Function.update_noteq h]
  have hnew : s'.records s.allocated = some thread := by rw [hrec', Function.update_same]
  constructor
  · exact hthr ▸ hi.nodup
  · intro q hq
    obtain ⟨h1, h2, h3⟩ := hi.fresh q (by omega)
    refine ⟨by rw [hold q (by omega), h1], by rw [hwork', h2], fun c' h => ?_⟩
    rcases hheld c' q h with h | ⟨-, rfl, -⟩
    · exact h3 c' h
    · omega
  · intro q hq
    rw [hthr] at hq
    obtain ⟨h1, h2⟩ := hi.listed q hq
    refine ⟨by rwa [hold q (by rintro rfl; exact hmem hq)], ?_⟩
    rw [hwork']
    refine h2.imp_right fun ⟨c', hc'⟩ => ⟨c', ?_⟩
    rwa [hother c' (by rintro rfl; simp [hc] at hc')]
  · intro q hq
    rw [hwork'] at hq
    exact hthr ▸ hi.running q hq
  · intro q hq
    rw [hwork'] at hq
    obtain ⟨h1, h2⟩ := hi.removed q hq
    exact ⟨hthr ▸ h1, by rwa [hold q (by rintro rfl; simp [hwork] at hq)]⟩
  · intro c' q hq
    rw [hthr, hwork']
    by_cases hc' : c' = c
    · subst hc'
      rcases hself with ⟨h1, -⟩ | ⟨h1, -⟩ <;> rw [h1] at hq <;> cases hq
      exact ⟨hmem, by simp [hnew], hwork⟩
    · rw [hother c' hc'] at hq
      obtain ⟨h1, h2, h3⟩ := hi.publish c' q hq
      have hq' : q ≠ s.allocated := by rintro rfl; simp [hrec] at h2
      exact ⟨h1, by rwa [hold q hq'], h3⟩
  · intro c' q hq
    have hc' : c' ≠ c := by
      rintro rfl; rcases hself with ⟨h1, -⟩ | ⟨h1, -⟩ <;> simp [h1] at hq
    rw [hother c' hc'] at hq
    rw [hthr, hwork']
    exact hi.spawn c' q hq
  · intro c₁ c₂ q h₁ h₂
    rcases hheld c₁ q h₁ with h₁ | ⟨rfl, hq, -⟩
    · rcases hheld c₂ q h₂ with h₂ | ⟨rfl, rfl, -⟩
      · exact hi.owner c₁ c₂ q h₁ h₂
      · exact absurd h₁ (hfree c₁)
    · rcases hheld c₂ q h₂ with h₂ | ⟨rfl, -, -⟩
      · exact absurd (hq ▸ h₂) (hfree c₂)
      · rfl
  · intro q r hq he
    rw [hthr, hwork']
    by_cases hq' : q = s.allocated
    · subst hq'
      rw [hnew, Option.some.injEq] at hq
      subst hq
      refine ⟨hmem, hwork, fun c' h => ?_⟩
      rcases hheld c' _ h with h | ⟨-, -, h⟩
      · exact hfree c' h
      · exact h he
    · rw [hold q hq'] at hq
      obtain ⟨h1, h2, h3⟩ := hi.trapped q r hq he
      refine ⟨h1, h2, fun c' h => ?_⟩
      rcases hheld c' q h with h | ⟨-, h, -⟩
      · exact h3 c' h
      · exact hq' h
  · intro q r hq hmem' hw hh
    rw [hthr] at hmem'
    rw [hwork'] at hw
    by_cases hq' : q = s.allocated
    · subst hq'
      rw [hnew, Option.some.injEq] at hq
      subst hq
      by_contra he
      rcases hself with ⟨-, h⟩ | ⟨h, -⟩
      · exact he h
      · exact hh c (by simp [h, LaunchPc.thread?])
    · rw [hold q hq'] at hq
      refine hi.orphan q r hq hmem' hw fun c' h => ?_
      by_cases hc' : c' = c
      · subst hc'; simp [hc, LaunchPc.thread?] at h
      · exact hh c' (by rwa [hother c' hc'])

theorem launchLocal_inv (hi : Inv s) (hc : s.callers c = .idle) (i j : UInt32) (tableId : Nat) :
    Inv (launchLocal s c i j tableId) := by
  obtain ⟨thread, h⟩ := launchLocal_eq s c i j tableId
  rw [h]
  refine hi.allocate hc rfl rfl rfl rfl (fun c' h => ?_) ?_ <;> dsimp only
  · split <;> simp [Function.update_noteq h]
  · split <;> simp [*]

/-- The push at lines 324–327. -/
theorem Inv.publish_step (hi : Inv s) (hc : s.callers c = .publish p) :
    Inv { s with threads := s.threads ++ [p],
                 callers := Function.update s.callers c (.spawn p) } := by
  obtain ⟨hp, hrec, hwork⟩ := hi.publish c p hc
  -- the push moves `c` from `publish p` to `spawn p`: every caller holds what it held
  have hheld : ∀ c', (Function.update s.callers c (.spawn p) c').thread? = (s.callers c').thread? := by
    intro c'
    by_cases h : c' = c
    · subst h; simp [hc, LaunchPc.thread?]
    · rw [Function.update_noteq h]
  have hne : ∀ c' q, (s.callers c').thread? = some q → c' ≠ c → q ≠ p := by
    rintro c' q h hc' rfl
    exact hc' (hi.owner c' c q h (by simp [hc, LaunchPc.thread?]))
  constructor <;> try dsimp only
  · exact hi.nodup.append (List.nodup_singleton p) (List.disjoint_singleton.2 hp)
  · intro q hq
    obtain ⟨h1, h2, h3⟩ := hi.fresh q hq
    exact ⟨h1, h2, fun c' => by rw [hheld]; exact h3 c'⟩
  · intro q hq
    simp only [List.mem_append, List.mem_singleton] at hq
    rcases hq with hq | rfl
    · obtain ⟨h1, h2⟩ := hi.listed q hq
      refine ⟨h1, h2.imp_right fun ⟨c', hc'⟩ => ⟨c', ?_⟩⟩
      rwa [Function.update_noteq (by rintro rfl; simp [hc] at hc')]
    · exact ⟨hrec, .inr ⟨c, Function.update_same _ _ _⟩⟩
  · intro q hq
    exact List.mem_append_left _ (hi.running q hq)
  · intro q hq
    obtain ⟨h1, h2⟩ := hi.removed q hq
    refine ⟨?_, h2⟩
    simp only [List.mem_append, List.mem_singleton, not_or]
    exact ⟨h1, by rintro rfl; simp [hwork] at hq⟩
  · intro c' q hq
    have hc' : c' ≠ c := by rintro rfl; simp at hq
    rw [Function.update_noteq hc'] at hq
    obtain ⟨h1, h2, h3⟩ := hi.publish c' q hq
    refine ⟨?_, h2, h3⟩
    simp only [List.mem_append, List.mem_singleton, not_or]
    exact ⟨h1, hne c' q (by simp [hq, LaunchPc.thread?]) hc'⟩
  · intro c' q hq
    by_cases hc' : c' = c
    · subst hc'
      simp only [Function.update_same, LaunchPc.spawn.injEq] at hq
      subst hq
      exact ⟨List.mem_append_right _ (List.mem_singleton_self _), hwork⟩
    · rw [Function.update_noteq hc'] at hq
      exact (hi.spawn c' q hq).imp_left (List.mem_append_left _)
  · intro c₁ c₂ q h₁ h₂
    rw [hheld] at h₁ h₂
    exact hi.owner c₁ c₂ q h₁ h₂
  · intro q r hq he
    obtain ⟨h1, h2, h3⟩ := hi.trapped q r hq he
    refine ⟨?_, h2, fun c' => by rw [hheld]; exact h3 c'⟩
    simp only [List.mem_append, List.mem_singleton, not_or]
    exact ⟨h1, fun hqp => h3 c (by simp [hc, hqp, LaunchPc.thread?])⟩
  · intro q r hq hmem hw hh
    simp only [List.mem_append, not_or] at hmem
    exact hi.orphan q r hq hmem.1 hw fun c' => by rw [← hheld]; exact hh c'

/-- The spawn at lines 330–336. -/
theorem Inv.spawn_step (hi : Inv s) (hc : s.callers c = .spawn p) :
    Inv { s with workers := Function.update s.workers p (some .running),
                 callers := Function.update s.callers c .idle } := by
  obtain ⟨hp, hwork⟩ := hi.spawn c p hc
  -- the spawn drops `c`'s hold on `p`; the others keep theirs
  have hheld : ∀ c' q, (Function.update s.callers c .idle c').thread? = some q →
      c' ≠ c ∧ (s.callers c').thread? = some q := by
    intro c' q h
    by_cases hc' : c' = c
    · subst hc'; simp [LaunchPc.thread?] at h
    · exact ⟨hc', by rwa [Function.update_noteq hc'] at h⟩
  have hne : ∀ c' q, (s.callers c').thread? = some q → c' ≠ c → q ≠ p := by
    rintro c' q h hc' rfl
    exact hc' (hi.owner c' c q h (by simp [hc, LaunchPc.thread?]))
  have hwork' : ∀ q, q ≠ p → Function.update s.workers p (some .running) q = s.workers q :=
    fun q h => Function.update_noteq h _ _
  constructor <;> try dsimp only
  · exact hi.nodup
  · intro q hq
    obtain ⟨h1, h2, h3⟩ := hi.fresh q hq
    have hqp : q ≠ p := by rintro rfl; simpa [h1] using hi.records_of_mem hp
    exact ⟨h1, by rw [hwork' q hqp, h2], fun c' h => h3 c' (hheld c' q h).2⟩
  · intro q hq
    obtain ⟨h1, h2⟩ := hi.listed q hq
    refine ⟨h1, ?_⟩
    by_cases hqp : q = p
    · subst hqp; exact .inl (Function.update_same _ _ _)
    · rw [hwork' q hqp]
      refine h2.imp_right fun ⟨c', hc'⟩ => ⟨c', ?_⟩
      have hc'c : c' ≠ c := by rintro rfl; rw [hc] at hc'; cases hc'; exact hqp rfl
      rwa [Function.update_noteq hc'c]
  · intro q hq
    by_cases hqp : q = p
    · subst hqp; exact hp
    · rw [hwork' q hqp] at hq; exact hi.running q hq
  · intro q hq
    have hqp : q ≠ p := by rintro rfl; simp at hq
    rw [hwork' q hqp] at hq
    exact hi.removed q hq
  · intro c' q hq
    obtain ⟨hc', hq'⟩ := hheld c' q (by simp [hq, LaunchPc.thread?])
    rw [Function.update_noteq hc'] at hq
    obtain ⟨h1, h2, h3⟩ := hi.publish c' q hq
    exact ⟨h1, h2, by rw [hwork' q (hne c' q hq' hc'), h3]⟩
  · intro c' q hq
    obtain ⟨hc', hq'⟩ := hheld c' q (by simp [hq, LaunchPc.thread?])
    rw [Function.update_noteq hc'] at hq
    obtain ⟨h1, h2⟩ := hi.spawn c' q hq
    exact ⟨h1, by rw [hwork' q (hne c' q hq' hc'), h2]⟩
  · intro c₁ c₂ q h₁ h₂
    exact hi.owner c₁ c₂ q (hheld c₁ q h₁).2 (hheld c₂ q h₂).2
  · intro q r hq he
    obtain ⟨h1, h2, h3⟩ := hi.trapped q r hq he
    have hqp : q ≠ p := by rintro rfl; exact h1 hp
    exact ⟨h1, by rw [hwork' q hqp, h2], fun c' h => h3 c' (hheld c' q h).2⟩
  · intro q r hq hmem hw hh
    have hqp : q ≠ p := by rintro rfl; exact hmem hp
    rw [hwork' q hqp] at hw
    refine hi.orphan q r hq hmem hw fun c' h => ?_
    by_cases hc' : c' = c
    · subst hc'; rw [hc] at h; exact hqp (Option.some.inj h).symm
    · exact hh c' (by rwa [Function.update_noteq hc'])

/-- Lines 268–304: the `find` finds `p`, and the `erase` removes it. -/
theorem Inv.remove_step (hi : Inv s) (hp : s.workers p = some .running) :
    Inv { s with threads := s.threads.erase p,
                 workers := Function.update s.workers p (some .removed) } := by
  have hmem := hi.running p hp
  have herase : ∀ q, q ∈ s.threads.erase p ↔ q ≠ p ∧ q ∈ s.threads :=
    fun q => hi.nodup.mem_erase_iff
  have hwork' : ∀ q, q ≠ p → Function.update s.workers p (some .removed) q = s.workers q :=
    fun q h => Function.update_noteq h _ _
  constructor <;> try dsimp only
  · exact hi.nodup.erase p
  · intro q hq
    obtain ⟨h1, h2, h3⟩ := hi.fresh q hq
    have hqp : q ≠ p := by rintro rfl; simp [hp] at h2
    exact ⟨h1, by rw [hwork' q hqp, h2], h3⟩
  · intro q hq
    obtain ⟨hqp, hq⟩ := (herase q).1 hq
    rw [hwork' q hqp]
    exact hi.listed q hq
  · intro q hq
    have hqp : q ≠ p := by rintro rfl; simp at hq
    rw [hwork' q hqp] at hq
    exact (herase q).2 ⟨hqp, hi.running q hq⟩
  · intro q hq
    by_cases hqp : q = p
    · subst hqp; exact ⟨hi.nodup.not_mem_erase, hi.records_of_mem hmem⟩
    · rw [hwork' q hqp] at hq
      obtain ⟨h1, h2⟩ := hi.removed q hq
      exact ⟨fun h => h1 ((herase q).1 h).2, h2⟩
  · intro c' q hq
    obtain ⟨h1, h2, h3⟩ := hi.publish c' q hq
    have hqp : q ≠ p := by rintro rfl; simp [hp] at h3
    exact ⟨fun h => h1 ((herase q).1 h).2, h2, by rw [hwork' q hqp, h3]⟩
  · intro c' q hq
    obtain ⟨h1, h2⟩ := hi.spawn c' q hq
    have hqp : q ≠ p := by rintro rfl; simp [hp] at h2
    exact ⟨(herase q).2 ⟨hqp, h1⟩, by rw [hwork' q hqp, h2]⟩
  · exact hi.owner
  · intro q r hq he
    obtain ⟨h1, h2, h3⟩ := hi.trapped q r hq he
    have hqp : q ≠ p := by rintro rfl; simp [hp] at h2
    exact ⟨fun h => h1 ((herase q).1 h).2, by rw [hwork' q hqp, h2], h3⟩
  · intro q r hq hmem' hw hh
    have hqp : q ≠ p := by rintro rfl; simp at hw
    rw [hwork' q hqp] at hw
    exact hi.orphan q r hq (fun h => hmem' ((herase q).2 ⟨hqp, h⟩)) hw hh

/-- Line 307: `delete thread`. -/
theorem Inv.delete_step (hi : Inv s) (hp : s.workers p = some .removed) :
    Inv { s with records := Function.update s.records p none,
                 workers := Function.update s.workers p none } := by
  obtain ⟨hmem, hrec⟩ := hi.removed p hp
  have hrec' : ∀ q, q ≠ p → Function.update s.records p none q = s.records q :=
    fun q h => Function.update_noteq h _ _
  have hwork' : ∀ q, q ≠ p → Function.update s.workers p none q = s.workers q :=
    fun q h => Function.update_noteq h _ _
  -- `p` is neither listed nor held by a caller
  have hheld : ∀ c' q, (s.callers c').thread? = some q → q ≠ p := by
    rintro c' q h rfl
    cases hc : s.callers c' with
    | idle => simp [hc, LaunchPc.thread?] at h
    | publish q' =>
      simp only [hc, LaunchPc.thread?, Option.some.injEq] at h
      subst h; simp [(hi.publish c' _ hc).2.2] at hp
    | spawn q' =>
      simp only [hc, LaunchPc.thread?, Option.some.injEq] at h
      subst h; simp [(hi.spawn c' _ hc).2] at hp
  have hlisted : ∀ q ∈ s.threads, q ≠ p := by rintro q hq rfl; exact hmem hq
  constructor <;> try dsimp only
  · exact hi.nodup
  · intro q hq
    obtain ⟨h1, h2, h3⟩ := hi.fresh q hq
    have hqp : q ≠ p := by rintro rfl; simp [h1] at hrec
    exact ⟨by rw [hrec' q hqp, h1], by rw [hwork' q hqp, h2], h3⟩
  · intro q hq
    rw [hrec' q (hlisted q hq), hwork' q (hlisted q hq)]
    exact hi.listed q hq
  · intro q hq
    have hqp : q ≠ p := by rintro rfl; simp at hq
    rw [hwork' q hqp] at hq
    exact hi.running q hq
  · intro q hq
    have hqp : q ≠ p := by rintro rfl; simp at hq
    rw [hwork' q hqp] at hq
    rw [hrec' q hqp]
    exact hi.removed q hq
  · intro c' q hq
    have hqp := hheld c' q (by simp [hq, LaunchPc.thread?])
    rw [hrec' q hqp, hwork' q hqp]
    exact hi.publish c' q hq
  · intro c' q hq
    have hqp := hheld c' q (by simp [hq, LaunchPc.thread?])
    rw [hwork' q hqp]
    exact hi.spawn c' q hq
  · exact hi.owner
  · intro q r hq he
    have hqp : q ≠ p := by rintro rfl; simp at hq
    rw [hrec' q hqp] at hq
    rw [hwork' q hqp]
    exact hi.trapped q r hq he
  · intro q r hq hmem' hw hh
    have hqp : q ≠ p := by rintro rfl; simp at hq
    rw [hrec' q hqp] at hq
    rw [hwork' q hqp] at hw
    exact hi.orphan q r hq hmem' hw hh

theorem step_inv (hi : Inv s) {a : Action n} {s' : State n} (h : step s a = some s') : Inv s' := by
  cases a with
  | launchThread c i j tableId =>
    simp only [step] at h
    split at h
    · cases h; exact launchLocal_inv hi ‹_› i j tableId
    · cases h
  | run c =>
    simp only [step, runCaller] at h
    split at h
    · cases h
    · cases h; exact hi.publish_step ‹_›
    · cases h; exact hi.spawn_step ‹_›
  | runThread p =>
    simp only [step, runThread] at h
    split at h
    · cases h
    · obtain ⟨threads, hr, rfl⟩ := Option.map_eq_some'.1 h
      rw [(removeThread_eq_some hr).2]
      exact hi.remove_step ‹_›
    · cases h; exact hi.delete_step ‹_›

theorem Reachable.inv {s : State n} (hs : Reachable s) : Inv s := by
  induction hs with
  | init tables functionType functionElementSize => exact init_inv tables functionType functionElementSize
  | step a _ h ih => exact step_inv ih h

end Steps

/-! ## `std::find` always finds its record -/

/-- Lines 299–304 of a spawned thread: `std::find` finds its record, which is in
`threads` exactly once, so the `erase` is defined and takes the record out. -/
theorem threadFunc_finds_record {s : State n} (hs : Reachable s) {p : Nat}
    (hp : s.workers p = some .running) :
    s.threads.count p = 1 ∧ ∃ s', step s (.runThread p) = some s' ∧ p ∉ s'.threads := by
  have hi := hs.inv
  have hmem := hi.running p hp
  refine ⟨List.count_eq_one_of_mem hi.nodup hmem,
    { s with threads := s.threads.erase p, workers := Function.update s.workers p (some .removed) },
    ?_, hi.nodup.not_mem_erase⟩
  simp [step, runThread, hp, removeThread, hmem]

/-- A run to a state from its reachable initial state. -/
theorem exists_reachable_of_run (tables : Nat → TableInstance) (functionType functionElementSize : Nat)
    (sched : List (Action n)) (P : State n → Prop) [DecidablePred P]
    (h : (run (init tables functionType functionElementSize) sched).map (fun s => decide (P s)) =
      some true) :
    ∃ s, Reachable s ∧ P s := by
  cases hr : run (init tables functionType functionElementSize) sched with
  | none => simp [hr] at h
  | some s => exact ⟨s, (Reachable.init _ _ _).run hr, by simpa [hr] using h⟩

/-- A table with no element: every lookup traps with `undefinedTableElement`. -/
def emptyTable : TableInstance := ⟨0, fun _ => 0, fun _ => 0⟩

/-- A table of one element, of type 0, holding function 7. -/
def oneElementTable : TableInstance := ⟨16, fun _ => 0, fun _ => 7⟩

/-- One caller launches a thread on element 0 twice over, pushes and spawns it. -/
def launchAndSpawn : List (Action 1) := [.launchThread 0 0 0 0, .run 0, .run 0]

theorem threadFunc_finds_record_launched :
    ∃ s : State 1, Reachable s ∧ s.workers 0 = some .running ∧
      s.threads.count 0 = 1 ∧ ∃ s', step s (.runThread 0) = some s' ∧ 0 ∉ s'.threads := by
  obtain ⟨s, hs, hp⟩ := exists_reachable_of_run (fun _ => oneElementTable) 0 16 launchAndSpawn
    (fun s => s.workers 0 = some .running) (by decide)
  exact ⟨s, hs, hp, threadFunc_finds_record hs hp⟩

/-! ## Records whose `launchThread` trapped -/

/-- A live record out of `threads` that no thread holds: no step pushes it, erases
it or frees it. -/
structure Orphaned (s : State n) (p : Nat) : Prop where
  live : (s.records p).isSome
  lt_allocated : p < s.allocated
  not_listed : p ∉ s.threads
  no_worker : s.workers p = none
  no_caller : ∀ c, (s.callers c).thread? ≠ some p

instance (s : State n) (p : Nat) : Decidable (Orphaned s p) :=
  decidable_of_iff ((s.records p).isSome ∧ p < s.allocated ∧ p ∉ s.threads ∧ s.workers p = none ∧
      ∀ c, (s.callers c).thread? ≠ some p)
    ⟨fun ⟨h1, h2, h3, h4, h5⟩ => ⟨h1, h2, h3, h4, h5⟩, fun ⟨h1, h2, h3, h4, h5⟩ => ⟨h1, h2, h3, h4, h5⟩⟩

/-- A live record is in `threads` exactly once, or a thread holds it that is about
to push it or to free it, or else it is orphaned; and it is orphaned exactly when
its error function was never set, that is when its `launchThread` trapped. -/
theorem live_record_accounted {s : State n} (hs : Reachable s) {p : Nat} {r : Thread}
    (hr : s.records p = some r) :
    (Orphaned s p ↔ r.errorFunction = none) ∧
    (¬Orphaned s p → s.threads.count p = 1 ∨ s.workers p = some .removed ∨
      ∃ c, s.callers c = .publish p) := by
  have hi := hs.inv
  have hlive : (s.records p).isSome := by simp [hr]
  have hlt := hi.lt_allocated hlive
  refine ⟨⟨fun ho => hi.orphan p r hr ho.not_listed ho.no_worker ho.no_caller, fun he => ?_⟩,
    fun hno => ?_⟩
  · obtain ⟨h1, h2, h3⟩ := hi.trapped p r hr he
    exact ⟨hlive, hlt, h1, h2, h3⟩
  by_cases hm : p ∈ s.threads
  · exact .inl (List.count_eq_one_of_mem hi.nodup hm)
  right
  cases hw : s.workers p with
  | some w =>
    cases w with
    | running => exact absurd (hi.running p hw) hm
    | removed => exact .inl rfl
  | none =>
    obtain ⟨c, hc⟩ : ∃ c, (s.callers c).thread? = some p := by
      by_contra hh
      push_neg at hh
      exact hno ⟨hlive, hlt, hm, hw, hh⟩
    refine .inr ⟨c, ?_⟩
    cases hcp : s.callers c with
    | idle => simp [hcp, LaunchPc.thread?] at hc
    | publish q => simp only [hcp, LaunchPc.thread?, Option.some.injEq] at hc; rw [hc]
    | spawn q =>
      simp only [hcp, LaunchPc.thread?, Option.some.injEq] at hc
      subst hc
      exact absurd (hi.spawn c _ hcp).1 hm

theorem live_record_accounted_trapped :
    ∃ s : State 1, Reachable s ∧ s.records 0 = some ⟨some 0, none, none⟩ ∧
      (Orphaned s 0 ↔ (⟨some 0, none, none⟩ : Thread).errorFunction = none) ∧
      (¬Orphaned s 0 → s.threads.count 0 = 1 ∨ s.workers 0 = some .removed ∨
        ∃ c, s.callers c = .publish 0) := by
  obtain ⟨s, hs, hr⟩ := exists_reachable_of_run (fun _ => emptyTable) 0 16
    ([.launchThread 0 0 0 0] : List (Action 1)) (fun s => s.records 0 = some ⟨some 0, none, none⟩) (by decide)
  exact ⟨s, hs, hr, live_record_accounted hs hr⟩

/-- No step touches an orphaned record: it stays allocated, with its contents, out
of `threads`, and held by no thread. -/
theorem Orphaned.after_step {s s' : State n} {p : Nat} {a : Action n} (ho : Orphaned s p)
    (h : step s a = some s') : Orphaned s' p ∧ s'.records p = s.records p := by
  obtain ⟨hrec, hlt, hmem, hwork, hheld⟩ := ho
  cases a with
  | launchThread c i j tableId =>
    simp only [step] at h
    split at h
    · cases h
      obtain ⟨thread, heq⟩ := launchLocal_eq s c i j tableId
      have hp : p ≠ s.allocated := Nat.ne_of_lt hlt
      have hr : (launchLocal s c i j tableId).records p = s.records p := by
        rw [heq]; exact Function.update_noteq hp _ _
      refine ⟨⟨hr ▸ hrec, ?_, ?_, ?_, fun c' => ?_⟩, hr⟩ <;> rw [heq] <;> dsimp only
      · simp only [State.allocate_allocated]; omega
      · exact hmem
      · exact hwork
      · split
        · exact hheld c'
        · by_cases hc' : c' = c
          · subst hc'; simpa [LaunchPc.thread?] using hp.symm
          · rw [Function.update_noteq hc']; exact hheld c'
    · cases h
  | run c =>
    simp only [step, runCaller] at h
    split at h
    · cases h
    · rename_i t ht
      cases h
      have htp : t ≠ p := fun e => hheld c (by simp [ht, e, LaunchPc.thread?])
      refine ⟨⟨hrec, hlt, by simp [hmem, htp.symm], hwork, fun c' => ?_⟩, rfl⟩
      dsimp only
      by_cases hc' : c' = c
      · subst hc'; simpa [LaunchPc.thread?] using htp
      · rw [Function.update_noteq hc']; exact hheld c'
    · rename_i t ht
      cases h
      have htp : t ≠ p := fun e => hheld c (by simp [ht, e, LaunchPc.thread?])
      refine ⟨⟨hrec, hlt, hmem, by dsimp only; rw [Function.update_noteq htp.symm, hwork],
        fun c' => ?_⟩, rfl⟩
      dsimp only
      by_cases hc' : c' = c
      · subst hc'; simp [LaunchPc.thread?]
      · rw [Function.update_noteq hc']; exact hheld c'
  | runThread q =>
    simp only [step, runThread] at h
    split at h
    · cases h
    · rename_i hq
      obtain ⟨threads, hr, rfl⟩ := Option.map_eq_some'.1 h
      have hqp : p ≠ q := by rintro rfl; simp [hwork] at hq
      refine ⟨⟨hrec, hlt, ?_, by dsimp only; rw [Function.update_noteq hqp, hwork], hheld⟩, rfl⟩
      dsimp only
      rw [(removeThread_eq_some hr).2]
      exact fun hm => hmem (List.mem_of_mem_erase hm)
    · rename_i hq
      cases h
      have hqp : p ≠ q := by rintro rfl; simp [hwork] at hq
      have hr : Function.update s.records q none p = s.records p := Function.update_noteq hqp _ _
      exact ⟨⟨by dsimp only; rw [hr]; exact hrec, hlt, hmem,
        by dsimp only; rw [Function.update_noteq hqp, hwork], hheld⟩, hr⟩

theorem Orphaned.after_run {s s' : State n} {p : Nat} (ho : Orphaned s p) :
    ∀ {as : List (Action n)}, ThreadRecords.run s as = some s' →
      Orphaned s' p ∧ s'.records p = s.records p
  | [], h => by cases h; exact ⟨ho, rfl⟩
  | a :: as, h => by
    simp only [ThreadRecords.run, Option.bind_eq_some] at h
    obtain ⟨s₁, h₁, h₂⟩ := h
    obtain ⟨ho₁, hr₁⟩ := ho.after_step h₁
    obtain ⟨ho₂, hr₂⟩ := ho₁.after_run h₂
    exact ⟨ho₂, hr₂.trans hr₁⟩

/-- When one of the lookups of lines 322–323 traps, `launchLocal` leaves the record
with its cloned context and without an error function. -/
theorem launchLocal_of_trap (s : State n) (c : Fin n) {i j : UInt32} {tableId : Nat}
    (htrap : (∃ e, getFunctionFromTable s.functionElementSize (s.tables tableId) s.functionType i =
        .error e) ∨
      ∃ e, getFunctionFromTable s.functionElementSize (s.tables tableId) s.functionType j = .error e) :
    ∃ entryFunction, launchLocal s c i j tableId = s.allocate ⟨some s.contexts, entryFunction, none⟩ := by
  unfold launchLocal
  dsimp only
  rcases htrap with ⟨e, he⟩ | ⟨e, he⟩
  · rw [he]; exact ⟨none, rfl⟩
  · split
    · exact ⟨none, rfl⟩
    · rw [he]; exact ⟨_, rfl⟩

/-- A `launchThread` whose entry or error lookup traps, from any reachable state,
leaves its record allocated, holding the cloned context as a root, out of
`threads` and held by no thread; and in every continuation of the run the record
stays allocated, unchanged, and out of `threads`: it is never freed. -/
theorem launchThread_trap_leaks_record {s s' : State n} (hs : Reachable s) {c : Fin n}
    {i j : UInt32} {tableId : Nat}
    (htrap : (∃ e, getFunctionFromTable s.functionElementSize (s.tables tableId) s.functionType i =
        .error e) ∨
      ∃ e, getFunctionFromTable s.functionElementSize (s.tables tableId) s.functionType j = .error e)
    (h : step s (.launchThread c i j tableId) = some s') :
    (s'.records s.allocated).map Thread.context = some (some s.contexts) ∧
    Orphaned s' s.allocated ∧
    ∀ (as : List (Action n)) (s'' : State n), run s' as = some s'' →
      s''.records s.allocated = s'.records s.allocated ∧ s.allocated ∉ s''.threads := by
  have hi := hs.inv
  obtain ⟨hrec, hwork, hfree⟩ := hi.fresh s.allocated le_rfl
  simp only [step] at h
  split at h
  · cases h
    obtain ⟨entryFunction, heq⟩ := launchLocal_of_trap s c htrap
    rw [heq]
    have ho : Orphaned (s.allocate ⟨some s.contexts, entryFunction, none⟩) s.allocated :=
      ⟨by simp, by simp, fun hm => by simpa [hrec] using hi.records_of_mem hm, hwork, hfree⟩
    exact ⟨by simp, ho, fun as s'' hr => ⟨(ho.after_run hr).2, (ho.after_run hr).1.not_listed⟩⟩
  · cases h

theorem launchThread_trap_leaks_record_empty_table :
    ∃ s' : State 1, step (init (fun _ => emptyTable) 0 16) (.launchThread 0 0 0 0) = some s' ∧
      s'.records 0 = some ⟨some 0, none, none⟩ ∧ Orphaned s' 0 ∧
      ∀ (as : List (Action 1)) (s'' : State 1), run s' as = some s'' →
        s''.records 0 = s'.records 0 ∧ 0 ∉ s''.threads := by
  refine ⟨_, rfl, rfl, ?_⟩
  exact (@launchThread_trap_leaks_record 1 (init (fun _ => emptyTable) 0 16) _
    (Reachable.init _ _ _) 0 0 0 0 (.inl ⟨.undefinedTableElement, rfl⟩) rfl).2

end Wavm.Runtime.ThreadRecords
