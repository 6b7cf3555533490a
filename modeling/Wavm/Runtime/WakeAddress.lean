import Mathlib.Data.Fintype.Card
import Mathlib.Algebra.Group.Nat.Basic

/-! # `wakeAddress`: what one call does to the wait list

`wakeAddress(address, numToWake)` (`Threads.cpp`, lines 173–206) opens the wait
list of `address`, and under the list's mutex

* computes `actualNumToWake`: all waiters when `numToWake == UINT32_MAX` or when
  fewer than `numToWake` are waiting, `numToWake` otherwise;
* signals `wakeEvents[0 .. actualNumToWake)`, oldest first, and erases them.

After closing the list it checks `actualNumToWake > UINT32_MAX` and throws
`integerDivideByZeroOrIntegerOverflow` if so, else returns `U32(actualNumToWake)`.

The check comes after the signals and the erase, so it could only fire after the
call had changed the list. It never fires: the events are the `threadWakeEvent`s of
distinct threads, and a process has fewer than `UINT32_MAX` threads. On a list of
distinct events of at most `UINT32_MAX` threads, the call signals the oldest
`actualNumToWake` events once each, erases them, and returns their number
(`wakeAddress_spec`).

The critical section `wakeLocked` is shared with the interleaving model of the
wait lists, where it is one step.
-/

namespace Wavm.Runtime

/-- `UINT32_MAX`. -/
def uint32Max : Nat := 2 ^ 32 - 1

/-- `UINT64_MAX`. -/
def uint64Max : Nat := 2 ^ 64 - 1

/-- The runtime exceptions the modelled intrinsics throw (spec §6). -/
inductive Exception where
  | accessViolation
  | misalignedAtomicMemoryAccess
  | undefinedTableElement
  | indirectCallSignatureMismatch
  | integerDivideByZeroOrIntegerOverflow
  deriving DecidableEq, Repr

/-- `actualNumToWake` as lines 179–188 compute it from `numToWake` and the number
of registered events. -/
def actualNumToWake (numToWake : UInt32) (size : Nat) : Nat :=
  if numToWake.toNat = uint32Max ∨ size < numToWake.toNat then size else numToWake.toNat

/-- `signalEvent` on each of `events`, in order. An event is a flag that
`signalEvent` sets. -/
def signalEvents {α : Type} [DecidableEq α] (events : List α) (signaled : α → Bool) :
    α → Bool :=
  events.foldl (fun sig e => Function.update sig e true) signaled

@[simp] theorem signalEvents_apply {α : Type} [DecidableEq α] (events : List α)
    (signaled : α → Bool) (e : α) :
    signalEvents events signaled e = (signaled e || decide (e ∈ events)) := by
  induction events generalizing signaled with
  | nil => simp [signalEvents]
  | cons x xs ih =>
    simp only [signalEvents, List.foldl_cons] at ih ⊢
    rw [ih]
    by_cases h : e = x
    · subst h; simp
    · simp [h]

/-- The critical section of `wakeAddress` (lines 181–198) on a list holding
`wakeEvents`: the events signaled by the loop at line 191, in order, the list
after the erase at line 197, and `actualNumToWake`. -/
def wakeLocked {α : Type} (wakeEvents : List α) (numToWake : UInt32) :
    List α × List α × Nat :=
  let k := actualNumToWake numToWake wakeEvents.length
  (wakeEvents.take k, wakeEvents.drop k, k)

@[simp] theorem wakeLocked_eq {α : Type} (wakeEvents : List α) (numToWake : UInt32) :
    wakeLocked wakeEvents numToWake =
      (wakeEvents.take (actualNumToWake numToWake wakeEvents.length),
        wakeEvents.drop (actualNumToWake numToWake wakeEvents.length),
        actualNumToWake numToWake wakeEvents.length) := rfl

/-- The outcome of one `wakeAddress` call on a list holding some events. -/
structure WakeResult (α : Type) where
  /-- The events `signalEvent` was called on, in call order. -/
  signaled : List α
  /-- The wait list's `wakeEvents` when the call is done. -/
  wakeEvents : List α
  /-- The value returned, or the exception thrown at line 203. -/
  result : Except Exception UInt32

/-- The overflow check at line 201 and the cast at line 205. -/
def wakeResult (actual : Nat) : Except Exception UInt32 :=
  if uint32Max < actual then .error .integerDivideByZeroOrIntegerOverflow
  else .ok (UInt32.ofNat actual)

/-- One call of `wakeAddress` whose `openWaitList` yields a list holding
`wakeEvents` (lines 175–205). -/
def wakeAddress {α : Type} (wakeEvents : List α) (numToWake : UInt32) : WakeResult α :=
  if numToWake = 0 then ⟨[], wakeEvents, .ok 0⟩
  else
    let (signaled, rest, actual) := wakeLocked wakeEvents numToWake
    ⟨signaled, rest, wakeResult actual⟩

/-! ## `actualNumToWake` -/

theorem actualNumToWake_le (numToWake : UInt32) (size : Nat) :
    actualNumToWake numToWake size ≤ size := by
  unfold actualNumToWake; split <;> omega

/-- Without the sentinel, `actualNumToWake` is `min(numToWake, size)`. -/
theorem actualNumToWake_of_ne (numToWake : UInt32) (size : Nat)
    (h : numToWake.toNat ≠ uint32Max) :
    actualNumToWake numToWake size = min numToWake.toNat size := by
  unfold actualNumToWake; split <;> omega

/-! ## One call -/

/-- `wakeAddress` with a nonzero count signals `take k`, leaves `drop k` and
reports `k`, where `k` is `actualNumToWake`. -/
theorem wakeAddress_of_ne_zero {α : Type} (L : List α) {numToWake : UInt32}
    (h : numToWake ≠ 0) :
    wakeAddress L numToWake =
      ⟨L.take (actualNumToWake numToWake L.length), L.drop (actualNumToWake numToWake L.length),
        wakeResult (actualNumToWake numToWake L.length)⟩ := by
  simp [wakeAddress, h]

/-- One call of `wakeAddress` on a wait list holding `L`, distinct events of at most
`UINT32_MAX` threads. A zero count changes nothing and returns 0. Otherwise, with
`k = |L|` for the sentinel and `k = min(numToWake, |L|)` else, the call signals
`L[0 .. k)`, each once, leaves `drop k L` and returns `k`: it never traps at the
overflow check after signaling. -/
theorem wakeAddress_spec {n : Nat} (hn : n ≤ uint32Max) (L : List (Fin n)) (hL : L.Nodup)
    (numToWake : UInt32) :
    (numToWake = 0 → wakeAddress L numToWake = ⟨[], L, .ok 0⟩) ∧
    (numToWake ≠ 0 →
      let k := if numToWake.toNat = uint32Max then L.length else min numToWake.toNat L.length
      let r := wakeAddress L numToWake
      r.signaled = L.take k ∧ r.signaled.Nodup ∧ r.wakeEvents = L.drop k ∧
        r.result = .ok (UInt32.ofNat k)) := by
  refine ⟨fun h => by simp [wakeAddress, h], fun h => ?_⟩
  have hk : actualNumToWake numToWake L.length =
      if numToWake.toNat = uint32Max then L.length else min numToWake.toNat L.length := by
    split
    · simp [actualNumToWake, *]
    · exact actualNumToWake_of_ne _ _ ‹_›
  have hlen : actualNumToWake numToWake L.length ≤ uint32Max :=
    (actualNumToWake_le _ _).trans ((hL.length_le_card.trans_eq (Fintype.card_fin n)).trans hn)
  simp only [wakeAddress_of_ne_zero L h, ← hk, true_and]
  exact ⟨hL.sublist (L.take_sublist _), by simp [wakeResult, Nat.not_lt.mpr hlen]⟩

/-- With the sentinel, three parked threads are all woken, oldest first. -/
theorem wakeAddress_spec_sentinel : (3 : Nat) ≤ uint32Max ∧ ([2, 0, 1] : List (Fin 3)).Nodup ∧
    (wakeAddress ([2, 0, 1] : List (Fin 3)) 4294967295).signaled = [2, 0, 1] ∧
    (wakeAddress ([2, 0, 1] : List (Fin 3)) 4294967295).result = .ok 3 :=
  have h := (wakeAddress_spec (n := 3) (by decide) [2, 0, 1] (by decide) 4294967295).2 (by decide)
  ⟨by decide, by decide, h.1, h.2.2.2⟩

end Wavm.Runtime
