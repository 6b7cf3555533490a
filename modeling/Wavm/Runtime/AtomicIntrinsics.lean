import Wavm.Runtime.WaitList
import Wavm.Runtime.Timeout

/-! # The atomic intrinsics: from a Wasm offset to a call

`atomic_wake`, `atomic_wait_i32` and `atomic_wait_i64` (`Threads.cpp`, lines
215–248) resolve their memory, check the offset against the memory's
`endOffset`, then its alignment, and call `wakeAddress` or `waitOnAddress` on the
host address of the offset. `waitOnAddress` starts by decoding its timeout
(`getEndTimeFromTimeout`). What follows is a call of the interleaving model: the
result of an intrinsic here is the action it starts.

* The three checks are one definition, `validateAtomicAddress`, applied to each
  intrinsic's alignment mask (3, 3, 7).
* An intrinsic starts its call exactly when the offset is at most `endOffset` and
  a multiple of the access width, and, for a wait, the timeout decodes
  (`atomicIntrinsics_accept`). The bounds check reads the offset of the first
  byte only, so at `offset = endOffset` an access of 4 or 8 bytes past the end is
  accepted.
-/

namespace Wavm.Runtime.WaitWake

variable {n : Nat}

/-- The memory an intrinsic resolves from its `memoryId`
(`getMemoryFromRuntimeData`, outside `src/`): the host address of its byte 0 and
its `endOffset`. -/
structure MemoryInstance where
  baseAddress : Nat
  endOffset : Nat
  deriving DecidableEq, Repr

/-- The checks of lines 220–221, 232–233 and 243–244: the offset against
`endOffset`, then its low bits against `alignmentMask`; on success, the host
address of `memoryRef(memoryInstance, addressOffset)`. `memoryRef` is declared
outside `src/`; it is taken as `baseAddress + addressOffset`, with no check of its
own. -/
def validateAtomicAddress (memoryInstance : MemoryInstance) (alignmentMask : Nat)
    (addressOffset : UInt32) : Except Exception Nat :=
  if addressOffset.toNat > memoryInstance.endOffset then .error .accessViolation
  else if addressOffset.toNat &&& alignmentMask ≠ 0 then .error .misalignedAtomicMemoryAccess
  else .ok (memoryInstance.baseAddress + addressOffset.toNat)

/-- What an intrinsic fails with before its call starts. -/
inductive IntrinsicFailure where
  | exception (e : Exception)
  | timeout (f : TimeoutFailure)
  deriving DecidableEq, Repr

/-- `atomic_wake` (lines 215–225) by thread `t`: the call `wakeAddress(address,
numToWake)`. -/
def atomicWake (t : Fin n) (memoryInstance : MemoryInstance) (addressOffset numToWake : UInt32) :
    Except IntrinsicFailure (Action n) := do
  let address ← (validateAtomicAddress memoryInstance 3 addressOffset).mapError .exception
  .ok (.atomicWake t address numToWake)

/-- `atomic_wait_i32` and `atomic_wait_i64` (lines 227–248) by thread `t`, with the
monotonic clock at `startTime`: the call `waitOnAddress(valuePointer,
expectedValue, timeout)`, whose first step decodes the timeout. As in
`getEndTimeFromTimeout`, the timeout is taken as `timeout * 1000.0`. -/
def atomicWait (alignmentMask : Nat) (t : Fin n) (memoryInstance : MemoryInstance)
    (addressOffset : UInt32) (expectedValue : Int) (startTime : Nat)
    (timeoutMicroseconds : F64) : Except IntrinsicFailure (Action n) := do
  let address ←
    (validateAtomicAddress memoryInstance alignmentMask addressOffset).mapError .exception
  let endTime ← (getEndTimeFromTimeout startTime timeoutMicroseconds).mapError .timeout
  .ok (.atomicWait t address expectedValue endTime)

/-- `atomic_wait_i32`: a 4-byte access. -/
def atomicWaitI32 (t : Fin n) (memoryInstance : MemoryInstance) (addressOffset : UInt32)
    (expectedValue : Int) (startTime : Nat) (timeoutMicroseconds : F64) :
    Except IntrinsicFailure (Action n) :=
  atomicWait 3 t memoryInstance addressOffset expectedValue startTime timeoutMicroseconds

/-- `atomic_wait_i64`: an 8-byte access. -/
def atomicWaitI64 (t : Fin n) (memoryInstance : MemoryInstance) (addressOffset : UInt32)
    (expectedValue : Int) (startTime : Nat) (timeoutMicroseconds : F64) :
    Except IntrinsicFailure (Action n) :=
  atomicWait 7 t memoryInstance addressOffset expectedValue startTime timeoutMicroseconds

/-! ## Which offsets are accepted -/

/-- With the mask of a `2^k`-byte access, the checks accept exactly the offsets at
most `endOffset` that are multiples of `2^k`; the bounds check comes first. -/
theorem validateAtomicAddress_spec (memoryInstance : MemoryInstance) (k : Nat)
    (addressOffset : UInt32) :
    validateAtomicAddress memoryInstance (2 ^ k - 1) addressOffset =
      if memoryInstance.endOffset < addressOffset.toNat then .error .accessViolation
      else if addressOffset.toNat % 2 ^ k = 0 then
        .ok (memoryInstance.baseAddress + addressOffset.toNat)
      else .error .misalignedAtomicMemoryAccess := by
  unfold validateAtomicAddress
  rw [Nat.and_pow_two_sub_one_eq_mod]
  split_ifs <;> first | rfl | omega

theorem mapError_bind_eq_ok {ε ε' α β : Type} {f : ε → ε'} {x : Except ε α}
    {g : α → Except ε' β} {b : β} :
    (x.mapError f >>= g) = .ok b ↔ ∃ a, x = .ok a ∧ g a = .ok b := by
  cases x <;> simp [Except.mapError, bind, Except.bind]

/-- `atomic_wake` starts `wakeAddress` on the host address of the offset exactly
when the offset is at most `endOffset` and 4-byte aligned. `atomic_wait_i32` and
`atomic_wait_i64` start `waitOnAddress` exactly when the offset is at most
`endOffset`, aligned to 4 or 8 bytes, and the timeout decodes; the call waits on
the host address of the offset until the decoded end time. -/
theorem atomicIntrinsics_accept (t : Fin n) (memoryInstance : MemoryInstance)
    (addressOffset : UInt32) (action : Action n) :
    (∀ numToWake, atomicWake t memoryInstance addressOffset numToWake = .ok action ↔
      addressOffset.toNat ≤ memoryInstance.endOffset ∧ addressOffset.toNat % 4 = 0 ∧
      action = .atomicWake t (memoryInstance.baseAddress + addressOffset.toNat) numToWake) ∧
    ∀ k expectedValue startTime timeoutMicroseconds,
      atomicWait (2 ^ k - 1) t memoryInstance addressOffset expectedValue startTime
          timeoutMicroseconds = .ok action ↔
        addressOffset.toNat ≤ memoryInstance.endOffset ∧ addressOffset.toNat % 2 ^ k = 0 ∧
        ∃ endTime, getEndTimeFromTimeout startTime timeoutMicroseconds = .ok endTime ∧
          action = .atomicWait t (memoryInstance.baseAddress + addressOffset.toNat)
            expectedValue endTime := by
  constructor
  · intro numToWake
    rw [atomicWake, mapError_bind_eq_ok, show (3 : Nat) = 2 ^ 2 - 1 from rfl,
      validateAtomicAddress_spec]
    by_cases hb : memoryInstance.endOffset < addressOffset.toNat
    · simp [hb, Nat.not_le.mpr hb]
    · by_cases ha : addressOffset.toNat % 4 = 0
      · simp [hb, ha, Nat.le_of_not_lt hb, @eq_comm _ action]
      · simp [hb, ha]
  · intro k expectedValue startTime timeoutMicroseconds
    rw [atomicWait, mapError_bind_eq_ok, validateAtomicAddress_spec]
    by_cases hb : memoryInstance.endOffset < addressOffset.toNat
    · simp [hb, Nat.not_le.mpr hb]
    · by_cases ha : addressOffset.toNat % 2 ^ k = 0
      · simp [hb, ha, Nat.le_of_not_lt hb, mapError_bind_eq_ok, @eq_comm _ action]
      · simp [hb, ha]

/-- An 8-byte wait at `offset = endOffset` is accepted: its bytes lie past the end. -/
example : atomicWaitI64 (0 : Fin 1) ⟨0, 16⟩ 16 0 0 (.inf false) =
    .ok (.atomicWait 0 16 0 uint64Max) := rfl

end Wavm.Runtime.WaitWake
