import Wavm.LLVMJIT.IR
import Wavm.Runtime.WakeAddress
import Wavm.Runtime.WaitList
import Wavm.Runtime.WaitListInvariant
import Wavm.Runtime.WaitListSteps
import Wavm.Runtime.WaitListSafety
import Wavm.Runtime.WaitQueues
import Wavm.Runtime.WaitListMap
import Wavm.Runtime.WaitListRefinement
import Wavm.Runtime.WaitListQuiescence
import Wavm.Runtime.Timeout
import Wavm.Runtime.TimeoutRounding
import Wavm.Runtime.ThreadRecords
import Wavm.Runtime.AtomicIntrinsics
import Wavm.LLVMJIT.ExternalName
import Wavm.LLVMJIT.EmitModule
