import Mathlib.Data.Nat.Notation

/-!
# Error codes

The codes of the runtime's functions: `errno` of the host, the `NTSTATUS` of the
`ntdll` layer, and the Win32 codes that `GetLastError` returns.
-/

namespace TradutorLinux.Runtime

def kErrorSuccess : UInt32 := 0
def kErrorAccessDenied : UInt32 := 5
def kErrorInvalidHandle : UInt32 := 6
def kErrorNotEnoughMemory : UInt32 := 8
def kErrorSharingViolation : UInt32 := 32
def kErrorInvalidParameter : UInt32 := 87
def kErrorAlreadyExists : UInt32 := 183
def kErrorInvalidAddress : UInt32 := 487

/-- What the memory calls of the host leave in `errno`. -/
inductive Errno
  | eacces | eperm | enomem | einval | ebadf | eexist | etxtbsy | other
deriving DecidableEq, Repr

/-- `errno_to_win32`. -/
def errnoToWin32 : Errno → UInt32
  | .eacces | .eperm => kErrorAccessDenied
  | .enomem => kErrorNotEnoughMemory
  | .eexist => kErrorAlreadyExists
  | .einval => kErrorInvalidParameter
  | .ebadf => kErrorInvalidHandle
  | .etxtbsy => kErrorSharingViolation
  | .other => kErrorInvalidParameter

/-- `NtStatus`. -/
inductive NtStatus
  | success | invalidParameter | noMemory | memoryNotAllocated | conflictingAddresses
  | accessDenied
deriving DecidableEq, Repr

/-- `NtStatusToDosError`. -/
def ntStatusToDosError : NtStatus → UInt32
  | .success => kErrorSuccess
  | .noMemory => kErrorNotEnoughMemory
  | .memoryNotAllocated | .conflictingAddresses | .invalidParameter => kErrorInvalidParameter
  | .accessDenied => kErrorAccessDenied

end TradutorLinux.Runtime
