import Mathlib.Data.List.Basic

/-!
# Network addresses

`CService` of `src/netbase.h`: 16 bytes in network order and a port.
-/

namespace Esbcoin

/-- `CService` (`netbase.h:138-176`) with the `CNetAddr` it is derived from. -/
structure CService where
  ip : Vector UInt8 16
  port : UInt16
deriving DecidableEq, Repr

end Esbcoin
