/-
# Addresses

`std::net::IpAddr`: an IPv4 or an IPv6 address, 32 or 128 bits.  IPv4 addresses
come first in the order, each family in the order of its numbers.
-/

import Mathlib.Data.BitVec
import Mathlib.Tactic.Common

namespace Maja
namespace Net

/-- `IpAddr`. -/
inductive IpAddr where
  | v4 (addr : BitVec 32)
  | v6 (addr : BitVec 128)
  deriving DecidableEq, Repr

/-- An address and a port. -/
abbrev Endpoint : Type := IpAddr × UInt16

namespace IpAddr

/-- The order of `IpAddr`. -/
protected def lt : IpAddr → IpAddr → Bool
  | v4 a, v4 b => a < b
  | v4 _, v6 _ => true
  | v6 _, v4 _ => false
  | v6 a, v6 b => a < b

end IpAddr

/-- `<=` of two endpoints: by the address, then by the port. -/
def Endpoint.le (a b : Endpoint) : Bool := a.1.lt b.1 || (a.1 = b.1 && a.2 ≤ b.2)

end Net
end Maja
