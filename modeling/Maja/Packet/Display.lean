/-
# Display output

What a `Protocol::display` writes: the literal text of its format string and the
values between.  How a value is spelled (the name of an enumeration constant,
padding, dotted addresses) is left out; every value that is shown is read from
the layer's bytes, and reading is where a display can fail.
-/

import Maja.Lib.Outcome

namespace Maja
namespace Packet

open Lib

/-- A piece of a formatted line. -/
inductive Piece where
  | text (s : String)
  | num (n : ℕ)
  | bytes (bs : List UInt8)
  deriving DecidableEq, Repr

/-- The outcome of formatting: the line, or a panic. -/
abbrev Shown := Outcome Empty (List Piece)

end Packet
end Maja
