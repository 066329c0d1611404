import Telemetry.Text

namespace Telemetry.Utf8

/-- The ranges in which the bytes behind a lead byte must lie; nothing if the byte leads nothing. -/
def tails? (lead : Byte) : Option (List (Byte × Byte)) :=
  let any : Byte × Byte := (0x80, 0xBF)
  if lead < 0x80 then some []
  else if lead < 0xC2 then none
  else if lead < 0xE0 then some [any]
  else if lead = 0xE0 then some [(0xA0, 0xBF), any]
  else if lead = 0xED then some [(0x80, 0x9F), any]
  else if lead < 0xF0 then some [any, any]
  else if lead = 0xF0 then some [(0x90, 0xBF), any, any]
  else if lead < 0xF4 then some [any, any, any]
  else if lead = 0xF4 then some [(0x80, 0x8F), any, any]
  else none

/-- Whether bytes go on validly when bytes in the given ranges are still owed. -/
def validFrom : List (Byte × Byte) → Text → Bool
  | owed, [] => owed.isEmpty
  | (lo, hi) :: owed, b :: rest => decide (lo ≤ b) && decide (b ≤ hi) && validFrom owed rest
  | [], b :: rest =>
    match tails? b with
    | none => false
    | some owed => validFrom owed rest

def isValid (t : Text) : Bool := validFrom [] t

def tail (n : Nat) : Byte := (0x80 + n % 0x40).toUInt8

def encode (n : Nat) : Text :=
  if n < 0x80 then [n.toUInt8]
  else if n < 0x800 then [(0xC0 + n / 0x40).toUInt8, tail n]
  else if n < 0x10000 then [(0xE0 + n / 0x1000).toUInt8, tail (n / 0x40), tail n]
  else [(0xF0 + n / 0x40000).toUInt8, tail (n / 0x1000), tail (n / 0x40), tail n]

end Telemetry.Utf8
