import Telemetry.Fault

namespace Telemetry.Hex

def encode : List Byte → Text
  | [] => []
  | b :: rest => Text.hexDigit (b.toNat / 16) :: Text.hexDigit b.toNat :: encode rest

def digitValue? (b : Byte) : Option Nat :=
  if 48 ≤ b ∧ b ≤ 57 then some (b.toNat - 48)
  else if 97 ≤ b ∧ b ≤ 102 then some (b.toNat - 87)
  else if 65 ≤ b ∧ b ≤ 70 then some (b.toNat - 55)
  else none

/-- Reads pairs of digits; `index` is where the text starts in the whole. -/
def decodeFrom (index : Nat) : Text → Except Fault (List Byte)
  | hi :: lo :: rest =>
    match digitValue? hi with
    | none => .error (.badHexDigit index hi)
    | some h =>
      match digitValue? lo with
      | none => .error (.badHexDigit (index + 1) lo)
      | some l => (decodeFrom (index + 2) rest).map ((16 * h + l).toUInt8 :: ·)
  | _ => .ok []

def decode (t : Text) : Except Fault (List Byte) :=
  if t.length % 2 = 0 then decodeFrom 0 t else .error (.oddHexLength t.length)

end Telemetry.Hex
