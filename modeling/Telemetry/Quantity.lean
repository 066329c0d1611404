import Telemetry.Fault

namespace Telemetry.Quantity

def largest : Int64 := 0x7FFFFFFFFFFFFFFF

def digitValue (b : Byte) : Int64 := Int64.ofNat (b.toNat - 48)

def append? (number digit : Int64) : Option Int64 :=
  if (largest - digit) / 10 < number then none else some (number * 10 + digit)

def count? (digits : Text) : Option Int64 := digits.foldlM (fun n b => append? n (digitValue b)) 0

def split (value : Text) : Except SettingProblem (Int64 × Text) :=
  if value.isEmpty then .error .empty
  else
    let digits := value.takeWhile Text.isDigit
    match count? digits with
    | none => .error (.tooLarge value)
    | some n =>
      if digits.isEmpty then .error (.notNumber value) else .ok (n, value.drop digits.length)

def scale (value : Text) (n unit : Int64) : Except SettingProblem Int64 :=
  if largest / unit < n then .error (.tooLarge value) else .ok (n * unit)

def sizeUnit? (suffix : Text) : Option Int64 :=
  match suffix with
  | [] => some 1
  | [b] =>
    let c := Text.lowerByte b
    if c = 107 then some 0x400
    else if c = 109 then some 0x100000
    else if c = 103 then some 0x40000000
    else none
  | _ => none

def durationUnit? (suffix : Text) : Option Int64 :=
  let t := Text.lower suffix
  if t = [] ∨ t = ascii "ns" then some 1
  else if t = ascii "us" then some 1000
  else if t = ascii "ms" then some 1000000
  else if t = ascii "s" then some 1000000000
  else none

def read (unit? : Text → Option Int64) (unknown : Text → SettingProblem) (value : Text) :
    Except SettingProblem Nat := do
  let (n, suffix) ← split (Text.trim value)
  match unit? suffix with
  | none => throw (unknown suffix)
  | some unit => return (← scale value n unit).toNatClampNeg

def size (value : Text) : Except SettingProblem Nat := read sizeUnit? .sizeSuffix value

def duration (value : Text) : Except SettingProblem Nat := read durationUnit? .durationSuffix value

end Telemetry.Quantity
