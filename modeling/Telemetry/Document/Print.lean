import Telemetry.Document

namespace Telemetry.Document

-- every printer puts its text in front of another

def printByte (b : Byte) (rest : Text) : Text :=
  if b = 34 ∨ b = 92 then 92 :: b :: rest
  else if b < 32 then ascii "\\u00" ++ Text.fixedHex 2 b.toNat ++ rest
  else b :: rest

def printText (t rest : Text) : Text := 34 :: t.foldr printByte (34 :: rest)

mutual

def printTo : Document → Text → Text
  | null, rest => ascii "null" ++ rest
  | bool true, rest => ascii "true" ++ rest
  | bool false, rest => ascii "false" ++ rest
  | int n, rest => Text.decimal n ++ rest
  | decimal m e, rest => Text.decimal m ++ ascii "e" ++ Text.decimal e ++ rest
  | text t, rest => printText t rest
  | array items, rest => 91 :: printItems true items (93 :: rest)
  | object fields, rest => 123 :: printFields true fields (125 :: rest)

def printItems (first : Bool) : List Document → Text → Text
  | [], rest => rest
  | v :: vs, rest =>
    let more := printTo v (printItems false vs rest)
    if first then more else 44 :: more

def printFields (first : Bool) : List (Text × Document) → Text → Text
  | [], rest => rest
  | (k, v) :: fs, rest =>
    let more := printText k (58 :: printTo v (printFields false fs rest))
    if first then more else 44 :: more

end

def print (d : Document) : Text := d.printTo []

end Telemetry.Document
