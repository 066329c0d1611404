import Telemetry.Document
import Telemetry.Hex
import Telemetry.Utf8

namespace Telemetry.Document

def isSpace (b : Byte) : Bool := b == 32 || b == 10 || b == 13 || b == 9

def skipSpace (t : Text) : Text := t.dropWhile isSpace

def skipWord? (word t : Text) : Option Text :=
  if word.isPrefixOf t then some (t.drop word.length) else none

def readDigits (t : Text) : Option (Text × Text) :=
  let (digits, rest) := t.span Text.isDigit
  if digits.isEmpty then none else some (digits, rest)

def readWhole (t : Text) : Option (Text × Text) :=
  match t with
  | [] => none
  | b :: rest => if b = 48 then some ([48], rest) else readDigits t

def readFraction (t : Text) : Option (Option Text × Text) :=
  match t with
  | [] => some (none, [])
  | b :: rest =>
    if b = 46 then (readDigits rest).map fun (digits, left) => (some digits, left)
    else some (none, t)

def readExponent (t : Text) : Option (Option Int × Text) :=
  match t with
  | [] => some (none, [])
  | b :: rest =>
    if b = 101 ∨ b = 69 then
      let (negative, unsigned) :=
        match rest with
        | [] => (false, [])
        | s :: more =>
          if s = 45 then (true, more) else if s = 43 then (false, more) else (false, rest)
      (readDigits unsigned).map fun (digits, left) =>
        (some (if negative then -(Text.numeral digits : Int) else Text.numeral digits), left)
    else some (none, t)

def fitsWord (n : Int) : Bool :=
  decide (-0x8000000000000000 ≤ n) && decide (n < 0x10000000000000000)

/-- The sum of the largest double and half of its last place: numbers from here on are rounded to
infinity. -/
def beyondDoubles : Nat := Nat.shiftLeft 1 1024 - Nat.shiftLeft 1 970

def isBeyond (digits : Text) (power : Int) : Bool :=
  let significant := digits.dropWhile (· == 48)
  let order := significant.length + power
  -- only around the bound is the power computed
  if significant.isEmpty ∨ order < 300 then false
  else if 400 < order then true
  else
    decide (beyondDoubles * Nat.pow 10 (-power).toNat
      ≤ Text.numeral significant * Nat.pow 10 power.toNat)

def need (r : Option α) : Except Flaw α := r.elim (.error .malformed) .ok

def readNumber (t : Text) : Except Flaw (Document × Text) := do
  let (negative, unsigned) :=
    match t with
    | [] => (false, [])
    | b :: rest => if b = 45 then (true, rest) else (false, t)
  let (whole, afterWhole) ← need (readWhole unsigned)
  let (fraction, afterFraction) ← need (readFraction afterWhole)
  let (exponent, left) ← need (readExponent afterFraction)
  let digits := whole ++ fraction.getD []
  let power := exponent.getD 0 - (fraction.getD []).length
  let mantissa : Int := if negative then -(Text.numeral digits : Int) else Text.numeral digits
  if fraction.isNone ∧ exponent.isNone ∧ fitsWord mantissa then return (.int mantissa, left)
  if isBeyond digits power then throw (.beyond (t.take (t.length - left.length)))
  return (.decimal mantissa power, left)

def readHex4 : Text → Option (Nat × Text)
  | a :: b :: c :: d :: rest => do
    let a ← Hex.digitValue? a
    let b ← Hex.digitValue? b
    let c ← Hex.digitValue? c
    let d ← Hex.digitValue? d
    return (((a * 16 + b) * 16 + c) * 16 + d, rest)
  | _ => none

/-- The character of a hexadecimal escape; above the basic plane it takes two of them. -/
def readUnicode (t : Text) : Option (Text × Text) := do
  let (high, rest) ← readHex4 t
  if high < 0xD800 ∨ 0xDFFF < high then return (Utf8.encode high, rest)
  if 0xDBFF < high then none
  let behind ← skipWord? [92, 117] rest
  let (low, left) ← readHex4 behind
  if low < 0xDC00 ∨ 0xDFFF < low then none
  return (Utf8.encode (0x10000 + (high - 0xD800) * 0x400 + (low - 0xDC00)), left)

def escaped? (letter : Byte) : Option Byte :=
  [(34, 34), (92, 92), (47, 47), (98, 8), (102, 12), (110, 10), (114, 13), (116, 9)].lookup letter

def readCharacter : Text → Option (Text × Text)
  | [] => none
  | b :: rest =>
    if b = 92 then
      match rest with
      | [] => none
      | e :: left =>
        if e = 117 then readUnicode left else (escaped? e).map fun c => ([c], left)
    else if b < 32 then none
    else some ([b], rest)

-- in the readers below `n` bounds the number of steps and is at least the number of bytes

def readQuoted : Nat → Text → Option (Text × Text)
  | 0, _ => none
  | n + 1, t =>
    if t.head? = some 34 then some ([], t.tail)
    else do
      let (c, rest) ← readCharacter t
      let (s, left) ← readQuoted n rest
      return (c ++ s, left)

def readText (n : Nat) (t : Text) : Option (Text × Text) := do
  let (s, rest) ← readQuoted n t
  if Utf8.isValid s then return (s, rest) else none

mutual

def readValue : Nat → Text → Except Flaw (Document × Text)
  | 0, _ => .error .malformed
  | n + 1, t =>
    match skipSpace t with
    | [] => .error .malformed
    | b :: rest =>
      if b = 123 then
        match skipSpace rest with
        | [] => .error .malformed
        | c :: left => if c = 125 then .ok (.object [], left) else readFields n [] (c :: left)
      else if b = 91 then
        match skipSpace rest with
        | [] => .error .malformed
        | c :: left =>
          if c = 93 then .ok (.array [], left)
          else (readItems n (c :: left)).map fun (items, left) => (.array items, left)
      else if b = 34 then (need (readText n rest)).map fun (s, left) => (.text s, left)
      else if b = 45 ∨ Text.isDigit b then readNumber (b :: rest)
      else if b = 110 then (need (skipWord? (ascii "ull") rest)).map fun left => (.null, left)
      else if b = 116 then (need (skipWord? (ascii "rue") rest)).map fun left => (.bool true, left)
      else if b = 102 then
        (need (skipWord? (ascii "alse") rest)).map fun left => (.bool false, left)
      else .error .malformed

def readItems : Nat → Text → Except Flaw (List Document × Text)
  | 0, _ => .error .malformed
  | n + 1, t => do
    let (v, rest) ← readValue n t
    match skipSpace rest with
    | [] => .error .malformed
    | c :: left =>
      if c = 44 then
        let (vs, left) ← readItems n left
        return (v :: vs, left)
      else if c = 93 then return ([v], left)
      else .error .malformed

/-- Fields up to the closing brace; the last of equal keys counts. -/
def readFields : Nat → List (Text × Document) → Text → Except Flaw (Document × Text)
  | 0, _, _ => .error .malformed
  | n + 1, before, t =>
    match skipSpace t with
    | [] => .error .malformed
    | q :: afterQuote =>
      if q = 34 then do
        let (key, afterKey) ← need (readText n afterQuote)
        match skipSpace afterKey with
        | [] => .error .malformed
        | colon :: afterColon =>
          if colon = 58 then do
            let (v, rest) ← readValue n afterColon
            let fields := setField before key v
            match skipSpace rest with
            | [] => .error .malformed
            | c :: left =>
              if c = 44 then readFields n fields left
              else if c = 125 then return (.object fields, left)
              else .error .malformed
          else .error .malformed
      else .error .malformed

end

def skipMark (t : Text) : Text := (skipWord? [0xEF, 0xBB, 0xBF] t).getD t

/-- The first value of a text; what follows it does not matter. -/
def parse : Parser := fun t => (readValue (t.length + 1) (skipMark t)).map (·.1)

end Telemetry.Document
