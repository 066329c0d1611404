import Telemetry.Text

namespace Telemetry.Log

inductive Argument
  | text (t : Text)
  | number (n : Int)
  deriving DecidableEq, Repr

namespace Format

inductive Side
  | left
  | right
  | middle
  deriving DecidableEq, Repr

structure Spec where
  fill : Byte
  side : Option Side
  plus : Bool
  marked : Bool
  zeros : Bool
  width : Nat
  hexadecimal : Bool
  deriving DecidableEq, Repr

def side? (b : Byte) : Option Side :=
  if b = 60 then some .left else if b = 62 then some .right else if b = 94 then some .middle
  else none

def readSide : Text → Byte × Option Side × Text
  | [] => (32, none, [])
  | [a] => if (side? a).isSome then (32, side? a, []) else (32, none, [a])
  | a :: b :: rest =>
    if (side? b).isSome then (a, side? b, rest)
    else if (side? a).isSome then (32, side? a, b :: rest)
    else (32, none, a :: b :: rest)

def readMark (mark : Byte) : Text → Bool × Text
  | [] => (false, [])
  | b :: rest => if b = mark then (true, rest) else (false, b :: rest)

/-- Reads `[[fill]side][+][#][0][width][type]`. -/
def Spec.read (t : Text) : Option Spec :=
  let (fill, side, t) := readSide t
  let (plus, t) := readMark 43 t
  let (marked, t) := readMark 35 t
  let (zeros, t) := readMark 48 t
  let digits := t.takeWhile Text.isDigit
  let type := t.drop digits.length
  if type = [] ∨ type = [100] ∨ type = [115] then
    some ⟨fill, side, plus, marked, zeros, Text.numeral digits, false⟩
  else if type = [120] then some ⟨fill, side, plus, marked, zeros, Text.numeral digits, true⟩
  else none

def Spec.pad (s : Spec) (otherwise : Side) (t : Text) : Text :=
  let n := s.width - t.length
  match s.side.getD otherwise with
  | .left => t ++ List.replicate n s.fill
  | .right => List.replicate n s.fill ++ t
  | .middle => List.replicate (n / 2) s.fill ++ t ++ List.replicate (n - n / 2) s.fill

def Spec.showNumber (s : Spec) (n : Int) : Text :=
  let sign : Text := if n < 0 then [45] else if s.plus then [43] else []
  let front := sign ++ if s.marked ∧ s.hexadecimal then ascii "0x" else []
  let digits :=
    if s.hexadecimal then Text.fixedHex (Text.hexDigitCount n.natAbs) n.natAbs
    else Text.natural n.natAbs
  if s.zeros ∧ s.side.isNone then
    front ++ List.replicate (s.width - front.length - digits.length) 48 ++ digits
  else s.pad .right (front ++ digits)

def Spec.show (s : Spec) : Argument → Text
  | .text t => s.pad .left t
  | .number n => s.showNumber n

/-- Fills in what stands between two braces; `next` is the first argument that was not yet taken. -/
def place (args : List Argument) (next : Nat) (inside : Text) : Option (Nat × Text) := do
  let number := inside.takeWhile (· != 58)
  let spec := (inside.drop number.length).drop 1
  if ¬ number.all Text.isDigit then none
  let (index, after) :=
    if number.isEmpty then (next, next + 1) else (Text.numeral number, next)
  let a ← args[index]?
  return (after, (← Spec.read spec).show a)

/-- Fills the places of a format from left to right; nothing comes of a place without an argument or
of a brace that is alone. -/
def fill (args : List Argument) (next : Nat) : Nat → Text → Option Text
  | 0, _ => none
  | _ + 1, [] => some []
  | n + 1, b :: rest =>
    if b = 123 then
      if rest.head? = some 123 then (fill args next n rest.tail).map (123 :: ·)
      else
        let inside := rest.takeWhile (· != 125)
        match rest.drop inside.length with
        | [] => none
        | _ :: left => do
          let (next, shown) ← place args next inside
          return shown ++ (← fill args next n left)
    else if b = 125 then
      if rest.head? = some 125 then (fill args next n rest.tail).map (125 :: ·) else none
    else (fill args next n rest).map (b :: ·)

end Format

/-- The text of a format with its arguments, or the report that it could not be filled. -/
def formatted (format : Text) (args : List Argument) : Text :=
  (Format.fill args 0 (format.length + 1) format).getD (ascii "[FORMAT ERROR] argument not found")

end Telemetry.Log
