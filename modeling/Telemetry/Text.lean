namespace Telemetry

abbrev Byte := UInt8

abbrev Text := List Byte

def ascii (s : String) : Text := s.toList.map fun c => c.toNat.toUInt8

namespace Text

def digit (n : Nat) : Byte := (48 + n % 10).toUInt8

def fixedDigits : Nat → Nat → Text
  | 0, _ => []
  | k + 1, n => fixedDigits k (n / 10) ++ [digit n]

def digitCount (n : Nat) : Nat :=
  if n < 10 then 1 else digitCount (n / 10) + 1

def natural (n : Nat) : Text := fixedDigits (digitCount n) n

/-- The shortest decimal form of an integer; only negative ones carry a sign. -/
def decimal : Int → Text
  | .ofNat n => natural n
  | .negSucc n => 45 :: natural (n + 1)

def padLeft (width : Nat) (t : Text) : Text := List.replicate (width - t.length) 32 ++ t

def padRight (width : Nat) (t : Text) : Text := t ++ List.replicate (width - t.length) 32

def hexDigit (n : Nat) : Byte :=
  if n % 16 < 10 then (48 + n % 16).toUInt8 else (87 + n % 16).toUInt8

def fixedHex : Nat → Nat → Text
  | 0, _ => []
  | k + 1, n => fixedHex k (n / 16) ++ [hexDigit n]

def hexDigitCount (n : Nat) : Nat :=
  if n < 16 then 1 else hexDigitCount (n / 16) + 1

/-- Zero-padded hexadecimal of at least `width` bytes, where a minus sign takes one of them. -/
def signedHex (width : Nat) (x : Int) : Text :=
  let n := x.natAbs
  let w := if x < 0 then width - 1 else width
  (if x < 0 then [45] else []) ++ fixedHex (max w (hexDigitCount n)) n

def isBlank (b : Byte) : Bool := b == 32 || (9 ≤ b && b ≤ 13)

def trim (t : Text) : Text := ((t.dropWhile isBlank).reverse.dropWhile isBlank).reverse

def isDigit (b : Byte) : Bool := 48 ≤ b && b ≤ 57

def numeral (digits : Text) : Nat := digits.foldl (fun n b => 10 * n + (b.toNat - 48)) 0

def lowerByte (b : Byte) : Byte := if 65 ≤ b && b ≤ 90 then b + 32 else b

def lower (t : Text) : Text := t.map lowerByte

/-- What stands behind the last of the given separators, or the whole text. -/
def afterLast (isSeparator : Byte → Bool) (t : Text) : Text :=
  (t.reverse.takeWhile fun b => !isSeparator b).reverse

def fileName (path : Text) : Text := afterLast (fun b => b == 47 || b == 92) path

/-- What stands before the first zero byte: the part of a text that a zero-terminated reader
sees. -/
def beforeNul (t : Text) : Text := t.takeWhile (· != 0)

def quoted (t : Text) : Text := 39 :: t ++ [39]

/-- What stands between the separators of a text, one piece more than there are separators. -/
def pieces (separator : Byte) : Text → List Text
  | [] => [[]]
  | b :: rest =>
    if b = separator then [] :: pieces separator rest
    else
      match pieces separator rest with
      | [] => [[b]]
      | piece :: others => (b :: piece) :: others

/-- The lines of a text; a last line without a newline counts if it is not empty. -/
def lines : Text → List Text
  | [] => []
  | b :: rest =>
    if b = 10 then [] :: lines rest
    else
      match lines rest with
      | [] => [[b]]
      | line :: others => (b :: line) :: others

end Text

end Telemetry
