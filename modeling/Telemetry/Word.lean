import Telemetry.Text

namespace Telemetry.Word

def sizeOfByte : Nat := 1

def sizeOfBoolean : Nat := 1

def sizeOfChar : Nat := 2

def sizeOfShort : Nat := 2

def sizeOfInt : Nat := 4

def sizeOfFloat : Nat := 4

def sizeOfLong : Nat := 8

def sizeOfDouble : Nat := 8

def cacheLine : Nat := 64

/-- The `n` low bytes of a natural number, the least significant first. -/
def natBytes : Nat → Nat → List Byte
  | 0, _ => []
  | n + 1, x => x.toUInt8 :: natBytes n (x / 256)

def natValue : List Byte → Nat
  | [] => 0
  | b :: rest => b.toNat + 256 * natValue rest

def modulus : Nat → Nat
  | 0 => 1
  | n + 1 => 256 * modulus n

def encode (n : Nat) (x : Int) : List Byte := natBytes n (x % (modulus n : Int)).toNat

def unsigned (bs : List Byte) : Int := natValue bs

/-- The value of bytes read in two's complement. -/
def signed (bs : List Byte) : Int := (natValue bs : Int).bmod (modulus bs.length)

def wrap (n : Nat) (x : Int) : Int := x.bmod (modulus n)

/-- An integer cut to an unsigned word of eight bytes: the arithmetic of offsets. -/
def offset (x : Int) : Nat := (x % 0x10000000000000000).toNat

theorem modulus_pos (n : Nat) : 0 < modulus n := by
  induction n with
  | zero => decide
  | succ n ih =>
    rw [modulus]
    omega

theorem length_natBytes (n x : Nat) : (natBytes n x).length = n := by
  induction n generalizing x with
  | zero => rfl
  | succ n ih => simp [natBytes, ih]

@[simp] theorem length_encode (n : Nat) (x : Int) : (encode n x).length = n :=
  length_natBytes n _

theorem natValue_natBytes (n x : Nat) : natValue (natBytes n x) = x % modulus n := by
  induction n generalizing x with
  | zero => rw [natBytes, natValue, modulus, Nat.mod_one]
  | succ n ih =>
    have h : x.toUInt8.toNat = x % 256 := UInt8.toNat_ofNat'
    rw [natBytes, natValue, ih, h, modulus, Nat.mod_mul]

theorem natValue_lt (bs : List Byte) : natValue bs < modulus bs.length := by
  induction bs with
  | nil => decide
  | cons b rest ih =>
    have hb := b.toNat_lt
    rw [natValue, List.length_cons, modulus]
    omega

theorem natBytes_natValue (bs : List Byte) : natBytes bs.length (natValue bs) = bs := by
  induction bs with
  | nil => rfl
  | cons b rest ih =>
    have hb := b.toNat_lt
    have hlow : (b.toNat + 256 * natValue rest).toUInt8 = b := by
      apply UInt8.toNat_inj.1
      rw [Nat.toUInt8, UInt8.toNat_ofNat']
      omega
    have hhigh : (b.toNat + 256 * natValue rest) / 256 = natValue rest := by omega
    rw [List.length_cons, natValue, natBytes, hlow, hhigh, ih]

theorem natValue_encode (n : Nat) (x : Int) :
    (natValue (encode n x) : Int) = x % (modulus n : Int) := by
  have h := modulus_pos n
  have hpos : 0 ≤ x % (modulus n : Int) := Int.emod_nonneg _ (by omega)
  have hlt : x % (modulus n : Int) < modulus n := Int.emod_lt_of_pos _ (by omega)
  rw [encode, natValue_natBytes, Nat.mod_eq_of_lt (by omega), Int.toNat_of_nonneg hpos]

theorem unsigned_encode (n : Nat) (x : Int) : unsigned (encode n x) = x % (modulus n : Int) :=
  natValue_encode n x

theorem signed_encode (n : Nat) (x : Int) : signed (encode n x) = wrap n x := by
  rw [signed, natValue_encode, length_encode, wrap, Int.emod_bmod]

theorem encode_unsigned (bs : List Byte) : encode bs.length (unsigned bs) = bs := by
  have hlt := natValue_lt bs
  have hmod : unsigned bs % (modulus bs.length : Int) = natValue bs :=
    Int.emod_eq_of_lt (Int.natCast_nonneg _) (Int.ofNat_lt.2 hlt)
  rw [encode, hmod, Int.toNat_natCast, natBytes_natValue]

theorem encode_signed (bs : List Byte) : encode bs.length (signed bs) = bs := by
  have hmod : signed bs % (modulus bs.length : Int) = unsigned bs % (modulus bs.length : Int) :=
    Int.bmod_emod
  have hunsigned := encode_unsigned bs
  rwa [encode, ← hmod] at hunsigned

end Telemetry.Word
