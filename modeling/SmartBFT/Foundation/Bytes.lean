import Mathlib.Data.Nat.Bitwise
import Mathlib.Tactic.Ring

/-!
# Numbers as bytes

Two encodings of natural numbers: the fixed-width little-endian words of a
binary header, and the base-128 varints of a tagged wire format.
-/

namespace SmartBFT.Foundation

/-! ## Little-endian words -/

def littleEndian : Nat → Nat → List UInt8
  | 0, _ => []
  | width + 1, n => UInt8.ofNat (n % 256) :: littleEndian width (n / 256)

def ofLittleEndian : List UInt8 → Nat
  | [] => 0
  | byte :: rest => byte.toNat + 256 * ofLittleEndian rest

@[simp] theorem length_littleEndian (width n : Nat) :
    (littleEndian width n).length = width := by
  induction width generalizing n with
  | zero => rfl
  | succ width ih => simp [littleEndian, ih]

theorem ofLittleEndian_littleEndian (width n : Nat) :
    ofLittleEndian (littleEndian width n) = n % 256 ^ width := by
  induction width generalizing n with
  | zero => simp [littleEndian, ofLittleEndian, Nat.mod_one]
  | succ width ih =>
    have hbyte : n % 256 % 2 ^ 8 = n % 256 := by omega
    rw [littleEndian, ofLittleEndian, ih, UInt8.toNat_ofNat', hbyte, pow_succ',
      Nat.mod_mul]

/-! ## Varints -/

/-- Seven bits a byte, least significant first; the top bit says that another
byte follows. -/
def varint (n : Nat) : List UInt8 :=
  if n < 128 then [UInt8.ofNat n]
  else UInt8.ofNat (n % 128 + 128) :: varint (n / 128)

/-- A varint of at most `more + 1` bytes, of which the last may hold one bit only: the value of
ten bytes is one of a 64-bit word. -/
def readVarint : Nat → List UInt8 → Option (Nat × List UInt8)
  | _, [] => none
  | 0, byte :: rest => if byte.toNat < 2 then some (byte.toNat, rest) else none
  | more + 1, byte :: rest =>
    if byte.toNat < 128 then some (byte.toNat, rest)
    else
      match readVarint more rest with
      | none => none
      | some (high, rest') => some (byte.toNat - 128 + 128 * high, rest')

theorem readVarint_varint (more n : Nat) (rest : List UInt8) (h : n < 2 * 128 ^ more) :
    readVarint more (varint n ++ rest) = some (n, rest) := by
  have hsmall : ∀ m < 256, (UInt8.ofNat m).toNat = m := by
    intro m hm
    rw [UInt8.toNat_ofNat']
    omega
  induction more generalizing n with
  | zero =>
    rw [varint, if_pos (by omega)]
    simp only [List.cons_append, List.nil_append, readVarint, hsmall n (by omega)]
    rw [if_pos (by omega)]
  | succ more ih =>
    rw [varint]
    split
    · next hlow =>
        simp only [List.cons_append, List.nil_append, readVarint, hsmall n (by omega)]
        rw [if_pos hlow]
    · have htop : ¬ n % 128 + 128 < 128 := by omega
      have hhigh : n / 128 < 2 * 128 ^ more := by
        rw [pow_succ] at h
        omega
      simp only [List.cons_append, readVarint, hsmall _ (by omega : n % 128 + 128 < 256), htop,
        if_false, ih _ hhigh, Option.some.injEq, Prod.mk.injEq, and_true]
      omega

/-! ## Fields of a tagged format -/

def consumeVarint (bytes : List UInt8) : Option (Nat × List UInt8) := readVarint 9 bytes

theorem consumeVarint_varint {n : Nat} (h : n < 2 ^ 64) (rest : List UInt8) :
    consumeVarint (varint n ++ rest) = some (n, rest) :=
  readVarint_varint 9 n rest (by omega)

theorem consumeVarint_byte {byte : UInt8} (h : byte.toNat < 128) (rest : List UInt8) :
    consumeVarint (byte :: rest) = some (byte.toNat, rest) := by
  simp only [consumeVarint, readVarint, h, if_true]

def consumeBytes (bytes : List UInt8) : Option (List UInt8 × List UInt8) :=
  match consumeVarint bytes with
  | none => none
  | some (length, rest) =>
    if length ≤ rest.length then some (rest.take length, rest.drop length) else none

inductive WireType where
  | varint
  | fixed64
  | bytes
  | startGroup
  | endGroup
  | fixed32
  | reserved
  deriving DecidableEq, Repr

def WireType.ofNumber : Nat → WireType
  | 0 => .varint
  | 1 => .fixed64
  | 2 => .bytes
  | 3 => .startGroup
  | 4 => .endGroup
  | 5 => .fixed32
  | _ => .reserved

def consumeTag (bytes : List UInt8) : Option (Nat × WireType × List UInt8) :=
  match consumeVarint bytes with
  | none => none
  | some (tag, rest) =>
    if 1 ≤ tag / 8 ∧ tag / 8 < 2 ^ 31 then some (tag / 8, .ofNumber (tag % 8), rest) else none

def dropFixed (width : Nat) (bytes : List UInt8) : Option (List UInt8) :=
  if width ≤ bytes.length then some (bytes.drop width) else none

def skipValue (type : WireType) (bytes : List UInt8) : Option (List UInt8) :=
  match type with
  | .varint => (consumeVarint bytes).map Prod.snd
  | .fixed64 => dropFixed 8 bytes
  | .bytes => (consumeBytes bytes).map Prod.snd
  | .fixed32 => dropFixed 4 bytes
  | .startGroup | .endGroup | .reserved => none

def recursionLimit : Nat := 10000

/-- What follows the groups that are open, innermost first.  Each round takes a tag, so the
number of bytes is fuel enough. -/
def skipGroups : Nat → List Nat → List UInt8 → Option (List UInt8)
  | 0, _, _ => none
  | _ + 1, [], _ => none
  | fuel + 1, group :: groups, bytes =>
    match consumeTag bytes with
    | none => none
    | some (number, type, rest) =>
      if type = .endGroup then
        if number ≠ group then none
        else if groups = [] then some rest
        else skipGroups fuel groups rest
      else if type = .startGroup then
        if groups.length < recursionLimit then
          skipGroups fuel (number :: group :: groups) rest
        else none
      else
        match skipValue type rest with
        | none => none
        | some rest => skipGroups fuel (group :: groups) rest

def consumeFieldValue (number : Nat) (type : WireType) (bytes : List UInt8) :
    Option (List UInt8) :=
  if type = .startGroup then skipGroups bytes.length [number] bytes else skipValue type bytes

end SmartBFT.Foundation
