import SmartBFT.Foundation.Bytes
import SmartBFT.Types

/-!
# Records of the write-ahead log

A record is marshaled, padded to eight bytes and written behind a header of
eight bytes that holds the length of the marshaled record and a CRC.  The CRC
of a record continues the CRC of the record before it; the first record of
every file is an anchor that repeats the CRC reached so far.
-/

namespace SmartBFT.Wal

open SmartBFT.Foundation

inductive RecordType where
  | entry
  | control
  | crcAnchor
  -- a number the enumeration does not name
  | other (number : Int32)
  deriving DecidableEq, Repr

structure LogRecord where
  type : RecordType
  truncateTo : Bool
  data : Bytes
  deriving DecidableEq, Repr

def anchorRecord : LogRecord := ⟨.crcAnchor, false, []⟩

def controlRecord : LogRecord := ⟨.control, true, []⟩

/-- Records of the types that the log writes, short enough for the length field of a header. -/
structure LogRecord.Written (marshal : LogRecord → Bytes) (record : LogRecord) : Prop where
  type : record.type = .entry ∨ record.type = .control ∨ record.type = .crcAnchor
  fits : (marshal record).length < 2 ^ 32

structure Codec where
  marshal : LogRecord → Bytes
  unmarshal : Bytes → Option LogRecord
  unmarshal_marshal : ∀ record, record.Written marshal → unmarshal (marshal record) = some record
  anchor_fits : (marshal anchorRecord).length < 2 ^ 32
  control_fits : (marshal controlRecord).length < 2 ^ 32

/-! ## The protobuf encoding -/

/-- The enumeration is an `int32`, which is marshaled as a 64-bit word. -/
def RecordType.number : RecordType → Nat
  | .entry => 0
  | .control => 1
  | .crcAnchor => 2
  | .other number => number.toInt64.toUInt64.toNat

def RecordType.ofNumber (number : Int32) : RecordType :=
  if number = 0 then .entry
  else if number = 1 then .control
  else if number = 2 then .crcAnchor
  else .other number

def marshalNumber (tag : UInt8) (n : Nat) : Bytes :=
  if n = 0 then [] else tag :: varint n

def marshalData (data : Bytes) : Bytes :=
  if data = [] then [] else 0x1a :: (varint data.length ++ data)

def marshalProto (record : LogRecord) : Bytes :=
  marshalNumber 0x08 record.type.number ++
    (marshalNumber 0x10 record.truncateTo.toNat ++ marshalData record.data)

def maxValidNumber : Nat := 2 ^ 29 - 1

/-- One field.  A field of another type than the message gives it is skipped like an unknown
one. -/
def unmarshalField (record : LogRecord) (number : Nat) (type : WireType) (bytes : Bytes) :
    Option (LogRecord × Bytes) :=
  if number = 1 ∧ type = .varint then
    match consumeVarint bytes with
    | none => none
    | some (value, rest) =>
      some ({ record with type := RecordType.ofNumber (Int32.ofNat value) }, rest)
  else if number = 2 ∧ type = .varint then
    match consumeVarint bytes with
    | none => none
    | some (value, rest) => some ({ record with truncateTo := value ≠ 0 }, rest)
  else if number = 3 ∧ type = .bytes then
    match consumeBytes bytes with
    | none => none
    | some (value, rest) => some ({ record with data := value }, rest)
  else
    match consumeFieldValue number type bytes with
    | none => none
    | some rest => some (record, rest)

/-- The fields in any order; the last one of a number counts.  Each round takes a tag, so the
number of bytes is fuel enough. -/
def unmarshalFields : Nat → LogRecord → Bytes → Option LogRecord
  | _, record, [] => some record
  | 0, _, _ :: _ => none
  | fuel + 1, record, byte :: bytes =>
    match consumeVarint (byte :: bytes) with
    | none => none
    | some (tag, rest) =>
      if tag / 8 < 1 ∨ maxValidNumber < tag / 8 then none
      else
        match unmarshalField record (tag / 8) (.ofNumber (tag % 8)) rest with
        | none => none
        | some (record, rest) => unmarshalFields fuel record rest

def unmarshalProto (bytes : Bytes) : Option LogRecord :=
  unmarshalFields bytes.length ⟨.entry, false, []⟩ bytes

theorem unmarshalFields_cons {record next : LogRecord} {fuel : Nat} {tag : UInt8}
    {bytes rest : Bytes} (htag : 8 ≤ tag.toNat ∧ tag.toNat < 128)
    (hfield : unmarshalField record (tag.toNat / 8) (.ofNumber (tag.toNat % 8)) bytes =
      some (next, rest)) :
    unmarshalFields (fuel + 1) record (tag :: bytes) = unmarshalFields fuel next rest := by
  have hnumber : ¬(tag.toNat / 8 < 1 ∨ maxValidNumber < tag.toNat / 8) := by
    have hmax : maxValidNumber = 536870911 := by decide
    omega
  rw [unmarshalFields, consumeVarint_byte htag.2]
  simp only [hfield]
  rw [if_neg hnumber]

theorem unmarshalFields_type {type : RecordType} {truncateTo : Bool} {data rest : Bytes}
    {fuel : Nat} (htype : type = .entry ∨ type = .control ∨ type = .crcAnchor)
    (hfuel : (marshalNumber 0x08 type.number ++ rest).length ≤ fuel) :
    ∃ left, rest.length ≤ left ∧
      unmarshalFields fuel ⟨.entry, truncateTo, data⟩
        (marshalNumber 0x08 type.number ++ rest) =
          unmarshalFields left ⟨type, truncateTo, data⟩ rest := by
  rcases htype with rfl | htype
  · exact ⟨fuel, hfuel, rfl⟩
  · have hbytes : marshalNumber 0x08 type.number = 0x08 :: varint type.number := by
      rcases htype with rfl | rfl <;> rfl
    rw [hbytes, List.cons_append] at hfuel ⊢
    cases fuel with
    | zero => simp at hfuel
    | succ left =>
      refine ⟨left, ?_, unmarshalFields_cons (by decide) ?_⟩
      · simp only [List.length_cons, List.length_append] at hfuel
        omega
      · have hread : consumeVarint (varint type.number ++ rest) = some (type.number, rest) :=
          consumeVarint_varint (by rcases htype with rfl | rfl <;> decide) rest
        rcases htype with rfl | rfl <;> simp only [unmarshalField, hread] <;> rfl

theorem unmarshalFields_flag {type : RecordType} {flag : Bool} {data rest : Bytes} {fuel : Nat}
    (hfuel : (marshalNumber 0x10 flag.toNat ++ rest).length ≤ fuel) :
    ∃ left, rest.length ≤ left ∧
      unmarshalFields fuel ⟨type, false, data⟩ (marshalNumber 0x10 flag.toNat ++ rest) =
        unmarshalFields left ⟨type, flag, data⟩ rest := by
  cases flag with
  | false => exact ⟨fuel, hfuel, rfl⟩
  | true =>
    have hbytes : marshalNumber 0x10 true.toNat = 0x10 :: varint 1 := rfl
    rw [hbytes, List.cons_append] at hfuel ⊢
    cases fuel with
    | zero => simp at hfuel
    | succ left =>
      refine ⟨left, ?_, unmarshalFields_cons (by decide) ?_⟩
      · simp only [List.length_cons, List.length_append] at hfuel
        omega
      · have hread : consumeVarint (varint 1 ++ rest) = some (1, rest) :=
          consumeVarint_varint (by decide) rest
        simp only [unmarshalField, hread]
        rfl

theorem unmarshalFields_data {type : RecordType} {flag : Bool} {data : Bytes} {fuel : Nat}
    (hfits : data.length < 2 ^ 64) (hfuel : (marshalData data).length ≤ fuel) :
    unmarshalFields fuel ⟨type, flag, []⟩ (marshalData data) = some ⟨type, flag, data⟩ := by
  by_cases hempty : data = []
  · subst hempty
    cases fuel <;> rfl
  · rw [marshalData, if_neg hempty] at hfuel ⊢
    cases fuel with
    | zero => simp at hfuel
    | succ left =>
      have hread : consumeBytes (varint data.length ++ data) = some (data, []) := by
        simp [consumeBytes, consumeVarint_varint hfits]
      have hfield : unmarshalField ⟨type, flag, []⟩ ((0x1a : UInt8).toNat / 8)
          (.ofNumber ((0x1a : UInt8).toNat % 8)) (varint data.length ++ data) =
            some (⟨type, flag, data⟩, []) := by
        simp only [unmarshalField, hread]
        rfl
      rw [unmarshalFields_cons (by decide) hfield]
      cases left <;> rfl

theorem unmarshalProto_marshalProto {record : LogRecord} (h : record.Written marshalProto) :
    unmarshalProto (marshalProto record) = some record := by
  obtain ⟨type, truncateTo, data⟩ := record
  have hfits : data.length < 2 ^ 64 := by
    have hlength := h.fits
    by_cases hempty : data = []
    · simp [hempty]
    · simp only [marshalProto, marshalData, hempty, if_false, List.length_append,
        List.length_cons] at hlength
      omega
  obtain ⟨left, hleft, htype⟩ := @unmarshalFields_type type false []
    (marshalNumber 0x10 truncateTo.toNat ++ marshalData data) _ h.type (Nat.le_refl _)
  obtain ⟨left', hleft', hflag⟩ := @unmarshalFields_flag type truncateTo [] _ _ hleft
  rw [unmarshalProto, marshalProto, htype, hflag]
  exact unmarshalFields_data hfits hleft'

def protoCodec : Codec where
  marshal := marshalProto
  unmarshal := unmarshalProto
  unmarshal_marshal _ h := unmarshalProto_marshalProto h
  anchor_fits := by decide +kernel
  control_fits := by decide +kernel

-- an anchor with its fields in another order, a long varint, an unknown field and a group
example : unmarshalProto ([0x10, 0x81, 0x00] ++ [0x22, 0x01, 0x05] ++ [0x2b, 0x08, 0x01, 0x2c] ++
    [0x08, 0x00] ++ [0x08, 0x02]) = some ⟨.crcAnchor, true, []⟩ := by
  decide +kernel

/-! ## The checksum -/

def crcTableEntry : Nat → UInt32 → UInt32
  | 0, crc => crc
  | bits + 1, crc =>
    crcTableEntry bits
      (if crc &&& 1 = 1 then (crc >>> 1) ^^^ 0x82f63b78 else crc >>> 1)

def crcByte (crc : UInt32) (byte : UInt8) : UInt32 :=
  crcTableEntry 8 ((crc &&& 0xff) ^^^ byte.toUInt32) ^^^ (crc >>> 8)

def crcUpdate (crc : UInt32) (bytes : Bytes) : UInt32 :=
  ~~~ (bytes.foldl crcByte (~~~ crc))

-- the check value of CRC-32C, the checksum of the digits one to nine
example : crcUpdate 0 [0x31, 0x32, 0x33, 0x34, 0x35, 0x36, 0x37, 0x38, 0x39] =
    0xe3069283 := by
  decide +kernel

def walCRCSeed : UInt32 := 0xDEED0001

/-! ## Frames -/

def recordHeaderSize : Nat := 8

def recordLengthMask : Nat := 0xFFFFFFFF

def recordCRCMask : Nat := recordLengthMask <<< 32

def getPadSize (recordLength : Nat) : Nat :=
  (8 - recordLength % 8) % 8

def getPadBytes (recordLength : Nat) : Bytes :=
  List.replicate (getPadSize recordLength) 0

def headerBytes (recordLength : Nat) (crc : UInt32) : Bytes :=
  littleEndian recordHeaderSize (recordLength ||| crc.toNat <<< 32)

def Codec.payload (c : Codec) (record : LogRecord) : Bytes :=
  c.marshal record ++ getPadBytes (c.marshal record).length

@[simp] theorem length_headerBytes (recordLength : Nat) (crc : UInt32) :
    (headerBytes recordLength crc).length = recordHeaderSize :=
  length_littleEndian _ _

theorem Codec.length_payload (c : Codec) (record : LogRecord) :
    (c.payload record).length =
      (c.marshal record).length + getPadSize (c.marshal record).length := by
  simp [Codec.payload, getPadBytes]

theorem Codec.take_payload (c : Codec) (record : LogRecord) :
    (c.payload record).take (c.marshal record).length = c.marshal record := by
  simp [Codec.payload]

private theorem header_lt {recordLength : Nat} {crc : UInt32}
    (h : recordLength < 2 ^ 32) :
    recordLength + crc.toNat * 2 ^ 32 < 256 ^ recordHeaderSize := by
  have hcrc : crc.toNat < 2 ^ 32 := crc.toNat_lt
  have hpow : (256 : Nat) ^ recordHeaderSize = 2 ^ 64 := by decide
  omega

theorem header_eq {recordLength : Nat} {crc : UInt32} (h : recordLength < 2 ^ 32) :
    recordLength ||| crc.toNat <<< 32 = recordLength + crc.toNat * 2 ^ 32 := by
  rw [Nat.or_comm, ← Nat.shiftLeft_add_eq_or_of_lt h, Nat.shiftLeft_eq, Nat.add_comm]

theorem ofLittleEndian_headerBytes {recordLength : Nat} {crc : UInt32}
    (h : recordLength < 2 ^ 32) :
    ofLittleEndian (headerBytes recordLength crc) =
      recordLength + crc.toNat * 2 ^ 32 := by
  rw [headerBytes, ofLittleEndian_littleEndian, header_eq h,
    Nat.mod_eq_of_lt (header_lt h)]

end SmartBFT.Wal
