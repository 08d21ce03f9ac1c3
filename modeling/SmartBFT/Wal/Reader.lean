import SmartBFT.Wal.Record

/-!
# Reading a log file

`LogRecordReader` reads the frames of one file.  A frame that was cut off is
reported like `io.ReadFull` reports it: as the end of the file when the cut
falls on the boundary of a read, and as an unexpected end inside one.
-/

namespace SmartBFT.Wal

variable {bytes rest : Bytes} {c : Codec} {r next : LogRecordReader} {record : LogRecord}
  {part : Nat}

open SmartBFT.Foundation

inductive ErrorContext where
  | createReader (index : Nat)
  | failedReading
  | switchLogFiles
  | cannotCreate
  | cannotOpen
  | cannotReadInitialState
  | cannotRepair
  | cannotReadAfterRepair
  deriving DecidableEq, Repr

inductive WalError where
  | eof
  | unexpectedEOF
  | crc
  | unmarshalPayload
  | unmarshal
  | noAnchor
  | unexpectedType (type : RecordType)
  | notExist
  | alreadyExists
  | closed
  | readOnly
  | writeOnly
  | emptyData
  | recordTooBig (recordLength : Nat)
  | notInSequence
  -- run-time panics: an index past the end of a slice, a nil file
  | indexOutOfRange
  | nilFile
  | wrapped (context : ErrorContext) (cause : WalError)
  deriving DecidableEq, Repr

/-- `errors.Is`, for a target that wraps nothing. -/
def WalError.is : WalError → WalError → Bool
  | .wrapped _ cause, target => cause.is target
  | e, target => e = target

/-- `io.ReadFull`: the bytes read and the bytes left. -/
def readFull (n : Nat) (bytes : Bytes) : Except WalError (Bytes × Bytes) :=
  if n ≤ bytes.length then .ok (bytes.take n, bytes.drop n)
  else if bytes = [] then .error .eof
  else .error .unexpectedEOF

structure Frame where
  recLen : Nat
  crc : UInt32
  payload : Bytes
  -- the bytes after the frame
  rest : Bytes
  deriving DecidableEq, Repr

def readHeader (bytes : Bytes) : Except WalError (Nat × UInt32 × Bytes) :=
  match readFull recordHeaderSize bytes with
  | .error e => .error e
  | .ok (buff, rest) =>
    let header := ofLittleEndian buff
    .ok (header &&& recordLengthMask,
      UInt32.ofNat ((header &&& recordCRCMask) >>> 32), rest)

/-- `readHeader` and then `readPayload`, as every reader calls them. -/
def readFrame (bytes : Bytes) : Except WalError Frame :=
  match readHeader bytes with
  | .error e => .error e
  | .ok (recLen, crc, rest) =>
    match readFull (recLen + getPadSize recLen) rest with
    | .error e => .error e
    | .ok (payload, rest) => .ok ⟨recLen, crc, payload, rest⟩

structure LogRecordReader where
  -- what is left of the file
  rest : Bytes
  crc : UInt32
  deriving DecidableEq, Repr

def newLogRecordReader (c : Codec) (bytes : Bytes) : Except WalError LogRecordReader :=
  match readFrame bytes with
  | .error e => .error e
  | .ok frame =>
    match c.unmarshal (frame.payload.take frame.recLen) with
    | none => .error .unmarshal
    | some record =>
      if record.type = .crcAnchor then .ok ⟨frame.rest, frame.crc⟩
      else .error .noAnchor

def verifyCRC (prevCRC expectedCRC : UInt32) (data : Bytes) : Bool :=
  crcUpdate prevCRC data = expectedCRC

def LogRecordReader.read (c : Codec) (r : LogRecordReader) :
    Except WalError (LogRecord × LogRecordReader) :=
  match readFrame r.rest with
  | .error e => .error e
  | .ok frame =>
    match c.unmarshal (frame.payload.take frame.recLen) with
    | none => .error .unmarshalPayload
    | some record =>
      match record.type with
      | .entry | .control =>
        if verifyCRC r.crc frame.crc frame.payload then
          .ok (record, ⟨frame.rest, frame.crc⟩)
        else .error .crc
      | .crcAnchor => .ok (record, ⟨frame.rest, frame.crc⟩)
      | .other n => .error (.unexpectedType (.other n))

theorem readFull_ok {n : Nat} {buff : Bytes} (h : readFull n bytes = .ok (buff, rest)) :
    bytes = buff ++ rest ∧ buff.length = n := by
  simp only [readFull] at h
  split at h
  · next hlength =>
      simp only [Except.ok.injEq, Prod.mk.injEq] at h
      obtain ⟨rfl, rfl⟩ := h
      exact ⟨(List.take_append_drop n bytes).symm, by simpa using hlength⟩
  · split at h <;> simp at h

theorem readHeader_ok {recLen : Nat} {crc : UInt32}
    (h : readHeader bytes = .ok (recLen, crc, rest)) :
    bytes.length = recordHeaderSize + rest.length := by
  simp only [readHeader] at h
  cases hfull : readFull recordHeaderSize bytes with
  | error e => simp [hfull] at h
  | ok read =>
    obtain ⟨hbytes, hlength⟩ := readFull_ok hfull
    simp only [hfull, Except.ok.injEq, Prod.mk.injEq] at h
    rw [hbytes, List.length_append, hlength, h.2.2]

theorem readFrame_ok {frame : Frame} (h : readFrame bytes = .ok frame) :
    bytes.length = recordHeaderSize + frame.payload.length + frame.rest.length := by
  simp only [readFrame] at h
  cases hheader : readHeader bytes with
  | error e => simp [hheader] at h
  | ok header =>
    simp only [hheader] at h
    cases hfull : readFull (header.1 + getPadSize header.1) header.2.2 with
    | error e => simp [hfull] at h
    | ok read =>
      simp only [hfull, Except.ok.injEq] at h
      have hrest := congrArg List.length (readFull_ok hfull).1
      rw [List.length_append] at hrest
      rw [readHeader_ok hheader, ← h, hrest, Nat.add_assoc]

theorem LogRecordReader.read_ok (h : r.read c = .ok (record, next)) :
    ∃ frame, readFrame r.rest = .ok frame ∧ next = ⟨frame.rest, frame.crc⟩ := by
  simp only [LogRecordReader.read] at h
  cases hframe : readFrame r.rest with
  | error e => simp [hframe] at h
  | ok frame =>
    refine ⟨frame, rfl, ?_⟩
    simp only [hframe] at h
    cases hrecord : c.unmarshal (frame.payload.take frame.recLen) with
    | none => simp [hrecord] at h
    | some found =>
      simp only [hrecord] at h
      cases htype : found.type <;> simp only [htype] at h
      case crcAnchor => simp_all
      case other => simp at h
      all_goals
        split at h
        · simp_all
        · simp at h

theorem LogRecordReader.read_shorter (h : r.read c = .ok (record, next)) :
    next.rest.length < r.rest.length := by
  obtain ⟨frame, hframe, rfl⟩ := LogRecordReader.read_ok h
  have hlength := readFrame_ok hframe
  have hsize : recordHeaderSize = 8 := rfl
  simp only
  omega

/-- What the loops over `Read` find: the records up to the first error, the
reader after the last of them, and the error. -/
structure Scan where
  records : List LogRecord
  reader : LogRecordReader
  readErr : WalError
  deriving DecidableEq, Repr

def readRecords (c : Codec) (r : LogRecordReader) : Scan :=
  match _hread : r.read c with
  | .error e => ⟨[], r, e⟩
  | .ok (record, next) =>
    let scan := readRecords c next
    { scan with records := record :: scan.records }
termination_by r.rest.length
decreasing_by exact LogRecordReader.read_shorter _hread

theorem readRecords_of_error {e : WalError} (h : r.read c = .error e) :
    readRecords c r = ⟨[], r, e⟩ := by
  rw [readRecords]
  split
  · simp_all
  · simp_all

theorem readRecords_of_ok (h : r.read c = .ok (record, next)) :
    readRecords c r =
      { readRecords c next with records := record :: (readRecords c next).records } := by
  rw [readRecords]
  split
  · simp_all
  · next found after hfound =>
      rw [h] at hfound
      cases hfound
      rfl

/-! ## Frames as they are written -/

def Codec.frame (c : Codec) (crc : UInt32) (record : LogRecord) : Bytes :=
  headerBytes (c.marshal record).length crc ++ c.payload record

theorem readFull_append (buff rest : Bytes) :
    readFull buff.length (buff ++ rest) = .ok (buff, rest) := by
  simp [readFull]

theorem readHeader_headerBytes {recordLength : Nat} (crc : UInt32) (rest : Bytes)
    (h : recordLength < 2 ^ 32) :
    readHeader (headerBytes recordLength crc ++ rest) = .ok (recordLength, crc, rest) := by
  have hfull := readFull_append (headerBytes recordLength crc) rest
  rw [length_headerBytes] at hfull
  have hcrc : crc.toNat < 2 ^ 32 := crc.toNat_lt
  have hmask : recordLengthMask = 2 ^ 32 - 1 := rfl
  have hshift : recordCRCMask >>> 32 = 2 ^ 32 - 1 := by decide
  have hdiv : (recordLength + crc.toNat * 2 ^ 32) / 2 ^ 32 = crc.toNat := by omega
  have hlow : (recordLength + crc.toNat * 2 ^ 32) &&& recordLengthMask = recordLength := by
    rw [hmask, Nat.and_two_pow_sub_one_eq_mod]
    omega
  have hhigh : ((recordLength + crc.toNat * 2 ^ 32) &&& recordCRCMask) >>> 32 =
      crc.toNat := by
    rw [Nat.shiftRight_and_distrib, hshift, Nat.and_two_pow_sub_one_eq_mod,
      Nat.shiftRight_eq_div_pow, hdiv, Nat.mod_eq_of_lt hcrc]
  simp only [readHeader, hfull, ofLittleEndian_headerBytes h, hlow, hhigh,
    UInt32.ofNat_toNat]

theorem readFrame_frame (c : Codec) (crc : UInt32) (record : LogRecord) (rest : Bytes)
    (h : (c.marshal record).length < 2 ^ 32) :
    readFrame (c.frame crc record ++ rest) =
      .ok ⟨(c.marshal record).length, crc, c.payload record, rest⟩ := by
  have hfull := readFull_append (c.payload record) rest
  rw [c.length_payload] at hfull
  simp only [Codec.frame, List.append_assoc, readFrame, readHeader_headerBytes crc _ h,
    hfull]

theorem newLogRecordReader_anchor (c : Codec) (crc : UInt32) (rest : Bytes) :
    newLogRecordReader c (c.frame crc anchorRecord ++ rest) = .ok ⟨rest, crc⟩ := by
  simp only [newLogRecordReader, readFrame_frame c crc anchorRecord rest c.anchor_fits,
    c.take_payload, c.unmarshal_marshal anchorRecord ⟨.inr (.inr rfl), c.anchor_fits⟩]
  rfl

structure Codec.Appendable (c : Codec) (record : LogRecord) : Prop where
  fits : (c.marshal record).length < 2 ^ 32
  type : record.type = .entry ∨ record.type = .control

def Codec.nextCRC (c : Codec) (crc : UInt32) (record : LogRecord) : UInt32 :=
  crcUpdate crc (c.payload record)

theorem read_frame (crc : UInt32) (rest : Bytes) (h : c.Appendable record) :
    LogRecordReader.read c ⟨c.frame (c.nextCRC crc record) record ++ rest, crc⟩ =
      .ok (record, ⟨rest, c.nextCRC crc record⟩) := by
  simp only [LogRecordReader.read, readFrame_frame c _ record rest h.fits,
    c.take_payload, c.unmarshal_marshal record ⟨h.type.imp_right .inl, h.fits⟩]
  rcases h.type with htype | htype <;> simp [htype, verifyCRC, Codec.nextCRC]

/-! ## Frames that were cut off -/

def WalError.IsCutOff (e : WalError) : Prop := e = .eof ∨ e = .unexpectedEOF

theorem readFull_short {n : Nat} {bytes : Bytes} (h : bytes.length < n) :
    ∃ e : WalError, e.IsCutOff ∧ readFull n bytes = .error e := by
  have hlength : ¬ n ≤ bytes.length := by omega
  by_cases hempty : bytes = []
  · exact ⟨.eof, .inl rfl, by rw [readFull, if_neg hlength, if_pos hempty]⟩
  · exact ⟨.unexpectedEOF, .inr rfl, by rw [readFull, if_neg hlength, if_neg hempty]⟩

theorem readFrame_torn (crc : UInt32) (hfits : (c.marshal record).length < 2 ^ 32)
    (hpart : part < (c.frame crc record).length) :
    ∃ e : WalError, e.IsCutOff ∧
      readFrame ((c.frame crc record).take part) = .error e := by
  have hlength : (c.frame crc record).length =
      recordHeaderSize + (c.payload record).length := by
    simp [Codec.frame]
  by_cases hheader : part < recordHeaderSize
  · obtain ⟨e, hcut, hfull⟩ :=
      @readFull_short recordHeaderSize ((c.frame crc record).take part)
        (by simp only [List.length_take]; omega)
    exact ⟨e, hcut, by simp only [readFrame, readHeader, hfull]⟩
  · -- the header is whole: the read of the payload fails
    have htake : (c.frame crc record).take part =
        headerBytes (c.marshal record).length crc ++
          (c.payload record).take (part - recordHeaderSize) := by
      simp only [Codec.frame, List.take_append, length_headerBytes]
      rw [List.take_of_length_le (by rw [length_headerBytes]; omega)]
    obtain ⟨e, hcut, hfull⟩ :=
      @readFull_short (c.payload record).length
        ((c.payload record).take (part - recordHeaderSize))
        (by simp only [List.length_take]; omega)
    rw [c.length_payload] at hfull
    refine ⟨e, hcut, ?_⟩
    rw [htake, readFrame, readHeader_headerBytes crc _ hfits]
    simp only [hfull]

theorem read_torn (crc prev : UInt32) (hfits : (c.marshal record).length < 2 ^ 32)
    (hpart : part < (c.frame crc record).length) :
    ∃ e : WalError, e.IsCutOff ∧
      LogRecordReader.read c ⟨(c.frame crc record).take part, prev⟩ = .error e := by
  obtain ⟨e, hcut, hframe⟩ := readFrame_torn crc hfits hpart
  exact ⟨e, hcut, by simp only [LogRecordReader.read, hframe]⟩

theorem newLogRecordReader_torn (crc : UInt32) (hpart : part < (c.frame crc anchorRecord).length) :
    ∃ e, newLogRecordReader c ((c.frame crc anchorRecord).take part) = .error e := by
  obtain ⟨e, -, hframe⟩ := readFrame_torn crc c.anchor_fits hpart
  exact ⟨e, by simp only [newLogRecordReader, hframe]⟩

/-! ## What a reader has read -/

theorem readFull_append_of_ok {n : Nat} {buff : Bytes} (h : readFull n bytes = .ok (buff, rest)) :
    bytes = buff ++ rest ∧ ∀ other, readFull n (buff ++ other) = .ok (buff, other) := by
  obtain ⟨hbytes, hlength⟩ := readFull_ok h
  refine ⟨hbytes, fun other => ?_⟩
  rw [← hlength]
  exact readFull_append buff other

theorem readFrame_append_of_ok {frame : Frame} (h : readFrame bytes = .ok frame) :
    ∃ consumed, bytes = consumed ++ frame.rest ∧
      ∀ other, readFrame (consumed ++ other) = .ok { frame with rest := other } := by
  simp only [readFrame, readHeader] at h
  cases hheader : readFull recordHeaderSize bytes with
  | error e => simp [hheader] at h
  | ok header =>
    obtain ⟨buff, afterHeader⟩ := header
    simp only [hheader] at h
    split at h
    · simp at h
    · rename_i payload rest hpayload
      obtain rfl := Except.ok.inj h
      obtain ⟨hbytes, hsame⟩ := readFull_append_of_ok hheader
      obtain ⟨hafter, hsame'⟩ := readFull_append_of_ok hpayload
      refine ⟨buff ++ payload, by rw [hbytes, hafter, List.append_assoc], fun other => ?_⟩
      simp only [readFrame, readHeader, List.append_assoc, hsame, hsame']

theorem newLogRecordReader_append_of_ok (h : newLogRecordReader c bytes = .ok r) :
    ∃ consumed, bytes = consumed ++ r.rest ∧
      ∀ other, newLogRecordReader c (consumed ++ other) = .ok { r with rest := other } := by
  simp only [newLogRecordReader] at h
  cases hframe : readFrame bytes with
  | error e => simp [hframe] at h
  | ok frame =>
    obtain ⟨consumed, hbytes, hsame⟩ := readFrame_append_of_ok hframe
    simp only [hframe] at h
    cases hrecord : c.unmarshal (frame.payload.take frame.recLen) with
    | none => simp [hrecord] at h
    | some record =>
      simp only [hrecord] at h
      split at h
      · rename_i htype
        obtain rfl := Except.ok.inj h
        refine ⟨consumed, hbytes, fun other => ?_⟩
        simp only [newLogRecordReader, hsame, hrecord, htype, if_true]
      · simp at h

theorem LogRecordReader.read_append_of_ok (h : r.read c = .ok (record, next)) :
    ∃ consumed, r.rest = consumed ++ next.rest ∧ ∀ other,
      LogRecordReader.read c ⟨consumed ++ other, r.crc⟩ = .ok (record, ⟨other, next.crc⟩) := by
  simp only [LogRecordReader.read] at h
  cases hframe : readFrame r.rest with
  | error e => simp [hframe] at h
  | ok frame =>
    obtain ⟨consumed, hbytes, hsame⟩ := readFrame_append_of_ok hframe
    simp only [hframe] at h
    cases hrecord : c.unmarshal (frame.payload.take frame.recLen) with
    | none => simp [hrecord] at h
    | some found =>
      simp only [hrecord] at h
      have hnext : found = record ∧ next = ⟨frame.rest, frame.crc⟩ := by
        cases htype : found.type <;> simp only [htype] at h
        case crcAnchor => simp_all
        case other => simp at h
        all_goals
          split at h
          · simp_all
          · simp at h
      obtain ⟨rfl, rfl⟩ := hnext
      refine ⟨consumed, hbytes, fun other => ?_⟩
      simp only [LogRecordReader.read, hsame, hrecord]
      cases htype : found.type <;> simp only [htype] at h ⊢
      case other => simp at h
      all_goals
        split at h
        · rename_i hcrc
          rw [if_pos hcrc]
        · simp at h

theorem readRecords_append (c : Codec) (r : LogRecordReader) :
    ∃ consumed, r.rest = consumed ++ (readRecords c r).reader.rest ∧
      ∀ other, readRecords c ⟨consumed ++ other, r.crc⟩ =
        let scan := readRecords c ⟨other, (readRecords c r).reader.crc⟩
        { scan with records := (readRecords c r).records ++ scan.records } := by
  fun_induction readRecords c r with
  | case1 r e hread => exact ⟨[], rfl, fun other => rfl⟩
  | case2 r record next hread scan ih =>
    obtain ⟨first, hrest, hsame⟩ := LogRecordReader.read_append_of_ok hread
    obtain ⟨consumed, hconsumed, htail⟩ := ih
    refine ⟨first ++ consumed, by rw [hrest, hconsumed, List.append_assoc], fun other => ?_⟩
    rw [List.append_assoc, readRecords_of_ok (hsame _), htail]
    rfl

end SmartBFT.Wal
