import SmartBFT.Foundation.Run
import SmartBFT.Wal.Recovery

/-!
# Repair of an arbitrary last file

`scanRepairFile` on any bytes after a readable anchor, and what a tail of
garbage does to a log that was written without errors.  A reader takes a frame
of the type of an anchor without a look at its CRC, so garbage that decodes to
one is read as a record, and so is what continues its CRC; a frame of an unknown
type is an error that no start repairs.  Every other tail is dropped.
-/

namespace SmartBFT.Wal

open SmartBFT.Foundation

variable {c : Codec}
variable {bytes : Bytes} {r : LogRecordReader} {w : WriteAheadLogFile} {disk : Disk}
  {items : List Bytes} {e : WalError} {segments : List Segment} {last : Segment}

/-! ## The good records of a file -/

def goodPrefix (c : Codec) (bytes : Bytes) (r : LogRecordReader) : Bytes :=
  bytes.take (bytes.length - (readRecords c r).reader.rest.length)

theorem readRecords_goodPrefix (h : newLogRecordReader c bytes = .ok r) :
    ∃ r', newLogRecordReader c (goodPrefix c bytes r) = .ok r' ∧
      readRecords c r' =
        ⟨(readRecords c r).records, ⟨[], (readRecords c r).reader.crc⟩, .eof⟩ := by
  obtain ⟨anchor, hbytes, hanchor⟩ := newLogRecordReader_append_of_ok h
  obtain ⟨consumed, hrest, hsame⟩ := readRecords_append c r
  have hcut : goodPrefix c bytes r = anchor ++ consumed := by
    have hsplit : bytes = anchor ++ consumed ++ (readRecords c r).reader.rest := by
      rw [List.append_assoc, ← hrest, ← hbytes]
    have hlength : bytes.length - (readRecords c r).reader.rest.length =
        (anchor ++ consumed).length := by
      rw [congrArg List.length hsplit, List.length_append, Nat.add_sub_cancel]
    rw [goodPrefix, hlength]
    nth_rewrite 1 [hsplit]
    rw [List.take_left]
  refine ⟨⟨consumed, r.crc⟩, by rw [hcut, hanchor], ?_⟩
  have hend : readRecords c ⟨[], (readRecords c r).reader.crc⟩ =
      ⟨[], ⟨[], (readRecords c r).reader.crc⟩, .eof⟩ := readRecords_of_error rfl
  have hread := hsame []
  simp only [List.append_nil, hend] at hread
  exact hread

theorem scanRepairFile_of_eof {file : LogFile} (h : newLogRecordReader c file.bytes = .ok r)
    (heof : (readRecords c r).readErr = .eof) : scanRepairFile c file = [] := by
  simp only [scanRepairFile, h, heof, if_true]

/-- **Repair keeps the good prefix.**  After `scanRepairFile` the last file is
a prefix of what it was, it reads as the same records with the same final CRC
up to the end of the file, and another repair does nothing. -/
theorem scanRepairFile_keeps_good_records {older : Disk} {file : LogFile}
    (holder : ∀ f ∈ older, f.index < file.index) {r : LogRecordReader}
    (hanchor : newLogRecordReader c file.bytes = .ok r) :
    ∃ bytes r' rest,
      applyAll DiskOp.apply (scanRepairFile c file) (older ++ [file]) =
        older ++ [⟨file.index, bytes⟩] ∧
      bytes <+: file.bytes ∧
      newLogRecordReader c bytes = .ok r' ∧
      readRecords c r' =
        ⟨(readRecords c r).records, ⟨rest, (readRecords c r).reader.crc⟩, .eof⟩ ∧
      scanRepairFile c ⟨file.index, bytes⟩ = [] := by
  by_cases heof : (readRecords c r).readErr = .eof
  · -- nothing is cut: a header that was torn may stay
    have hnothing := scanRepairFile_of_eof hanchor heof
    refine ⟨file.bytes, r, (readRecords c r).reader.rest, ?_, List.prefix_rfl, hanchor, ?_,
      hnothing⟩
    · rw [hnothing, applyAll_nil]
    · rw [← heof]
  · obtain ⟨r', hanchor', hread⟩ := readRecords_goodPrefix hanchor
    have hrepair : scanRepairFile c file =
        [.truncate file.index (file.bytes.length - (readRecords c r).reader.rest.length),
          .sync file.index] := by
      simp only [scanRepairFile, hanchor, heof, if_false]
    have hcut := modify_last
      (List.take (file.bytes.length - (readRecords c r).reader.rest.length)) holder
    refine ⟨goodPrefix c file.bytes r, r', [], ?_, List.take_prefix _ _, hanchor', hread, ?_⟩
    · rw [hrepair, applyAll_cons, applyAll_cons, apply_sync, applyAll_nil, DiskOp.apply]
      exact hcut
    · exact scanRepairFile_of_eof hanchor' (by rw [hread])

def cutOffReader : LogRecordReader :=
  ⟨protoCodec.frame (protoCodec.nextCRC walCRCSeed ⟨.entry, false, [7]⟩) ⟨.entry, false, [7]⟩ ++
      (headerBytes 9 0 ++ [1, 2]),
    walCRCSeed⟩

def cutOffFile : LogFile :=
  ⟨1, protoCodec.frame walCRCSeed anchorRecord ++ cutOffReader.rest⟩

theorem scanRepairFile_cutOffFile :
    (readRecords protoCodec cutOffReader).records = [⟨.entry, false, [7]⟩] ∧
      (readRecords protoCodec cutOffReader).readErr = .unexpectedEOF ∧
      ∃ bytes r' rest,
        applyAll DiskOp.apply (scanRepairFile protoCodec cutOffFile) ([] ++ [cutOffFile]) =
          [] ++ [⟨cutOffFile.index, bytes⟩] ∧
        bytes <+: cutOffFile.bytes ∧
        newLogRecordReader protoCodec bytes = .ok r' ∧
        readRecords protoCodec r' =
          ⟨(readRecords protoCodec cutOffReader).records,
            ⟨rest, (readRecords protoCodec cutOffReader).reader.crc⟩, .eof⟩ ∧
        scanRepairFile protoCodec ⟨cutOffFile.index, bytes⟩ = [] :=
  ⟨by decide +kernel, by decide +kernel,
    scanRepairFile_keeps_good_records (by simp)
      (newLogRecordReader_anchor protoCodec walCRCSeed cutOffReader.rest)⟩

/-! ## A tail of garbage -/

/-- The sessions of a log up to the calls of the last one, which does not close
it. -/
def writeLog (c : Codec) (sessions : List Session) (last : Session) :
    Except WalError (WriteAheadLogFile × Disk) :=
  match sessions with
  | [] =>
    match create c last.options [] with
    | (_, .error e) => .error e
    | (ops, .ok w) => w.callAll c (applyAll DiskOp.apply ops []) last.calls
  | first :: sessions =>
    match runSessions c first sessions with
    | .error e => .error e
    | .ok disk =>
      match openAndReadAll c last.options disk with
      | .error e => .error e
      | .ok (_, w, disk) => w.callAll c disk last.calls

theorem Running.of_callAll {w' : WriteAheadLogFile} {disk' : Disk} (h : Running c w disk items)
    {calls : List Call} (hcalls : w.callAll c disk calls = .ok (w', disk')) :
    Running c w' disk' ((calls.map Call.record).foldl keep items) := by
  induction calls generalizing w disk items with
  | nil =>
    simp only [WriteAheadLogFile.callAll, Except.ok.injEq, Prod.mk.injEq] at hcalls
    obtain ⟨rfl, rfl⟩ := hcalls
    exact h
  | cons call calls ih =>
    rw [WriteAheadLogFile.callAll] at hcalls
    rcases h.call_cases call with ⟨e, hcall⟩ | happended
    · simp [hcall] at hcalls
    · simp only [happended.ok] at hcalls
      exact ih happended.running hcalls

theorem Running.of_finish {w : WriteAheadLogFile} {disk disk' : Disk}
    {records : List LogRecord} (h : Running c w disk (retained records))
    {calls : List Call} (hfinish : w.finish c disk calls = .ok disk') :
    Closed c disk' (retained (records ++ calls.map Call.record)) := by
  rw [WriteAheadLogFile.finish] at hfinish
  cases hcalls : w.callAll c disk calls with
  | error e => simp [hcalls] at hfinish
  | ok after =>
    simp only [hcalls, Except.ok.injEq] at hfinish
    have hrunning := h.of_callAll hcalls
    rw [foldl_keep_retained] at hrunning
    rw [← hfinish]
    exact hrunning.closed

theorem Closed.of_openSession {disk' : Disk} {records : List LogRecord}
    (h : Closed c disk (retained records)) {session : Session}
    (hsession : openSession c disk session = .ok disk') :
    Closed c disk' (retained (records ++ session.calls.map Call.record)) := by
  obtain ⟨w, next, hopen, hrunning⟩ := h.openAndReadAll session.options
  simp only [openSession, hopen] at hsession
  exact hrunning.of_finish hsession

theorem Closed.of_runSessions {first : Session} {sessions : List Session}
    (h : runSessions c first sessions = .ok disk) :
    Closed c disk (retained (recordsAppended (first :: sessions))) := by
  obtain ⟨ops, w, hcreate, hstarted⟩ := create_started c first.options
  simp only [runSessions, createSession, hcreate] at h
  cases hfinish : w.finish c (applyAll DiskOp.apply ops []) first.calls with
  | error e => simp [hfinish] at h
  | ok start =>
    simp only [hfinish] at h
    have hclosed := @Running.of_finish c w _ _ [] hstarted.running _ hfinish
    have hrun : ∀ (sessions : List Session) (disk' : Disk) (records : List LogRecord),
        Closed c disk' (retained records) →
        sessions.foldlM (openSession c) disk' = .ok disk →
        Closed c disk (retained (records ++ recordsAppended sessions)) := by
      intro sessions
      induction sessions with
      | nil =>
        intro disk' records hclosed hdone
        obtain rfl := Except.ok.inj hdone
        simpa [recordsAppended] using hclosed
      | cons session sessions ih =>
        intro disk' records hclosed hdone
        rw [List.foldlM_cons] at hdone
        cases hsession : openSession c disk' session with
        | error e => rw [hsession] at hdone; cases hdone
        | ok next =>
          rw [hsession] at hdone
          have hrest := ih next _ (hclosed.of_openSession hsession) hdone
          simpa [recordsAppended] using hrest
    simpa [recordsAppended] using hrun sessions start _ hclosed h

theorem Running.of_writeLog {sessions : List Session} {last : Session}
    (h : writeLog c sessions last = .ok (w, disk)) :
    Running c w disk (retained (recordsAppended (sessions ++ [last]))) := by
  cases sessions with
  | nil =>
    obtain ⟨ops, start, hcreate, hstarted⟩ := create_started c last.options
    simp only [writeLog, hcreate] at h
    have hrunning : Running c w disk
        ((last.calls.map Call.record).foldl keep (retained [])) :=
      hstarted.running.of_callAll h
    rw [foldl_keep_retained] at hrunning
    simpa [recordsAppended] using hrunning
  | cons first sessions =>
    simp only [writeLog] at h
    cases hsessions : runSessions c first sessions with
    | error e => simp [hsessions] at h
    | ok closed =>
      obtain ⟨start, next, hopen, hrunning⟩ :=
        (Closed.of_runSessions hsessions).openAndReadAll last.options
      simp only [hsessions, hopen] at h
      have hdone := hrunning.of_callAll h
      rw [foldl_keep_retained] at hdone
      simpa [recordsAppended] using hdone

/-- The bytes begin with a frame whose CRC continues the chain. -/
def continuesChain (crc : UInt32) (bytes : Bytes) : Bool :=
  match readFrame bytes with
  | .error _ => false
  | .ok frame => verifyCRC crc frame.crc frame.payload

theorem readFull_error {n : Nat} (h : readFull n bytes = .error e) :
    e = .eof ∨ e = .unexpectedEOF := by
  simp only [readFull] at h
  split at h
  · simp at h
  · split at h
    · exact .inl (Except.error.inj h).symm
    · exact .inr (Except.error.inj h).symm

theorem readFrame_error (h : readFrame bytes = .error e) : e = .eof ∨ e = .unexpectedEOF := by
  simp only [readFrame, readHeader] at h
  cases hheader : readFull recordHeaderSize bytes with
  | error e' =>
    simp only [hheader, Except.error.injEq] at h
    exact h ▸ readFull_error hheader
  | ok header =>
    simp only [hheader] at h
    split at h
    · rename_i hpayload
      exact Except.error.inj h ▸ readFull_error hpayload
    · simp at h

theorem LogRecordReader.read_error (h : r.read c = .error e) :
    e = .eof ∨ e.Repairable ∨ ∃ type, e = .unexpectedType type := by
  simp only [LogRecordReader.read] at h
  cases hframe : readFrame r.rest with
  | error e' =>
    simp only [hframe, Except.error.injEq] at h
    rcases readFrame_error hframe with rfl | rfl
    · exact .inl h.symm
    · exact .inr (.inl (.inl h.symm))
  | ok frame =>
    simp only [hframe] at h
    cases hrecord : c.unmarshal (frame.payload.take frame.recLen) with
    | none =>
      simp only [hrecord, Except.error.injEq] at h
      exact .inr (.inl (.inr (.inr h.symm)))
    | some record =>
      simp only [hrecord] at h
      cases htype : record.type <;> simp only [htype] at h
      case crcAnchor => simp at h
      case other number => exact .inr (.inr ⟨_, (Except.error.inj h).symm⟩)
      all_goals
        split at h
        · simp at h
        · exact .inr (.inl (.inr (.inl (Except.error.inj h).symm)))

theorem readRecords_stops (c : Codec) (r : LogRecordReader) :
    (readRecords c r).reader.read c = .error (readRecords c r).readErr := by
  fun_induction readRecords c r with
  | case1 r e hread => exact hread
  | case2 r record next hread scan ih => exact ih

theorem initializeAndReadAll_fails (hchain : Chain c (segments ++ [last]))
    (hends : last.EndsWith c e) (he : e ≠ .eof) (hnot : e.inLast.is .unexpectedEOF = false)
    (options : Option Options) :
    initializeAndReadAll c options (files c (segments ++ [last])) =
      ([], .error (.wrapped .cannotReadInitialState e.inLast)) := by
  obtain ⟨w, hopen, hopened⟩ := openLog_files hchain (by simp) options
  have hread := readAll_intoLast hchain hends he hopened
  have hcreate : create c options (files c (segments ++ [last])) =
      ([], .error .alreadyExists) := by
    simp [create, files]
  simp only [initializeAndReadAll, hcreate, hopen, hread, hnot, WalError.is, decide_true,
    Bool.not_true, Bool.not_false, Bool.false_eq_true, if_false, if_true]

/-- A start gives the items, and the log it leaves can be appended to and
started again with what the new records make of them. -/
structure Survives (c : Codec) (items : List Bytes) (disk : Disk) : Prop where
  start : ∀ options, ∃ ops w,
    initializeAndReadAll c options disk = (ops, .ok (w, items)) ∧
      ∀ calls : List Call, (∀ call ∈ calls, call.Valid c) → ∃ w' disk',
        w.callAll c (applyAll DiskOp.apply ops disk) calls = .ok (w', disk') ∧
          ∀ options', ∃ ops' w'', initializeAndReadAll c options' disk' =
            (ops', .ok (w'', (calls.map Call.record).foldl keep items))

theorem Survives.of_running
    (h : ∀ options, ∃ ops w, initializeAndReadAll c options disk = (ops, .ok (w, items)) ∧
      Running c w (applyAll DiskOp.apply ops disk) items) : Survives c items disk := by
  refine ⟨fun options => ?_⟩
  obtain ⟨ops, w, hstart, hrunning⟩ := h options
  refine ⟨ops, w, hstart, fun calls hvalid => ?_⟩
  obtain ⟨w', disk', hcalls, hrunning'⟩ := hrunning.callAll hvalid
  refine ⟨w', disk', hcalls, fun options' => ?_⟩
  obtain ⟨ops', w'', hstart', -⟩ := (hrunning'.whole.recovers options').started
  exact ⟨ops', w'', hstart'⟩

/-! What a reader makes of a tail behind the last record. -/

def Segment.withTail (c : Codec) (s : Segment) (consumed t : Bytes) : Segment :=
  { s with
    body := s.body ++ consumed
    records := s.records ++ (readRecords c ⟨t, s.crc⟩).records
    crc := (readRecords c ⟨t, s.crc⟩).reader.crc
    tail := (readRecords c ⟨t, s.crc⟩).reader.rest }

theorem Segment.Readable.withTail {s : Segment} (h : s.Readable c) (t : Bytes) :
    ∃ consumed, t = consumed ++ (readRecords c ⟨t, s.crc⟩).reader.rest ∧
      (s.withTail c consumed t).Readable c := by
  obtain ⟨consumed, ht, hsame⟩ := readRecords_append c ⟨t, s.crc⟩
  refine ⟨consumed, ht, fun rest => ?_⟩
  simp only [Segment.withTail]
  rw [List.append_assoc, h, hsame, List.append_assoc]

theorem Writing.modify_files (h : Writing c w segments last) {consumed t : Bytes}
    (ht : t = consumed ++ (readRecords c ⟨t, last.crc⟩).reader.rest) :
    (files c (segments ++ [last])).modify w.index (fun bytes => bytes ++ t) =
      files c (segments ++ [last.withTail c consumed t]) := by
  have hmodify := @modify_last (files c segments) (last.file c) (fun bytes => bytes ++ t)
    h.files_lt
  have hbytes : last.bytes c ++ t = (last.withTail c consumed t).bytes c := by
    nth_rewrite 1 [ht]
    simp [Segment.bytes, Segment.withTail, h.tail]
  rw [files_append, files_append, h.index]
  refine hmodify.trans ?_
  simp only [files, List.map_cons, List.map_nil, Segment.file, hbytes]
  rfl

theorem initializeAndReadAll_running (hchain : Chain c (segments ++ [last]))
    (hends : last.EndsWith c e) (he : e = .eof ∨ e.Repairable) (options : Option Options) :
    ∃ ops w, initializeAndReadAll c options (files c (segments ++ [last])) =
        (ops, .ok (w, retained (recordsOf (segments ++ [last])))) ∧
      Running c w (applyAll DiskOp.apply ops (files c (segments ++ [last])))
        (retained (recordsOf (segments ++ [last]))) := by
  rcases he with rfl | hrepairable
  · obtain ⟨ops, w, hstart, hstarted⟩ := (recovers_eof hchain hends options).started
    exact ⟨ops, w, hstart, hstarted.running⟩
  · obtain ⟨ops, w, hstart, hstarted⟩ :=
      initializeAndReadAll_repairs hchain hends hrepairable options
    refine ⟨_, w, hstart, ?_⟩
    rw [applyAll_append, applyAll_cons, apply_repair hchain, applyAll_cons, apply_sync,
      applyAll_nil]
    exact hstarted.running

theorem retained_append_eq_iff (records more : List LogRecord) :
    retained (records ++ more) = retained records ↔
      if more.any LogRecord.truncateTo then retained more = retained records
      else more.flatMap entryData = [] := by
  by_cases hflag : more.any LogRecord.truncateTo = true
  · rw [retained_append records more hflag, if_pos hflag]
  · rw [Bool.not_eq_true] at hflag
    rw [retained_append_unflagged records more hflag, if_neg (by simp [hflag]),
      List.append_right_eq_self]

def WalError.isUnexpectedType : WalError → Bool
  | .unexpectedType _ => true
  | _ => false

/-- The reader stops at no frame of an unknown type, and the records that are read leave the
items as they are: none truncates the log and none is an entry, or the entries since the last
one that truncates it are the items again. -/
def Scan.harmless (scan : Scan) (items : List Bytes) : Bool :=
  !scan.readErr.isUnexpectedType &&
    if scan.records.any LogRecord.truncateTo then decide (retained scan.records = items)
    else decide (scan.records.flatMap entryData = [])

/-- Reading the tail from the CRC of the log changes nothing. -/
def harmlessTail (c : Codec) (crc : UInt32) (items : List Bytes) (t : Bytes) : Bool :=
  (readRecords c ⟨t, crc⟩).harmless items

def beginsWith (c : Codec) (type : RecordType) (t : Bytes) : Bool :=
  match readFrame t with
  | .error _ => false
  | .ok frame => (c.unmarshal (frame.payload.take frame.recLen)).any fun record =>
    record.type = type

theorem survives_iff {records : List LogRecord} {scan : Scan}
    (hchain : Chain c (segments ++ [last])) (hends : last.EndsWith c scan.readErr)
    (hrecords : recordsOf (segments ++ [last]) = records ++ scan.records)
    (he : scan.readErr = .eof ∨ scan.readErr.Repairable) :
    Survives c (retained records) (files c (segments ++ [last])) ↔
      scan.harmless (retained records) = true := by
  have hknown : scan.readErr.isUnexpectedType = false := by
    rcases he with h | h | h | h <;> simp [h, WalError.isUnexpectedType]
  have hstart := initializeAndReadAll_running hchain hends he
  have hsame : retained (records ++ scan.records) = retained records ↔
      scan.harmless (retained records) = true := by
    rw [retained_append_eq_iff, Scan.harmless, hknown]
    split <;> simp
  rw [← hsame]
  rw [hrecords] at hstart
  constructor
  · intro hsurvives
    obtain ⟨ops, w, hitems, -⟩ := hsurvives.start none
    obtain ⟨ops', w', hitems', -⟩ := hstart none
    rw [hitems] at hitems'
    simp only [Prod.mk.injEq, Except.ok.injEq] at hitems'
    exact hitems'.2.2.symm
  · intro hitems
    rw [hitems] at hstart
    exact Survives.of_running hstart

theorem harmlessTail_iff_of_garbage {crc : UInt32} {t : Bytes}
    (hchain : continuesChain crc t = false) (hanchor : beginsWith c .crcAnchor t = false) :
    harmlessTail c crc items t = true ↔ ∀ number, beginsWith c (.other number) t = false := by
  cases hframe : readFrame t with
  | error e =>
    have hread : LogRecordReader.read c ⟨t, crc⟩ = .error e := by
      simp only [LogRecordReader.read, hframe]
    rw [harmlessTail, readRecords_of_error hread]
    rcases readFrame_error hframe with rfl | rfl <;>
      simp [Scan.harmless, WalError.isUnexpectedType, beginsWith, hframe]
  | ok frame =>
    simp only [continuesChain, beginsWith, hframe] at hchain hanchor
    cases hrecord : c.unmarshal (frame.payload.take frame.recLen) with
    | none =>
      have hread : LogRecordReader.read c ⟨t, crc⟩ = .error .unmarshalPayload := by
        simp only [LogRecordReader.read, hframe, hrecord]
      rw [harmlessTail, readRecords_of_error hread]
      simp [Scan.harmless, WalError.isUnexpectedType, beginsWith, hframe, hrecord]
    | some record =>
      have hread : LogRecordReader.read c ⟨t, crc⟩ = .error
          (if record.type = .entry ∨ record.type = .control then .crc
            else .unexpectedType record.type) := by
        simp only [LogRecordReader.read, hframe, hrecord]
        cases htype : record.type <;> simp_all
      rw [harmlessTail, readRecords_of_error hread]
      cases htype : record.type <;>
        simp_all [Scan.harmless, WalError.isUnexpectedType, beginsWith]

/-- **Garbage after the log.**  The log survives a tail exactly if the tail is harmless; one that
begins with no frame that continues the chain, and with no anchor, is harmless unless it begins
with a frame of an unknown type. -/
theorem survives_garbage_iff {sessions : List Session} {last : Session}
    {w : WriteAheadLogFile} {disk : Disk} (hlog : writeLog c sessions last = .ok (w, disk))
    (t : Bytes) :
    (Survives c (retained (recordsAppended (sessions ++ [last])))
        (disk.modify w.index fun bytes => bytes ++ t) ↔
      harmlessTail c w.crc (retained (recordsAppended (sessions ++ [last]))) t = true) ∧
    (continuesChain w.crc t = false → beginsWith c .crcAnchor t = false →
      (harmlessTail c w.crc (retained (recordsAppended (sessions ++ [last]))) t = true ↔
        ∀ number, beginsWith c (.other number) t = false)) := by
  obtain ⟨segments, newest, hwriting, rfl, hitems⟩ := (Running.of_writeLog hlog).writing
  refine ⟨?_, fun hchain hanchor => harmlessTail_iff_of_garbage hchain hanchor⟩
  obtain ⟨consumed, ht, hreadable⟩ := (hwriting.chain.readable newest (by simp)).withTail t
  have hchain : Chain c (segments ++ [newest.withTail c consumed t]) :=
    hwriting.chain.replace_last (rfl : (newest.withTail c consumed t).index = newest.index) rfl
      hreadable
  have hends : (newest.withTail c consumed t).EndsWith c (readRecords c ⟨t, newest.crc⟩).readErr :=
    readRecords_stops c ⟨t, newest.crc⟩
  have hrecords : recordsOf (segments ++ [newest.withTail c consumed t]) =
      recordsOf (segments ++ [newest]) ++ (readRecords c ⟨t, newest.crc⟩).records := by
    simp [recordsOf, Segment.withTail]
  rw [← hitems, hwriting.modify_files ht, hwriting.crc, harmlessTail]
  rcases LogRecordReader.read_error hends with heof | hrepairable | ⟨type, htype⟩
  · exact survives_iff hchain hends hrecords (.inl heof)
  · exact survives_iff hchain hends hrecords (.inr hrepairable)
  · rw [htype] at hends
    constructor
    · intro hsurvives
      obtain ⟨ops, w', hstart, -⟩ := hsurvives.start none
      rw [initializeAndReadAll_fails hchain hends (by simp) rfl] at hstart
      simp at hstart
    · simp [Scan.harmless, htype, WalError.isUnexpectedType]

def oneEntry : Session := ⟨none, [.append [7] false]⟩

def wrongEntry : Bytes := protoCodec.frame 5 ⟨.entry, false, [8]⟩

def plainAnchor : Bytes := protoCodec.frame 5 anchorRecord

/-- An entry with a wrong CRC is cut off, and an anchor is read over. -/
theorem survives_wrongEntry_plainAnchor :
    ∃ w disk, writeLog protoCodec [] oneEntry = .ok (w, disk) ∧
      ∀ t ∈ [wrongEntry, plainAnchor], continuesChain w.crc t = false ∧
        Survives protoCodec [[7]] (disk.modify w.index fun bytes => bytes ++ t) := by
  have hwritten : (writeLog protoCodec [] oneEntry).toOption.any (fun log =>
      decide (∀ t ∈ [wrongEntry, plainAnchor], continuesChain log.1.crc t = false ∧
        harmlessTail protoCodec log.1.crc [[7]] t = true)) = true := by
    decide +kernel
  obtain ⟨⟨w, disk⟩, hlog, htails⟩ := exists_ok_of_any hwritten
  refine ⟨w, disk, hlog, fun t ht => ⟨(htails t ht).1, ?_⟩⟩
  exact (survives_garbage_iff hlog t).1.mpr (htails t ht).2

def flaggedAnchor : Bytes := protoCodec.frame 5 ⟨.crcAnchor, true, []⟩

/-- The reader takes the anchor without a look at its CRC, and `ReadAll` drops
the items before it. -/
theorem flaggedAnchor_drops_items :
    ∃ w disk, writeLog protoCodec [] oneEntry = .ok (w, disk) ∧
      continuesChain w.crc flaggedAnchor = false ∧
      retained (recordsAppended ([] ++ [oneEntry])) = [[7]] ∧
      ∃ ops w', initializeAndReadAll protoCodec none
        (disk.modify w.index fun bytes => bytes ++ flaggedAnchor) = (ops, .ok (w', [])) := by
  have hwritten : (writeLog protoCodec [] oneEntry).toOption.any (fun log =>
      decide (continuesChain log.1.crc flaggedAnchor = false ∧
        (initializeAndReadAll protoCodec none (log.2.modify log.1.index fun bytes =>
          bytes ++ flaggedAnchor)).2.toOption.any (fun start => decide (start.2 = []))
            = true)) = true := by
    decide +kernel
  obtain ⟨⟨w, disk⟩, hlog, hchain, hstart⟩ := exists_ok_of_any hwritten
  obtain ⟨⟨w', items⟩, hresult, hitems⟩ := exists_ok_of_any hstart
  subst hitems
  exact ⟨w, disk, hlog, hchain, by decide +kernel, _, w', Prod.ext rfl hresult⟩

end SmartBFT.Wal
