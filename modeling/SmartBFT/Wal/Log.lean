import SmartBFT.Foundation.Crash
import SmartBFT.Wal.Reader

/-!
# The write-ahead log

The directory is the list of its log files.  A call of the log reads the
directory and returns, besides its result, the file operations it carries
out; whoever runs the call applies them.  Locks, metrics and the side copy
that `Repair` keeps are left out.
-/

namespace SmartBFT.Wal

open SmartBFT.Foundation

/-! ## The directory -/

structure LogFile where
  index : Nat
  bytes : Bytes
  deriving DecidableEq, Repr

abbrev Disk := List LogFile

inductive DiskOp where
  | create (index : Nat)
  | write (index offset : Nat) (bytes : Bytes)
  | sync (index : Nat)
  | truncate (index size : Nat)
  | remove (index : Nat)
  deriving DecidableEq, Repr

def Disk.read (disk : Disk) (index : Nat) : Option Bytes :=
  (disk.find? fun file => file.index = index).map LogFile.bytes

def Disk.modify (disk : Disk) (index : Nat) (change : Bytes → Bytes) : Disk :=
  disk.map fun file =>
    if file.index = index then { file with bytes := change file.bytes } else file

/-- `os.OpenFile` with `O_CREATE` and without `O_TRUNC`. -/
def Disk.create (index : Nat) : Disk → Disk
  | [] => [⟨index, []⟩]
  | file :: files =>
    if index < file.index then ⟨index, []⟩ :: file :: files
    else if index = file.index then file :: files
    else file :: Disk.create index files

def DiskOp.apply : DiskOp → Disk → Disk
  | .create index, disk => disk.create index
  | .write index offset bytes, disk =>
    disk.modify index fun old =>
      old.take offset ++ (bytes ++ old.drop (offset + bytes.length))
  | .sync _, disk => disk
  | .truncate index size, disk => disk.modify index fun old => old.take size
  | .remove index, disk => disk.filter fun file => file.index ≠ index

/-- Of a write any number of bytes may have reached the file; the other
operations happen or do not happen. -/
def DiskOp.torn (part : Nat) : DiskOp → Disk → Disk
  | .write index offset bytes, disk =>
    DiskOp.apply (.write index offset (bytes.take part)) disk
  | _, disk => disk

/-! ## The log in memory -/

structure Options where
  fileSizeBytes : Int64 := 0
  deriving DecidableEq, Repr

def fileSizeBytesDefault : Int64 := 64 * 1024 * 1024

/-- The size that `Create` and `Open` take: the option, unless it is unset. -/
def Options.fileSize : Option Options → Int64
  | none => fileSizeBytesDefault
  | some options =>
    if options.fileSizeBytes ≠ 0 then options.fileSizeBytes else fileSizeBytesDefault

structure OpenFile where
  index : Nat
  offset : Nat
  deriving DecidableEq, Repr

structure WriteAheadLogFile where
  fileSizeBytes : Int64
  index : Nat := 0
  logFile : Option OpenFile := none
  crc : UInt32 := 0
  readMode : Bool := false
  truncateIndex : Nat := 0
  activeIndexes : List Nat := []
  -- the directory handle is gone
  closed : Bool := false
  deriving DecidableEq, Repr

/-- The log after a call, the file operations of the call, and its result. -/
structure Outcome (α : Type) where
  log : WriteAheadLogFile
  ops : List DiskOp
  result : Except WalError α

/-- Header, payload and `Sync`, as `append` and `saveCRC` write a record. -/
def OpenFile.writeFrame (c : Codec) (file : OpenFile) (crc : UInt32)
    (record : LogRecord) : List DiskOp :=
  [.write file.index file.offset (headerBytes (c.marshal record).length crc),
   .write file.index (file.offset + recordHeaderSize) (c.payload record),
   .sync file.index]

def OpenFile.advance (c : Codec) (file : OpenFile) (record : LogRecord) : OpenFile :=
  { file with offset := file.offset + recordHeaderSize + (c.payload record).length }

namespace WriteAheadLogFile

def truncateAndCloseLogFile (w : WriteAheadLogFile) : List DiskOp :=
  match w.logFile with
  | none => []
  | some file =>
    if w.readMode then [] else [.truncate file.index file.offset, .sync file.index]

def deleteAndCreateFile (c : Codec) (w : WriteAheadLogFile) : Outcome Unit :=
  let index := w.index + 1
  let obsolete := w.activeIndexes.takeWhile (· < w.truncateIndex)
  let active := w.activeIndexes.dropWhile (· < w.truncateIndex)
  if active = [] then
    -- the loop over the active indexes runs past their end
    ⟨{ w with index }, obsolete.map .remove, .error .indexOutOfRange⟩
  else
    let file : OpenFile := ⟨index, 0⟩
    ⟨{ w with
        index
        logFile := some (file.advance c anchorRecord)
        activeIndexes := active ++ [index] },
      obsolete.map .remove ++ .create index :: file.writeFrame c w.crc anchorRecord,
      .ok ()⟩

def switchFiles (c : Codec) (w : WriteAheadLogFile) : Outcome Unit :=
  if w.readMode then ⟨w, [], .error .readOnly⟩
  else
    let next := w.deleteAndCreateFile c
    { next with ops := w.truncateAndCloseLogFile ++ next.ops }

def append (c : Codec) (w : WriteAheadLogFile) (record : LogRecord) : Outcome Unit :=
  if w.closed then ⟨w, [], .error .closed⟩
  else if w.readMode then ⟨w, [], .error .readOnly⟩
  else if 2 ^ 32 ≤ (c.marshal record).length then
    ⟨w, [], .error (.recordTooBig (c.marshal record).length)⟩
  else
    match w.logFile with
    | none => ⟨w, [], .error .nilFile⟩
    | some file =>
      let dataCRC := crcUpdate w.crc (c.payload record)
      let ops := file.writeFrame c dataCRC record
      let file := file.advance c record
      let w := { w with
        crc := dataCRC
        logFile := some file
        truncateIndex := if record.truncateTo then w.index else w.truncateIndex }
      if (w.fileSizeBytes - 16).toInt < (file.offset : Int) then
        let switched := w.switchFiles c
        match switched.result with
        | .error e =>
          ⟨switched.log, ops ++ switched.ops, .error (.wrapped .switchLogFiles e)⟩
        | .ok () => ⟨switched.log, ops ++ switched.ops, .ok ()⟩
      else ⟨w, ops, .ok ()⟩

def close (w : WriteAheadLogFile) : Outcome Unit :=
  ⟨{ w with logFile := none, closed := true }, w.truncateAndCloseLogFile, .ok ()⟩

end WriteAheadLogFile

inductive Call where
  | append (data : Bytes) (truncateTo : Bool)
  | truncateTo
  deriving DecidableEq, Repr

def Call.record : Call → LogRecord
  | .append data flag => ⟨.entry, flag, data⟩
  | .truncateTo => controlRecord

def WriteAheadLogFile.call (c : Codec) (w : WriteAheadLogFile) : Call → Outcome Unit
  | .append data flag =>
    if data = [] then ⟨w, [], .error .emptyData⟩
    else w.append c (Call.append data flag).record
  | .truncateTo => w.append c Call.truncateTo.record

/-! ## Creating and opening a log -/

def create (c : Codec) (options : Option Options) (disk : Disk) :
    List DiskOp × Except WalError WriteAheadLogFile :=
  if disk ≠ [] then ([], .error .alreadyExists)
  else
    let file : OpenFile := ⟨1, 0⟩
    let w : WriteAheadLogFile :=
      { fileSizeBytes := Options.fileSize options
        index := 1
        crc := walCRCSeed
        truncateIndex := 1
        activeIndexes := [1]
        logFile := some (file.advance c anchorRecord) }
    (.create 1 :: file.writeFrame c w.crc anchorRecord, .ok w)

/-- `previous` is the index of the file before, for the check of the sequence. -/
def checkWalFiles (c : Codec) : Option Nat → Disk → Except WalError (List Nat)
  | _, [] => .ok []
  | previous, file :: files =>
    match newLogRecordReader c file.bytes with
    | .error e =>
      if files = [] then .error .unexpectedEOF
      else .error (.wrapped (.createReader file.index) e)
    | .ok _ =>
      if previous.all (fun previous => file.index = previous + 1) then
        match checkWalFiles c (some file.index) files with
        | .error e => .error e
        | .ok indexes => .ok (file.index :: indexes)
      else .error .notInSequence

def openLog (c : Codec) (options : Option Options) (disk : Disk) :
    Except WalError WriteAheadLogFile :=
  match disk with
  | [] => .error .notExist
  | file :: _ =>
    match checkWalFiles c none disk with
    | .error e => .error e
    | .ok indexes =>
      .ok
        { fileSizeBytes := Options.fileSize options
          index := file.index
          readMode := true
          activeIndexes := indexes }

/-! ## Reading a log -/

structure ReadState where
  index : Nat
  crc : UInt32
  truncateIndex : Nat
  items : List Bytes
  deriving DecidableEq, Repr

def ReadState.take (s : ReadState) (record : LogRecord) : ReadState :=
  let s :=
    if record.truncateTo then { s with items := [], truncateIndex := s.index } else s
  if record.type = .entry then { s with items := s.items ++ [record.data] } else s

/-- The loop of `ReadAll` over the active files; `first` is the file whose
anchor is not compared with a CRC before it. -/
def readFiles (c : Codec) (disk : Disk) (lastIndex : Nat) :
    Bool → List Nat → ReadState → ReadState × Except WalError Unit
  | _, [], s => (s, .ok ())
  | first, index :: indexes, s =>
    let s := { s with index }
    match disk.read index with
    | none => (s, .error .notExist)
    | some bytes =>
      match newLogRecordReader c bytes with
      | .error e => (s, .error e)
      | .ok r =>
        if !first && r.crc ≠ s.crc then (s, .error .crc)
        else
          let scan := readRecords c r
          let s := scan.records.foldl ReadState.take s
          if scan.readErr = .eof then
            readFiles c disk lastIndex false indexes
              { s with crc := scan.reader.crc }
          else if index = lastIndex ∧
              (scan.readErr = .unexpectedEOF ∨ scan.readErr = .crc ∨
                scan.readErr = .unmarshalPayload) then
            (s, .error .unexpectedEOF)
          else (s, .error (.wrapped .failedReading scan.readErr))

/-- The loop of `ReadAll` works on the fields of the log. -/
def WriteAheadLogFile.withRead (w : WriteAheadLogFile) (s : ReadState) :
    WriteAheadLogFile :=
  { w with index := s.index, crc := s.crc, truncateIndex := s.truncateIndex }

def WriteAheadLogFile.readAll (c : Codec) (w : WriteAheadLogFile) (disk : Disk) :
    Outcome (List Bytes) :=
  if w.closed then ⟨w, [], .error .closed⟩
  else if !w.readMode then ⟨w, [], .error .writeOnly⟩
  else
    match w.activeIndexes.getLast? with
    | none => ⟨w, [], .error .indexOutOfRange⟩
    | some lastIndex =>
      let (s, outcome) := readFiles c disk lastIndex true w.activeIndexes
        ⟨w.index, w.crc, w.truncateIndex, []⟩
      match outcome with
      | .error e => ⟨w.withRead s, [], .error e⟩
      | .ok () =>
        let next := (w.withRead s).deleteAndCreateFile c
        match next.result with
        | .error e => ⟨next.log, next.ops, .error e⟩
        | .ok () => ⟨{ next.log with readMode := false }, next.ops, .ok s.items⟩

/-! ## Repairing the last file -/

def scanVerify1 (c : Codec) (r : LogRecordReader) : Except WalError UInt32 :=
  let scan := readRecords c r
  if scan.readErr = .eof then .ok scan.reader.crc else .error scan.readErr

/-- `previous` is the final CRC of the file before. -/
def scanVerifyFiles (c : Codec) : Option UInt32 → List LogFile → Except WalError Unit
  | _, [] => .ok ()
  | previous, file :: files =>
    match newLogRecordReader c file.bytes with
    | .error e => .error e
    | .ok r =>
      if previous.all (fun crc => crc = r.crc) then
        match scanVerify1 c r with
        | .error e => .error e
        | .ok crc => scanVerifyFiles c (some crc) files
      else .error .crc

def scanRepairFile (c : Codec) (file : LogFile) : List DiskOp :=
  match newLogRecordReader c file.bytes with
  | .error _ => [.remove file.index]
  | .ok r =>
    let scan := readRecords c r
    if scan.readErr = .eof then []
    else
      -- the offset after the last good record
      let offset := file.bytes.length - scan.reader.rest.length
      [.truncate file.index offset, .sync file.index]

def repair (c : Codec) (disk : Disk) : List DiskOp × Except WalError Unit :=
  match disk.getLast? with
  | none => ([], .error .notExist)
  | some lastFile =>
    match scanVerifyFiles c none disk.dropLast with
    | .error e => ([], .error e)
    | .ok () => (scanRepairFile c lastFile, .ok ())

/-! ## Start-up -/

def initializeAndReadAll (c : Codec) (options : Option Options) (disk : Disk) :
    List DiskOp × Except WalError (WriteAheadLogFile × List Bytes) :=
  match create c options disk with
  | (ops, .ok w) => (ops, .ok (w, []))
  | (ops, .error e) =>
    if !e.is .alreadyExists then (ops, .error (.wrapped .cannotCreate e))
    else
      match openLog c options disk with
      | .error e => ([], .error (.wrapped .cannotOpen e))
      | .ok w =>
        let read := w.readAll c disk
        match read.result with
        | .ok items => (read.ops, .ok (read.log, items))
        | .error e =>
          if !e.is .unexpectedEOF then
            (read.ops, .error (.wrapped .cannotReadInitialState e))
          else
            match repair c disk with
            | (ops, .error e) => (read.ops ++ ops, .error (.wrapped .cannotRepair e))
            | (ops, .ok ()) =>
              let reread := read.log.readAll c
                (applyAll DiskOp.apply (read.ops ++ ops) disk)
              match reread.result with
              | .error e =>
                (read.ops ++ ops ++ reread.ops,
                  .error (.wrapped .cannotReadAfterRepair e))
              | .ok items =>
                (read.ops ++ ops ++ reread.ops, .ok (reread.log, items))

end SmartBFT.Wal
