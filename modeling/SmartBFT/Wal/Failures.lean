import SmartBFT.Foundation.Run
import SmartBFT.Wal.Recovery

/-!
# Calls that fail

A file operation of a call can fail.  The call returns the error at once: what
it wrote stays in the file, the fields it changed stay changed, and the next
call goes on from there.  `…Fails` gives what a function leaves when it fails at
a step, and nothing when it does not come to that step.
-/

namespace SmartBFT.Wal

open SmartBFT.Foundation

variable {c : Codec}

/-! ## Where a call fails -/

/-- The file operations that write a frame; of a write that fails, the first
`written` bytes are in the file. -/
inductive FrameStep where
  | header (written : Nat)
  | payload (written : Nat)
  | sync
  deriving DecidableEq, Repr

/-- The file operations of `switchFiles`, in their order. -/
inductive SwitchStep where
  | seekCurrent
  | truncate
  | sync
  | close
  -- `removed` obsolete files are gone
  | remove (removed : Nat)
  | openFile
  | seekStart
  | seekAnchor
  | saveCRC (step : FrameStep)
  deriving DecidableEq, Repr

inductive AppendStep where
  | frame (step : FrameStep)
  | seek
  | switchFiles (step : SwitchStep)
  deriving DecidableEq, Repr

inductive CallError where
  | wal (e : WalError)
  | failed (step : AppendStep)
  deriving DecidableEq, Repr

/-- The log, and whether the file it refers to is closed: whatever is done
with a closed file fails. -/
structure FallibleLog where
  log : WriteAheadLogFile
  fileClosed : Bool := false
  deriving DecidableEq, Repr

structure Stop where
  log : FallibleLog
  ops : List DiskOp

def Stop.after (ops : List DiskOp) (stop : Stop) : Stop :=
  { stop with ops := ops ++ stop.ops }

def FrameStep.ops (c : Codec) (file : OpenFile) (crc : UInt32) (record : LogRecord) :
    FrameStep → List DiskOp
  | .header written =>
    [.write file.index file.offset
      ((headerBytes (c.marshal record).length crc).take written)]
  | .payload written =>
    [.write file.index file.offset (headerBytes (c.marshal record).length crc),
     .write file.index (file.offset + recordHeaderSize) ((c.payload record).take written)]
  | .sync =>
    [.write file.index file.offset (headerBytes (c.marshal record).length crc),
     .write file.index (file.offset + recordHeaderSize) (c.payload record)]

def FrameStep.file (c : Codec) (file : OpenFile) (record : LogRecord) : FrameStep → OpenFile
  | .header written => { file with offset := file.offset + min written recordHeaderSize }
  | .payload written =>
    { file with
      offset := file.offset + recordHeaderSize + min written (c.payload record).length }
  | .sync => file.advance c record

namespace WriteAheadLogFile

def createFileFails (c : Codec) (w : WriteAheadLogFile) : SwitchStep → Option Stop
  | .openFile => some ⟨⟨{ w with logFile := none }, false⟩, []⟩
  | .seekStart | .seekAnchor =>
    some ⟨⟨{ w with logFile := some ⟨w.index, 0⟩ }, false⟩, [.create w.index]⟩
  | .saveCRC step =>
    let file : OpenFile := ⟨w.index, 0⟩
    some ⟨⟨{ w with logFile := some (step.file c file anchorRecord) }, false⟩,
      .create w.index :: step.ops c file w.crc anchorRecord⟩
  | _ => none

def deleteAndCreateFileFails (c : Codec) (w : WriteAheadLogFile) (step : SwitchStep) :
    Option Stop :=
  let index := w.index + 1
  let removes := (w.activeIndexes.takeWhile (· < w.truncateIndex)).map DiskOp.remove
  let active := w.activeIndexes.dropWhile (· < w.truncateIndex)
  match step with
  | .remove removed =>
    -- the log still refers to the file before, which is closed
    if removed < removes.length then
      some ⟨⟨{ w with index }, true⟩, removes.take removed⟩
    else none
  | step =>
    if active = [] then none
    else
      (createFileFails c { w with index, activeIndexes := active } step).map
        (Stop.after removes)

def switchFilesFails (c : Codec) (w : WriteAheadLogFile) (file : OpenFile) :
    SwitchStep → Option Stop
  | .seekCurrent | .truncate => some ⟨⟨w, false⟩, []⟩
  | .sync => some ⟨⟨w, false⟩, [.truncate file.index file.offset]⟩
  | .close => some ⟨⟨w, true⟩, [.truncate file.index file.offset, .sync file.index]⟩
  | step =>
    (w.deleteAndCreateFileFails c step).map
      (Stop.after [.truncate file.index file.offset, .sync file.index])

def appendFails (c : Codec) (w : WriteAheadLogFile) (file : OpenFile) (record : LogRecord)
    (step : AppendStep) : Option Stop :=
  let dataCRC := crcUpdate w.crc (c.payload record)
  match step with
  | .frame step =>
    some ⟨⟨{ w with logFile := some (step.file c file record) }, false⟩,
      step.ops c file dataCRC record⟩
  | .seek =>
    some ⟨⟨{ w with crc := dataCRC, logFile := some (file.advance c record) }, false⟩,
      file.writeFrame c dataCRC record⟩
  | .switchFiles step =>
    let written : WriteAheadLogFile := { w with
      crc := dataCRC
      logFile := some (file.advance c record)
      truncateIndex := if record.truncateTo then w.index else w.truncateIndex }
    if (w.fileSizeBytes - 16).toInt < ((file.advance c record).offset : Int) then
      (written.switchFilesFails c (file.advance c record) step).map
        (Stop.after (file.writeFrame c dataCRC record))
    else none

end WriteAheadLogFile

structure Attempt where
  log : FallibleLog
  ops : List DiskOp
  result : Except CallError Unit

def Outcome.attempt (outcome : Outcome Unit) : Attempt :=
  ⟨⟨outcome.log, false⟩, outcome.ops, outcome.result.mapError .wal⟩

namespace FallibleLog

/-- `append`, of which the file operation `fault` fails. -/
def append (c : Codec) (w : FallibleLog) (record : LogRecord) (fault : Option AppendStep) :
    Attempt :=
  if w.log.closed then ⟨w, [], .error (.wal .closed)⟩
  else if w.log.readMode then ⟨w, [], .error (.wal .readOnly)⟩
  else if 2 ^ 32 ≤ (c.marshal record).length then
    ⟨w, [], .error (.wal (.recordTooBig (c.marshal record).length))⟩
  else
    match w.log.logFile with
    | none => ⟨w, [], .error (.failed (.frame (.header 0)))⟩
    | some file =>
      if w.fileClosed then ⟨w, [], .error (.failed (.frame (.header 0)))⟩
      else
        match fault with
        | none => (w.log.append c record).attempt
        | some step =>
          match w.log.appendFails c file record step with
          | none => (w.log.append c record).attempt
          | some stop => ⟨stop.log, stop.ops, .error (.failed step)⟩

def call (c : Codec) (w : FallibleLog) (call : Call) (fault : Option AppendStep) : Attempt :=
  match call with
  | .append data flag =>
    if data = [] then ⟨w, [], .error (.wal .emptyData)⟩
    else w.append c (Call.append data flag).record fault
  | .truncateTo => w.append c Call.truncateTo.record fault

def Dead (w : FallibleLog) : Prop :=
  w.fileClosed = true ∨ w.log.logFile = none

theorem Dead.append {w : FallibleLog} (h : w.Dead) (record : LogRecord)
    (fault : Option AppendStep) : ∃ e, w.append c record fault = ⟨w, [], .error e⟩ := by
  simp only [FallibleLog.append]
  split
  · exact ⟨_, rfl⟩
  split
  · exact ⟨_, rfl⟩
  split
  · exact ⟨_, rfl⟩
  rcases h with hclosed | hnil
  · cases w.log.logFile with
    | none => exact ⟨_, rfl⟩
    | some file => exact ⟨_, if_pos hclosed⟩
  · rw [hnil]
    exact ⟨_, rfl⟩

theorem Dead.call {w : FallibleLog} (h : w.Dead) (call : Call) (fault : Option AppendStep) :
    ∃ e, w.call c call fault = ⟨w, [], .error e⟩ := by
  cases call with
  | append data flag =>
    by_cases hempty : data = []
    · exact ⟨_, if_pos hempty⟩
    · obtain ⟨e, happend⟩ := @Dead.append c w h (Call.append data flag).record fault
      exact ⟨e, (if_neg hempty).trans happend⟩
  | truncateTo => exact h.append _ fault

end FallibleLog

/-! ## A failed call and a crash -/

/-- The operations of a call that failed: a first part of those of the whole
call, the last of them perhaps a write of fewer bytes. -/
inductive CutShort : List DiskOp → List DiskOp → Prop
  | before (ops : List DiskOp) : CutShort [] ops
  | within (index offset : Nat) (bytes : Bytes) (written : Nat) (ops : List DiskOp) :
      CutShort [.write index offset (bytes.take written)]
        (.write index offset bytes :: ops)
  | after (op : DiskOp) {failed ops : List DiskOp} (rest : CutShort failed ops) :
      CutShort (op :: failed) (op :: ops)

theorem DiskOp.torn_zero (op : DiskOp) (disk : Disk) : op.torn 0 disk = disk := by
  cases op with
  | write index offset bytes =>
    simp [DiskOp.torn, DiskOp.apply, Disk.modify]
  | _ => rfl

theorem CutShort.of_crashSafe {failed ops : List DiskOp} {condition : Disk → Prop}
    {disk : Disk} (h : CutShort failed ops)
    (hsafe : CrashSafe DiskOp.apply DiskOp.torn condition ops disk) :
    condition (applyAll DiskOp.apply failed disk) := by
  induction h generalizing disk with
  | before ops =>
    cases ops with
    | nil => exact hsafe 0 0
    | cons op ops =>
      have hnone : condition (op.torn 0 disk) := hsafe 0 0
      rwa [op.torn_zero] at hnone
  | within index offset bytes written ops => exact hsafe 0 written
  | after op rest ih => exact ih fun done part => hsafe (done + 1) part

theorem CutShort.append_left {failed more : List DiskOp} (ops : List DiskOp)
    (h : CutShort failed more) : CutShort (ops ++ failed) (ops ++ more) := by
  induction ops with
  | nil => exact h
  | cons op ops ih => exact .after op ih

theorem CutShort.append_right {failed ops : List DiskOp} (h : CutShort failed ops)
    (more : List DiskOp) : CutShort failed (ops ++ more) := by
  induction h with
  | before ops => exact .before _
  | within index offset bytes written ops => exact .within index offset bytes written _
  | after op rest ih => exact .after op ih

theorem CutShort.of_take (n : Nat) (ops : List DiskOp) : CutShort (ops.take n) ops := by
  have h := CutShort.append_left (ops.take n) (.before (ops.drop n))
  rwa [List.append_nil, List.take_append_drop] at h

theorem FrameStep.cutShort (step : FrameStep) (file : OpenFile) (crc : UInt32)
    (record : LogRecord) : CutShort (step.ops c file crc record)
      (file.writeFrame c crc record) := by
  cases step with
  | header written => exact .within _ _ _ written _
  | payload written => exact .after _ (.within _ _ _ written _)
  | sync => exact .after _ (.after _ (.before _))

namespace WriteAheadLogFile

variable {w : WriteAheadLogFile} {file : OpenFile} {record : LogRecord} {stop : Stop}

theorem createFileFails_cutShort {step : SwitchStep}
    (h : w.createFileFails c step = some stop) :
    CutShort stop.ops
      (.create w.index :: OpenFile.writeFrame c ⟨w.index, 0⟩ w.crc anchorRecord) := by
  cases step with
  | openFile =>
    cases h
    exact .before _
  | seekStart | seekAnchor =>
    cases h
    exact .after _ (.before _)
  | saveCRC step =>
    cases h
    exact .after _ (step.cutShort _ _ _)
  | _ => simp [createFileFails] at h

theorem deleteAndCreateFileFails_cutShort {step : SwitchStep}
    (h : w.deleteAndCreateFileFails c step = some stop) :
    CutShort stop.ops (w.deleteAndCreateFile c).ops := by
  simp only [WriteAheadLogFile.deleteAndCreateFile]
  cases step with
  | remove removed =>
    simp only [deleteAndCreateFileFails] at h
    split at h
    · cases h
      split
      · exact .of_take removed _
      · exact (CutShort.of_take removed _).append_right _
    · cases h
  | _ =>
    simp only [deleteAndCreateFileFails] at h
    split at h
    · cases h
    · rename_i hactive
      obtain ⟨next, hnext, rfl⟩ := Option.map_eq_some_iff.mp h
      rw [if_neg hactive]
      exact (createFileFails_cutShort hnext).append_left _

theorem switchFilesFails_cutShort {step : SwitchStep} (hmode : w.readMode = false)
    (hfile : w.logFile = some file) (h : w.switchFilesFails c file step = some stop) :
    CutShort stop.ops (w.switchFiles c).ops := by
  simp only [switchFiles, truncateAndCloseLogFile, hfile, hmode, Bool.false_eq_true, if_false]
  cases step with
  | seekCurrent | truncate =>
    cases h
    exact .before _
  | sync =>
    cases h
    exact .after _ (.before _)
  | close =>
    cases h
    exact .after _ (.after _ (.before _))
  | _ =>
    obtain ⟨next, hnext, rfl⟩ := Option.map_eq_some_iff.mp h
    exact (deleteAndCreateFileFails_cutShort hnext).append_left _

end WriteAheadLogFile

/-! ## Failures that leave the log in step with its files -/

def Usable (c : Codec) (items : List Bytes) (w : FallibleLog) (disk : Disk) : Prop :=
  (w.fileClosed = false ∧ Running c w.log disk items) ∨ (w.Dead ∧ Whole c items disk)

/-- The failures before the next file is open. -/
def SwitchStep.harmless : SwitchStep → Bool
  | .seekCurrent | .truncate | .sync | .close | .remove _ | .openFile => true
  | .seekStart | .seekAnchor | .saveCRC _ => false

/-- No byte of a frame is in the file, or all of them and the CRC has moved on. -/
def AppendStep.harmless : AppendStep → Bool
  | .frame step => step = .header 0
  | .seek => true
  | .switchFiles step => step.harmless

theorem Complete.whole_removed {w : WriteAheadLogFile} {segments : List Segment}
    {last : Segment} (h : Complete c w segments last) (removed : Nat) :
    Whole c (retained (recordsOf (segments ++ [last])))
      (applyAll DiskOp.apply
        (((w.activeIndexes.takeWhile (· < w.truncateIndex)).map .remove).take removed)
        (files c (segments ++ [last]))) := by
  let obsolete := (segments ++ [last]).takeWhile (Segment.obsolete w.truncateIndex)
  let needed := (segments ++ [last]).dropWhile (Segment.obsolete w.truncateIndex)
  have hsplit : obsolete.take removed ++ (obsolete.drop removed ++ needed) =
      segments ++ [last] := by
    rw [← List.append_assoc, List.take_append_drop]
    exact List.takeWhile_append_dropWhile
  have hchain : Chain c (obsolete.take removed ++ (obsolete.drop removed ++ needed)) := by
    rw [hsplit]
    exact h.chain
  have hremoved := applyAll_removes hchain
  rw [hsplit] at hremoved
  rw [h.obsolete_eq, ← List.map_take, ← List.map_take, hremoved]
  exact Whole.of_suffix h (List.drop_suffix removed obsolete)

namespace Writing

variable {w : WriteAheadLogFile} {segments : List Segment} {last : Segment}
  {record : LogRecord} {stop : Stop}

theorem usable (h : Writing c w segments last) :
    Usable c (retained (recordsOf (segments ++ [last]))) ⟨w, false⟩
      (files c (segments ++ [last])) :=
  .inl ⟨rfl, segments, last, h, rfl, rfl⟩

theorem switchFilesFails_usable (h : Writing c w segments last) {step : SwitchStep}
    (hharmless : step.harmless = true)
    (hstop : w.switchFilesFails c ⟨last.index, (last.bytes c).length⟩ step = some stop) :
    Usable c (retained (recordsOf (segments ++ [last]))) stop.log
      (applyAll DiskOp.apply stop.ops (files c (segments ++ [last]))) := by
  cases step with
  | seekCurrent | truncate =>
    cases hstop
    exact h.usable
  | sync =>
    cases hstop
    rw [applyAll_cons, h.apply_truncate]
    exact h.usable
  | close =>
    cases hstop
    rw [applyAll_cons, h.apply_truncate]
    exact .inr ⟨.inl rfl, h.whole⟩
  | remove removed =>
    obtain ⟨next, hnext, rfl⟩ := Option.map_eq_some_iff.mp hstop
    simp only [WriteAheadLogFile.deleteAndCreateFileFails] at hnext
    split at hnext
    · cases hnext
      rw [Stop.after, applyAll_append, applyAll_cons, h.apply_truncate]
      exact .inr ⟨.inl rfl, h.whole_removed removed⟩
    · cases hnext
  | openFile =>
    obtain ⟨next, hnext, rfl⟩ := Option.map_eq_some_iff.mp hstop
    simp only [WriteAheadLogFile.deleteAndCreateFileFails] at hnext
    split at hnext
    · cases hnext
    · cases hnext
      have hwhole := h.whole_removed
        ((w.activeIndexes.takeWhile (· < w.truncateIndex)).map DiskOp.remove).length
      rw [List.take_length] at hwhole
      simp only [Stop.after, applyAll_append, applyAll_cons, h.apply_truncate, applyAll_nil]
      exact .inr ⟨.inr rfl, hwhole⟩
  | seekStart | seekAnchor | saveCRC step => cases hharmless

theorem appendFails_switchFiles (h : Writing c w segments last) (record : LogRecord)
    (step : SwitchStep) :
    w.appendFails c ⟨last.index, (last.bytes c).length⟩ record (.switchFiles step) =
      if ((written c w last record).fileSizeBytes - 16).toInt <
          (((last.add c record).bytes c).length : Int) then
        ((written c w last record).switchFilesFails c
            ⟨last.index, ((last.add c record).bytes c).length⟩ step).map
          (Stop.after (frameOps c last record))
      else none := by
  simp only [WriteAheadLogFile.appendFails, h.writeFrame_eq, h.advance_eq]
  rfl

theorem appendFails_cutShort (h : Writing c w segments last) (happ : c.Appendable record)
    {step : AppendStep}
    (hstop : w.appendFails c ⟨last.index, (last.bytes c).length⟩ record step = some stop) :
    CutShort stop.ops (w.append c record).ops := by
  cases step with
  | frame step =>
    cases hstop
    have hframe := @FrameStep.cutShort c step ⟨last.index, (last.bytes c).length⟩
      (crcUpdate w.crc (c.payload record)) record
    rw [h.writeFrame_eq] at hframe
    rcases h.append_cases happ with happend | happend
    · rw [happend]
      exact hframe
    · rw [happend]
      exact hframe.append_right _
  | seek =>
    cases hstop
    rw [h.writeFrame_eq]
    have hwhole := CutShort.append_left (frameOps c last record) (.before [])
    rw [List.append_nil] at hwhole
    rcases h.append_cases happ with happend | happend
    · rw [happend]
      exact hwhole
    · rw [happend]
      exact hwhole.append_right _
  | switchFiles step =>
    rw [h.appendFails_switchFiles] at hstop
    split at hstop
    · rename_i hswitch
      obtain ⟨next, hnext, rfl⟩ := Option.map_eq_some_iff.mp hstop
      have hadd := h.add happ
      have hcut := WriteAheadLogFile.switchFilesFails_cutShort hadd.readMode rfl hnext
      rw [h.append_eq happ, if_pos hswitch]
      dsimp only
      split
      · exact hcut.append_left _
      · exact hcut.append_left _
    · cases hstop

theorem appendFails_usable (h : Writing c w segments last) (happ : c.Appendable record)
    (hflag : record.truncateTo = false) {step : AppendStep}
    (hharmless : step.harmless = true)
    (hstop : w.appendFails c ⟨last.index, (last.bytes c).length⟩ record step = some stop) :
    ∃ items, (items = retained (recordsOf (segments ++ [last])) ∨
        items = keep (retained (recordsOf (segments ++ [last]))) record) ∧
      Usable c items stop.log
        (applyAll DiskOp.apply stop.ops (files c (segments ++ [last]))) := by
  have hadd := h.add happ
  have hitems : retained (recordsOf (segments ++ [last.add c record])) =
      keep (retained (recordsOf (segments ++ [last]))) record := by
    rw [recordsOf_add, retained_concat]
  cases step with
  | frame step =>
    have hstep : step = .header 0 := of_decide_eq_true hharmless
    subst hstep
    cases hstop
    refine ⟨_, .inl rfl, .inl ⟨rfl, segments, last, ?_, ?_, rfl⟩⟩
    · exact { h with logFile := by simp [FrameStep.file] }
    · exact (DiskOp.write last.index (last.bytes c).length _).torn_zero _
  | seek =>
    have hlog : ({ w with
        crc := crcUpdate w.crc (c.payload record)
        logFile := some ((⟨last.index, (last.bytes c).length⟩ : OpenFile).advance c record) } :
        WriteAheadLogFile) = written c w last record := by
      simp only [h.advance_eq, written, hflag, Bool.false_eq_true, if_false]
      rfl
    cases hstop
    rw [h.writeFrame_eq, h.applyAll_frameOps, hlog]
    exact ⟨_, .inr hitems, hadd.usable⟩
  | switchFiles step =>
    rw [h.appendFails_switchFiles] at hstop
    split at hstop
    · obtain ⟨next, hnext, rfl⟩ := Option.map_eq_some_iff.mp hstop
      have husable := hadd.switchFilesFails_usable hharmless hnext
      rw [Stop.after, applyAll_append, h.applyAll_frameOps]
      exact ⟨_, .inr hitems, husable⟩
    · cases hstop

end Writing

/-! ## Using a log that fails -/

theorem FallibleLog.call_cases {w : FallibleLog} {segments : List Segment} {last : Segment}
    (h : Writing c w.log segments last) (hopen : w.fileClosed = false) (call : Call)
    (fault : Option AppendStep) :
    (∃ e, w.call c call fault = ⟨w, [], .error e⟩) ∨
      (call.Valid c ∧
        w.call c call fault = (w.log.append c call.record).attempt) ∨
      call.Valid c ∧ ∃ step stop, fault = some step ∧
        w.log.appendFails c ⟨last.index, (last.bytes c).length⟩ call.record step =
          some stop ∧
        w.call c call fault = ⟨stop.log, stop.ops, .error (.failed step)⟩ := by
  by_cases hvalid : call.Valid c
  · right
    have hfits : ¬ 2 ^ 32 ≤ (c.marshal call.record).length := by
      have := hvalid.appendable.fits
      omega
    have hcall : w.call c call fault = w.append c call.record fault := by
      cases call with
      | append data flag => exact if_neg hvalid.1
      | truncateTo => rfl
    rw [hcall]
    simp only [FallibleLog.append, h.closed, h.readMode, h.logFile, hfits, hopen,
      Bool.false_eq_true, if_false]
    cases fault with
    | none => exact .inl ⟨hvalid, rfl⟩
    | some step =>
      simp only []
      split
      · exact .inl ⟨hvalid, rfl⟩
      · rename_i stop hstop
        exact .inr ⟨hvalid, step, stop, rfl, hstop, rfl⟩
  · left
    obtain ⟨data, flag, rfl, hempty | ⟨hne, hbig⟩⟩ := Call.exists_of_not_valid hvalid
    · exact ⟨.wal .emptyData, if_pos hempty⟩
    · refine ⟨.wal (.recordTooBig (c.marshal (Call.append data flag).record).length), ?_⟩
      simp only [FallibleLog.call, hne, FallibleLog.append, h.closed, h.readMode, hbig,
        if_false, if_true, Bool.false_eq_true]

structure Use where
  call : Call
  fault : Option AppendStep := none
  deriving DecidableEq, Repr

/-- A log in use, its directory and the items that were acknowledged. -/
structure InUse where
  log : FallibleLog
  disk : Disk
  acked : List Bytes

/-- The caller goes on with the log whatever the call returned. -/
def InUse.step (c : Codec) (s : InUse) (use : Use) : InUse :=
  let attempt := s.log.call c use.call use.fault
  { log := attempt.log
    disk := applyAll DiskOp.apply attempt.ops s.disk
    acked :=
      match attempt.result with
      | .ok () => keep s.acked use.call.record
      | .error _ => s.acked }

def InUse.uses (c : Codec) (s : InUse) (uses : List Use) : InUse :=
  uses.foldl (InUse.step c) s

def InUse.Sound (c : Codec) (s : InUse) : Prop :=
  ∃ items, s.acked.Sublist items ∧ Usable c items s.log s.disk

def InUse.Recoverable (c : Codec) (s : InUse) : Prop :=
  (∃ items, s.acked.Sublist items ∧ Whole c items s.disk) ∨ Unanchored c s.disk

def Use.allowed (use : Use) : Bool :=
  !use.call.record.truncateTo || use.fault.isNone

def Use.harmless (use : Use) : Bool :=
  use.fault.all AppendStep.harmless

/-- The next start succeeds and gives what was acknowledged, in order. -/
def InUse.Recovers (c : Codec) (s : InUse) (options : Option Options) : Prop :=
  ∃ ops w items, initializeAndReadAll c options s.disk = (ops, .ok (w, items)) ∧
    s.acked.Sublist items

theorem sublist_keep {acked items : List Bytes} (h : acked.Sublist items)
    (record : LogRecord) : (keep acked record).Sublist (keep items record) := by
  simp only [keep]
  split
  · exact List.Sublist.refl _
  · exact h.append_right _

theorem sublist_keep_of_not_truncateTo {acked items : List Bytes} (h : acked.Sublist items)
    {record : LogRecord} (hflag : record.truncateTo = false) :
    acked.Sublist (keep items record) := by
  simp only [keep, hflag, Bool.false_eq_true, if_false]
  exact h.trans (List.sublist_append_left _ _)

theorem InUse.Sound.exists_whole {s : InUse} (h : s.Sound c) :
    ∃ items, s.acked.Sublist items ∧ Whole c items s.disk := by
  obtain ⟨items, hacked, ⟨-, hrunning⟩ | ⟨-, hwhole⟩⟩ := h
  · exact ⟨items, hacked, hrunning.whole⟩
  · exact ⟨items, hacked, hwhole⟩

theorem InUse.Sound.recoverable {s : InUse} (h : s.Sound c) : s.Recoverable c :=
  .inl h.exists_whole

theorem InUse.step_of_error {s : InUse} {use : Use} {log : FallibleLog}
    {ops : List DiskOp} {e : CallError}
    (h : s.log.call c use.call use.fault = ⟨log, ops, .error e⟩) :
    s.step c use = ⟨log, applyAll DiskOp.apply ops s.disk, s.acked⟩ := by
  simp only [InUse.step, h]

theorem InUse.Sound.of_appended {s : InUse} {use : Use} {items : List Bytes}
    (hacked : s.acked.Sublist items)
    (hcall : s.log.call c use.call use.fault = (s.log.log.append c use.call.record).attempt)
    (happended : Appended c s.disk items use.call.record
      (s.log.log.append c use.call.record)) : (s.step c use).Sound c := by
  have hstep : s.step c use = ⟨⟨(s.log.log.append c use.call.record).log, false⟩,
      applyAll DiskOp.apply (s.log.log.append c use.call.record).ops s.disk,
      keep s.acked use.call.record⟩ := by
    simp only [InUse.step, hcall, Outcome.attempt, happended.ok, Except.mapError]
  rw [hstep]
  exact ⟨_, sublist_keep hacked _, .inl ⟨rfl, happended.running⟩⟩

theorem InUse.Sound.step {s : InUse} (h : s.Sound c) {use : Use} (hallowed : use.allowed = true) :
    (s.step c use).Recoverable c ∧
      (use.harmless = true → (s.step c use).Sound c) := by
  obtain ⟨items, hacked, ⟨hopen, hrunning⟩ | ⟨hdead, hwhole⟩⟩ := h
  · obtain ⟨segments, last, hwriting, hdisk, hitems⟩ := hrunning.writing
    rcases FallibleLog.call_cases hwriting hopen use.call use.fault with
      ⟨e, hcall⟩ | ⟨hvalid, hcall⟩ | ⟨hvalid, step, stop, hfault, hstop, hcall⟩
    · rw [InUse.step_of_error hcall]
      have hsound : InUse.Sound c ⟨s.log, s.disk, s.acked⟩ :=
        ⟨items, hacked, .inl ⟨hopen, hrunning⟩⟩
      exact ⟨hsound.recoverable, fun _ => hsound⟩
    · have hsound := InUse.Sound.of_appended hacked hcall (hrunning.append hvalid.appendable)
      exact ⟨hsound.recoverable, fun _ => hsound⟩
    · have hflag : use.call.record.truncateTo = false := by
        simpa [Use.allowed, hfault] using hallowed
      have hkept := sublist_keep_of_not_truncateTo hacked hflag
      rw [InUse.step_of_error hcall]
      constructor
      · have hcut := hwriting.appendFails_cutShort hvalid.appendable hstop
        rcases hcut.of_crashSafe (hrunning.append hvalid.appendable).safe with
          hold | hnew | htorn
        · exact .inl ⟨items, hacked, hold⟩
        · exact .inl ⟨_, hkept, hnew⟩
        · exact .inr htorn
      · intro hharmless
        rw [Use.harmless, hfault, Option.all_some] at hharmless
        obtain ⟨items', hcases, husable⟩ :=
          hwriting.appendFails_usable hvalid.appendable hflag hharmless hstop
        rw [hitems] at hcases
        rw [← hdisk] at husable
        rcases hcases with rfl | rfl
        · exact ⟨_, hacked, husable⟩
        · exact ⟨_, hkept, husable⟩
  · obtain ⟨e, hcall⟩ := @FallibleLog.Dead.call c s.log hdead use.call use.fault
    rw [InUse.step_of_error hcall]
    have hsound : InUse.Sound c ⟨s.log, s.disk, s.acked⟩ :=
      ⟨items, hacked, .inr ⟨hdead, hwhole⟩⟩
    exact ⟨hsound.recoverable, fun _ => hsound⟩

theorem InUse.Sound.uses {s : InUse} (h : s.Sound c) {uses : List Use}
    (hallowed : ∀ use ∈ uses, use.allowed = true)
    (hharmless : ∀ use ∈ uses, use.harmless = true) :
    (s.uses c uses).Sound c := by
  induction uses generalizing s with
  | nil => exact h
  | cons use uses ih =>
    have hstep := h.step (hallowed use (List.mem_cons_self ..))
    exact ih (hstep.2 (hharmless use (List.mem_cons_self ..)))
      (fun other hother => hallowed other (List.mem_cons_of_mem _ hother))
      fun other hother => hharmless other (List.mem_cons_of_mem _ hother)

theorem InUse.Sound.uses_dropLast {s : InUse} (h : s.Sound c) {uses : List Use}
    (hallowed : ∀ use ∈ uses, use.allowed = true)
    (hharmless : ∀ use ∈ uses.dropLast, use.harmless = true) :
    (s.uses c uses).Recoverable c := by
  rcases List.eq_nil_or_concat uses with rfl | ⟨before, last, rfl⟩
  · exact h.recoverable
  · rw [List.concat_eq_append] at hallowed hharmless ⊢
    rw [List.dropLast_concat] at hharmless
    have hbefore := h.uses
      (fun use huse => hallowed use (List.mem_append_left _ huse)) hharmless
    rw [InUse.uses, List.foldl_append]
    exact (hbefore.step (hallowed last (by simp))).1

theorem InUse.Recoverable.recovers_iff {s : InUse} (h : s.Recoverable c)
    (options : Option Options) :
    s.Recovers c options ↔ newestAnchored c s.disk = true := by
  rcases h with ⟨items, hacked, hwhole⟩ | htorn
  · obtain ⟨ops, w, hstart, -⟩ := (hwhole.recovers options).started
    exact ⟨fun _ => hwhole.newestAnchored, fun _ => ⟨ops, w, items, hstart, hacked⟩⟩
  · obtain ⟨e, hfails⟩ := htorn.initializeAndReadAll options
    rw [InUse.Recovers, hfails, htorn.not_newestAnchored]
    constructor
    · rintro ⟨ops, w, items, hstart, -⟩
      cases hstart
    · intro hanchored
      cases hanchored

/-- A log that is started after any history, and then used. -/
def startAndUse (c : Codec) (cycles : List Cycle) (options : Option Options)
    (uses : List Use) : Option InUse :=
  match initializeAndReadAll c options (history c cycles).disk with
  | (_, .error _) => none
  | (ops, .ok (w, items)) =>
    some (InUse.uses c
      ⟨⟨w, false⟩, applyAll DiskOp.apply ops (history c cycles).disk, items⟩ uses)

theorem exists_sound_of_startAndUse {cycles : List Cycle} {options : Option Options}
    {uses : List Use} {after : InUse} (h : startAndUse c cycles options uses = some after) :
    ∃ s : InUse, s.Sound c ∧ s.uses c uses = after := by
  rcases history_valid c cycles with ⟨items, -, hwhole⟩ | htorn
  · obtain ⟨ops, w, hstart, hstarted⟩ := (hwhole.recovers options).started
    simp only [startAndUse, hstart, Option.some.injEq] at h
    exact ⟨_, ⟨items, List.Sublist.refl _, .inl ⟨rfl, hstarted.running⟩⟩, h⟩
  · obtain ⟨e, hfails⟩ := htorn.initializeAndReadAll options
    simp [startAndUse, hfails] at h

/-- **Failed calls.**  Calls of a started log fail at their file operations,
and the caller goes on.  If every failure leaves the log in step with its files,
what was acknowledged is recovered.  The last call may fail anywhere: what was
acknowledged is then recovered exactly when the newest file has its anchor. -/
theorem acknowledged_recovered {cycles : List Cycle} {options : Option Options}
    {uses : List Use} {after : InUse} (hused : startAndUse c cycles options uses = some after)
    (hallowed : ∀ use ∈ uses, use.allowed = true)
    (hharmless : ∀ use ∈ uses.dropLast, use.harmless = true) (options' : Option Options) :
    ((∀ use ∈ uses, use.harmless = true) → after.Recovers c options') ∧
      (after.Recovers c options' ↔ newestAnchored c after.disk = true) := by
  obtain ⟨s, hsound, rfl⟩ := exists_sound_of_startAndUse hused
  have hiff := (hsound.uses_dropLast hallowed hharmless).recovers_iff options'
  refine ⟨fun hall => ?_, hiff⟩
  obtain ⟨items, -, hwhole⟩ := (hsound.uses hallowed hall).exists_whole
  exact hiff.mpr hwhole.newestAnchored

def failedSeekAndPayload : List Use :=
  [⟨.append [1] false, none⟩, ⟨.append [2] false, some .seek⟩, ⟨.append [3] false, none⟩,
   ⟨.append [4] false, some (.frame (.payload 3))⟩]

/-- A failed `Seek`, an append after it, and a last call that fails in its
payload. -/
theorem acknowledged_recovered_after_seek :
    ∃ after, startAndUse protoCodec [] none failedSeekAndPayload = some after ∧
      after.acked = [[1], [3]] ∧ newestAnchored protoCodec after.disk = true ∧
      ((∀ use ∈ failedSeekAndPayload, use.harmless = true) →
        after.Recovers protoCodec none) ∧
      (after.Recovers protoCodec none ↔ newestAnchored protoCodec after.disk = true) :=
  exists_of_isSome (by decide +kernel) fun hused => ⟨by decide +kernel, by decide +kernel,
    acknowledged_recovered hused (by decide) (by decide) none⟩

def failedSync : List Use :=
  [⟨.append [1] false, some (.frame .sync)⟩, ⟨.append [2] false, none⟩]

/-- The frame of the first call is in the file, but the CRC has not moved on:
the frame of the second call, which returned no error, does not continue the
chain, and the repair cuts it off. -/
theorem acknowledged_lost_after_failed_sync :
    ∃ after, startAndUse protoCodec [] none failedSync = some after ∧
      (∀ use ∈ failedSync, use.allowed = true) ∧ after.acked = [[2]] ∧
      ∃ ops w, initializeAndReadAll protoCodec none after.disk = (ops, .ok (w, [[1]])) := by
  have hrun : (startAndUse protoCodec [] none failedSync).any (fun after =>
      decide (after.acked = [[2]] ∧
        (initializeAndReadAll protoCodec none after.disk).2.toOption.any
          (fun start => decide (start.2 = [[1]])) = true)) = true := by
    decide +kernel
  obtain ⟨after, hused, hacked, hstart⟩ := exists_of_any hrun
  obtain ⟨⟨w, items⟩, hresult, hitems⟩ := exists_ok_of_any hstart
  subst hitems
  exact ⟨after, hused, by decide, hacked, _, w, Prod.ext rfl hresult⟩

end SmartBFT.Wal
