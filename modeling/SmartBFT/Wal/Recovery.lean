import SmartBFT.Wal.Session

/-!
# Crashes and recovery

`InitializeAndReadAll` on what a crash leaves.  A last frame that was cut off
is dropped, by the reader or by `Repair`; a newest file without a complete
anchor makes `Open` fail, and nothing repairs it.
-/

namespace SmartBFT.Wal

open SmartBFT.Foundation

variable {c : Codec} {w : WriteAheadLogFile} {segments : List Segment} {last : Segment}
  {disk : Disk} {e : WalError} {items : List Bytes}

/-! ## A newest file without an anchor -/

theorem Unanchored.initializeAndReadAll (h : Unanchored c disk) (options : Option Options) :
    ∃ e, initializeAndReadAll c options disk = ([], .error e) := by
  obtain ⟨older, index, crc, part, hpart, rfl⟩ := h
  obtain ⟨e, hreader⟩ := newLogRecordReader_torn crc hpart
  obtain ⟨e', hcheck⟩ :=
    @checkWalFiles_torn c ⟨index, (c.frame crc anchorRecord).take part⟩ e hreader none older
  have hne : older ++ [⟨index, (c.frame crc anchorRecord).take part⟩] ≠ [] := by simp
  have hopen : openLog c options (older ++ [⟨index, (c.frame crc anchorRecord).take part⟩]) =
      .error e' := by
    cases hdisk : older ++ [⟨index, (c.frame crc anchorRecord).take part⟩] with
    | nil => exact absurd hdisk hne
    | cons file files =>
      rw [hdisk] at hcheck
      simp only [openLog, hcheck]
  refine ⟨.wrapped .cannotOpen e', ?_⟩
  simp [Wal.initializeAndReadAll, create, WalError.is, hopen]

/-! ## A last frame that cannot be read -/

def WalError.Repairable (e : WalError) : Prop :=
  e = .unexpectedEOF ∨ e = .crc ∨ e = .unmarshalPayload

def WalError.inLast (e : WalError) : WalError :=
  if e = .unexpectedEOF ∨ e = .crc ∨ e = .unmarshalPayload then .unexpectedEOF
  else .wrapped .failedReading e

theorem WalError.Repairable.inLast (h : e.Repairable) :
    e.inLast = .unexpectedEOF := if_pos h

theorem WalError.Repairable.ne_eof (h : e.Repairable) : e ≠ .eof := by
  rcases h with rfl | rfl | rfl <;> simp

theorem afterFiles_crc (h : Chain c (segments ++ [last])) (state : ReadState) :
    segments.isEmpty = true ∨
      last.anchor = (segments.foldl (ReadState.afterFile) state).crc := by
  rcases List.eq_nil_or_concat segments with rfl | ⟨before, previous, rfl⟩
  · exact .inl rfl
  · right
    have hfollows := (List.isChain_append.mp h.linked).2.2 previous (by simp) last (by simp)
    rw [hfollows.2.1]
    simp [ReadState.afterFile]

def ReadState.intoLast (state : ReadState) (segments : List Segment)
    (last : Segment) : ReadState :=
  last.records.foldl ReadState.take
    { segments.foldl (ReadState.afterFile) state with index := last.index }

theorem readFiles_intoLast
    (hchain : Chain c (segments ++ [last])) (hends : last.EndsWith c e) (he : e ≠ .eof)
    (state : ReadState) :
    readFiles c (files c (segments ++ [last])) last.index true
        ((segments ++ [last]).map Segment.index) state =
      (state.intoLast segments last, .error e.inLast) := by
  have hread := @readFiles_append c segments (files c (segments ++ [last])) last.index
    hchain.of_append_left (fun s hs => hchain.read_file (List.mem_append_left _ hs))
    hchain.earlier_endsWith_eof true state (.inl rfl) [last.index]
  have hscan := Segment.readRecords_bytes (hchain.readable last (by simp)) hends
  have hanchor : (!segments.isEmpty &&
      decide (last.anchor ≠ (segments.foldl (ReadState.afterFile) state).crc)) = false := by
    rcases afterFiles_crc hchain state with hempty | hcrc
    · simp [hempty]
    · simp [hcrc]
  rw [List.map_append, List.map_cons, List.map_nil, hread]
  simp only [readFiles, hchain.read_file (by simp : last ∈ segments ++ [last]),
    last.newLogRecordReader_bytes, hscan, Bool.true_and]
  rw [if_neg (by simpa using hanchor), if_neg he]
  simp only [true_and, WalError.inLast]
  split <;> rfl

def Segment.repaired (s : Segment) : Segment := { s with tail := [] }

theorem recordsOf_repaired (segments : List Segment) (last : Segment) :
    recordsOf (segments ++ [last.repaired]) = recordsOf (segments ++ [last]) := by
  simp [recordsOf, Segment.repaired]

theorem intoLast_truncates {state : ReadState} (h : state.truncateIndex = 0) :
    TruncatesAt (segments ++ [last.repaired])
      (state.intoLast segments last).truncateIndex := by
  rw [ReadState.intoLast, take_truncateIndex]
  by_cases hany : last.records.any LogRecord.truncateTo = true
  · exact .inr ⟨last.repaired, by simp, by simp [hany, Segment.repaired], hany⟩
  · rw [if_neg hany]
    rcases (@foldl_afterFile_reads state segments).truncateIndex with
      hsame | ⟨s, hs, hindex, hflag⟩
    · left
      simp [hsame, h]
    · exact .inr ⟨s, List.mem_append_left _ hs, hindex, hflag⟩

theorem readAll_intoLast (hchain : Chain c (segments ++ [last]))
    (hends : last.EndsWith c e) (he : e ≠ .eof) (hopened : Opened w (segments ++ [last])) :
    w.readAll c (files c (segments ++ [last])) =
      ⟨w.withRead
          (ReadState.intoLast ⟨w.index, w.crc, w.truncateIndex, []⟩ segments last),
        [], .error e.inLast⟩ := by
  have hlast : ((segments ++ [last]).map Segment.index).getLast? = some last.index := by
    simp
  have hread := readFiles_intoLast hchain hends he ⟨w.index, w.crc, w.truncateIndex, []⟩
  simp only [WriteAheadLogFile.readAll, hopened.closed, hopened.readMode, hopened.active,
    hlast, hread, Bool.false_eq_true, if_false, Bool.not_true]

theorem repair_files
    (hchain : Chain c (segments ++ [last])) (hends : last.EndsWith c e) (he : e ≠ .eof) :
    repair c (files c (segments ++ [last])) =
      ([.truncate last.index (last.repaired.bytes c).length,
        .sync last.index], .ok ()) := by
  have hlast : (files c (segments ++ [last])).getLast? = some (last.file c) := by
    simp [files]
  have hearlier : (files c (segments ++ [last])).dropLast = files c segments := by
    simp [files]
  have hverify := @scanVerifyFiles_files c segments hchain.of_append_left
    hchain.earlier_endsWith_eof none (by simp)
  have hscan := Segment.readRecords_bytes (hchain.readable last (by simp)) hends
  have hlength : (last.bytes c).length - last.tail.length =
      (last.repaired.bytes c).length := by
    simp only [Segment.bytes, Segment.repaired, List.length_append, List.length_nil]
    omega
  simp only [repair, hlast, hearlier, hverify, scanRepairFile, Segment.file,
    last.newLogRecordReader_bytes, hscan, hlength, he, if_false]

theorem apply_repair (hchain : Chain c (segments ++ [last])) :
    DiskOp.apply (.truncate last.index (last.repaired.bytes c).length)
        (files c (segments ++ [last])) =
      files c (segments ++ [last.repaired]) := by
  have holder : ∀ f ∈ files c segments, f.index < (last.file c).index := by
    intro f hf
    obtain ⟨s, hs, rfl⟩ := List.mem_map.mp hf
    exact (List.pairwise_append.mp hchain.index_lt).2.2 s hs last (by simp)
  have hbytes : (last.bytes c).take (last.repaired.bytes c).length =
      last.repaired.bytes c := by
    have hsplit : last.bytes c = last.repaired.bytes c ++ last.tail := by
      simp [Segment.bytes, Segment.repaired]
    rw [hsplit, List.take_left]
  have hmodify := modify_last
    (List.take (last.repaired.bytes c).length) holder
  simp only [Segment.file, hbytes] at hmodify
  rw [files_append, files_append, DiskOp.apply]
  exact hmodify

/-! ## Recovery of a whole log -/

structure Recovers (c : Codec) (options : Option Options) (items : List Bytes)
    (disk : Disk) : Prop where
  started : ∃ ops w, initializeAndReadAll c options disk = (ops, .ok (w, items)) ∧
    Started c items disk ops w

theorem recovers_eof (hchain : Chain c (segments ++ [last])) (hends : last.EndsWith c .eof)
    (options : Option Options) :
    Recovers c options (retained (recordsOf (segments ++ [last])))
      (files c (segments ++ [last])) := by
  obtain ⟨w, hopen, hopened⟩ := openLog_files hchain (by simp) options
  obtain ⟨hresult, hstarted⟩ := readAll_started hchain hends hopened.closed hopened.readMode
    hopened.active (.inl (by simp [hopened.truncateIndex]))
  refine ⟨_, _, ?_, hstarted⟩
  have hne : files c (segments ++ [last]) ≠ [] := by simp [files]
  simp [initializeAndReadAll, create, hne, WalError.is, hopen, hresult]

theorem initializeAndReadAll_repairs (hchain : Chain c (segments ++ [last]))
    (hends : last.EndsWith c e)
    (he : e.Repairable) (options : Option Options) :
    ∃ ops w, initializeAndReadAll c options (files c (segments ++ [last])) =
        ([.truncate last.index (last.repaired.bytes c).length, .sync last.index] ++ ops,
          .ok (w, retained (recordsOf (segments ++ [last])))) ∧
      Started c (retained (recordsOf (segments ++ [last])))
        (files c (segments ++ [last.repaired])) ops w := by
  obtain ⟨w, hopen, hopened⟩ := openLog_files hchain (by simp) options
  have hread := readAll_intoLast hchain hends he.ne_eof hopened
  rw [he.inLast] at hread
  have hrepair := repair_files hchain hends he.ne_eof
  have happly := apply_repair hchain
  have hchain' : Chain c (segments ++ [last.repaired]) :=
    hchain.replace_last (rfl : last.repaired.index = last.index) rfl
      (hchain.readable last (by simp))
  have hindexes : (segments ++ [last.repaired]).map Segment.index =
      (segments ++ [last]).map Segment.index := by
    simp [Segment.repaired]
  let reader := w.withRead
    (ReadState.intoLast ⟨w.index, w.crc, w.truncateIndex, []⟩ segments last)
  obtain ⟨hresult, hstarted⟩ := @readAll_started c reader segments last.repaired hchain'
    (Segment.endsWith_of_tail_nil rfl) hopened.closed hopened.readMode
    (hopened.active.trans hindexes.symm) (intoLast_truncates hopened.truncateIndex)
  rw [recordsOf_repaired] at hresult hstarted
  have hcreate : create c options (files c (segments ++ [last])) =
      ([], .error .alreadyExists) := by
    simp [create, files]
  refine ⟨_, _, ?_, hstarted⟩
  simp only [initializeAndReadAll, hcreate, hopen, hread, hrepair, WalError.is,
    applyAll_cons, applyAll_nil, happly, apply_sync, List.nil_append, decide_true,
    Bool.not_true, Bool.false_eq_true, if_false]
  rw [hresult]

theorem recovers_cutOff
    (hchain : Chain c (segments ++ [last])) (hends : last.EndsWith c .unexpectedEOF)
    (options : Option Options) :
    Recovers c options (retained (recordsOf (segments ++ [last])))
      (files c (segments ++ [last])) := by
  obtain ⟨ops, w, hstart, hstarted⟩ :=
    initializeAndReadAll_repairs hchain hends (.inl rfl) options
  have happly := apply_repair hchain
  have hchain' : Chain c (segments ++ [last.repaired]) :=
    hchain.replace_last (rfl : last.repaired.index = last.index) rfl
      (hchain.readable last (by simp))
  have hwhole := Whole.of_concat hchain (.inr rfl) hends
  have hrepaired := Whole.of_concat hchain' (.inl rfl) (Segment.endsWith_of_tail_nil rfl)
  rw [recordsOf_repaired] at hrepaired
  refine ⟨_, w, hstart, ?_, ?_⟩
  · rw [applyAll_append, applyAll_cons, happly, applyAll_cons, apply_sync, applyAll_nil]
    exact hstarted.running
  · refine CrashSafe.cons (fun _ => .inl hwhole) ?_
    rw [happly]
    exact CrashSafe.cons (fun _ => .inl hrepaired) hstarted.safe

theorem Whole.recovers (h : Whole c items disk)
    (options : Option Options) : Recovers c options items disk := by
  obtain ⟨segments, hchain, rfl, rfl, hends⟩ := h.segments
  rcases List.eq_nil_or_concat segments with rfl | ⟨before, last, hsegments⟩
  · obtain ⟨ops, w, hcreate, hstarted⟩ := create_started c options
    refine ⟨ops, w, ?_, hstarted⟩
    simp only [initializeAndReadAll, files, List.map_nil, hcreate]
    rfl
  · rw [List.concat_eq_append] at hsegments
    subst hsegments
    obtain ⟨e, hcut, hlast⟩ := hends last (by simp)
    rcases hcut with rfl | rfl
    · exact recovers_eof hchain hlast options
    · exact recovers_cutOff hchain hlast options

/-! ## Crashes and restarts -/

/-- The directory, the items that were acknowledged, and the record whose
append was in progress at the last crash. -/
structure Life where
  disk : Disk := []
  acked : List Bytes := []
  pending : Option LogRecord := none

/-- A start of the log, calls, and a crash: `done` file operations took effect
and of the next one, if it is a write, the first `part` bytes. -/
structure Cycle where
  options : Option Options
  calls : List Call
  done : Nat
  part : Nat

def WriteAheadLogFile.crashIn (c : Codec) :
    WriteAheadLogFile → Life → List Call → Nat → Nat → Life
  | _, life, [], _, _ => { life with pending := none }
  | w, life, call :: calls, done, part =>
    let outcome := w.call c call
    if done < outcome.ops.length then
      { life with
        disk := crashAt DiskOp.apply DiskOp.torn outcome.ops done part life.disk
        pending := some call.record }
    else
      let acked :=
        match outcome.result with
        | .ok () => keep life.acked call.record
        | .error _ => life.acked
      outcome.log.crashIn c ⟨applyAll DiskOp.apply outcome.ops life.disk, acked, none⟩
        calls (done - outcome.ops.length) part

/-- What a start returns is known to be in the log. -/
def Life.cycle (c : Codec) (life : Life) (cycle : Cycle) : Life :=
  let (ops, result) := initializeAndReadAll c cycle.options life.disk
  if cycle.done < ops.length then
    { life with
      disk := crashAt DiskOp.apply DiskOp.torn ops cycle.done cycle.part life.disk }
  else
    match result with
    | .error _ => { life with disk := applyAll DiskOp.apply ops life.disk }
    | .ok (w, items) =>
      w.crashIn c ⟨applyAll DiskOp.apply ops life.disk, items, none⟩ cycle.calls
        (cycle.done - ops.length) cycle.part

def history (c : Codec) (cycles : List Cycle) : Life :=
  cycles.foldl (Life.cycle c) {}

/-- The items a start has to give: those acknowledged, or those that the record
in progress leaves. -/
def Life.Expects (life : Life) (items : List Bytes) : Prop :=
  items = life.acked ∨ ∃ record ∈ life.pending, items = keep life.acked record

def Life.Valid (c : Codec) (life : Life) : Prop :=
  (∃ items, life.Expects items ∧ Whole c items life.disk) ∨ Unanchored c life.disk

theorem Running.whole (h : Running c w disk items) : Whole c items disk := by
  obtain ⟨segments, last, hwriting, rfl, rfl⟩ := h.writing
  exact hwriting.whole

theorem Running.call_cases (h : Running c w disk items) (call : Call) :
    (∃ e, w.call c call = ⟨w, [], .error e⟩) ∨
      Appended c disk items call.record (w.call c call) := by
  by_cases hvalid : call.Valid c
  · rw [call_eq_append hvalid]
    exact .inr (h.append hvalid.appendable)
  · left
    obtain ⟨data, flag, rfl, hempty | ⟨hne, hbig⟩⟩ := Call.exists_of_not_valid hvalid
    · exact ⟨.emptyData, if_pos hempty⟩
    · obtain ⟨segments, last, hwriting, -, -⟩ := h.writing
      refine ⟨.recordTooBig (c.marshal (Call.append data flag).record).length, ?_⟩
      simp only [WriteAheadLogFile.call, hne, WriteAheadLogFile.append,
        hwriting.closed, hwriting.readMode, hbig, if_false, if_true, Bool.false_eq_true]

theorem Running.crashIn_valid {life : Life}
    (h : Running c w life.disk life.acked) (calls : List Call) (done part : Nat) :
    (w.crashIn c life calls done part).Valid c := by
  induction calls generalizing w life done with
  | nil => exact .inl ⟨life.acked, .inl rfl, h.whole⟩
  | cons call calls ih =>
    rw [WriteAheadLogFile.crashIn]
    rcases h.call_cases call with ⟨e, hcall⟩ | happended
    · rw [hcall]
      simp only [List.length_nil, Nat.not_lt_zero, if_false, applyAll_nil]
      exact @ih w ⟨life.disk, life.acked, none⟩ h _
    · by_cases hdone : done < (w.call c call).ops.length
      · rw [if_pos hdone]
        rcases happended.safe done part with hold | hnew | htorn
        · exact .inl ⟨life.acked, .inl rfl, hold⟩
        · exact .inl ⟨_, .inr ⟨call.record, rfl, rfl⟩, hnew⟩
        · exact .inr htorn
      · rw [if_neg hdone]
        simp only [happended.ok]
        exact @ih _ ⟨_, _, none⟩ happended.running _

theorem Life.cycle_valid {life : Life} (h : life.Valid c) (cycle : Cycle) :
    (life.cycle c cycle).Valid c := by
  rcases h with ⟨items, hitems, hwhole⟩ | htorn
  · obtain ⟨ops, w, hstart, hstarted⟩ := (hwhole.recovers cycle.options).started
    simp only [Life.cycle, hstart]
    split
    · rcases hstarted.safe cycle.done cycle.part with hdisk | htorn
      · exact .inl ⟨items, hitems, hdisk⟩
      · exact .inr htorn
    · exact @Running.crashIn_valid c w ⟨_, items, none⟩ hstarted.running _ _ _
  · obtain ⟨e, hstart⟩ := htorn.initializeAndReadAll cycle.options
    simp only [Life.cycle, hstart, List.length_nil, Nat.not_lt_zero, if_false, applyAll_nil]
    exact .inr htorn

theorem history_valid (c : Codec) (cycles : List Cycle) : (history c cycles).Valid c := by
  have hrun : ∀ life : Life, life.Valid c → (cycles.foldl (Life.cycle c) life).Valid c := by
    induction cycles with
    | nil => exact fun _ h => h
    | cons cycle cycles ih => exact fun life h => ih _ (Life.cycle_valid h cycle)
  exact hrun {} (.inl ⟨[], .inl rfl, whole_nil c⟩)

/-- The newest file is at least as long as an anchor. -/
def newestAnchored (c : Codec) (disk : Disk) : Bool :=
  disk.getLast?.all fun file =>
    recordHeaderSize + (c.payload anchorRecord).length ≤ file.bytes.length

theorem Whole.newestAnchored (h : Whole c items disk) :
    newestAnchored c disk = true := by
  obtain ⟨segments, -, rfl, -, -⟩ := h.segments
  rcases List.eq_nil_or_concat segments with rfl | ⟨before, last, rfl⟩
  · rfl
  · simp [Wal.newestAnchored, files, Segment.file, Segment.bytes, length_frame]

theorem Unanchored.not_newestAnchored (h : Unanchored c disk) :
    newestAnchored c disk = false := by
  obtain ⟨older, index, crc, part, hpart, rfl⟩ := h
  rw [length_frame] at hpart
  simp only [newestAnchored, List.getLast?_concat, Option.all_some, List.length_take,
    length_frame, decide_eq_false_iff_not]
  omega

/-- **Crash consistency.**  After any starts, calls and crashes, the next start
succeeds and gives what was acknowledged, with at most what the record in
progress makes of it, exactly when the crash left the newest file with its
anchor. -/
theorem start_after_crashes_iff (c : Codec) (cycles : List Cycle)
    (options : Option Options) :
    (∃ ops w items, initializeAndReadAll c options (history c cycles).disk =
        (ops, .ok (w, items)) ∧ (history c cycles).Expects items) ↔
      newestAnchored c (history c cycles).disk = true := by
  constructor
  · rintro ⟨ops, w, items, hstart, -⟩
    rcases history_valid c cycles with ⟨items', -, hwhole⟩ | htorn
    · exact hwhole.newestAnchored
    · obtain ⟨e, herror⟩ := htorn.initializeAndReadAll options
      rw [herror] at hstart
      simp at hstart
  · intro hanchored
    rcases history_valid c cycles with ⟨items, hitems, hwhole⟩ | htorn
    · obtain ⟨ops, w, hstart, -⟩ := (hwhole.recovers options).started
      exact ⟨ops, w, items, hstart, hitems⟩
    · rw [htorn.not_newestAnchored] at hanchored
      simp at hanchored

/-- Two appends to files of the smallest size, cut off after `done` operations. -/
def twoAppends (done part : Nat) : Cycle :=
  ⟨some ⟨20⟩, [.append [1] false, .append [2] false], done, part⟩

/-- A crash inside the frame of the second record: the first one is found. -/
theorem start_after_torn_frame :
    ∃ ops w items, initializeAndReadAll protoCodec none
        (history protoCodec [twoAppends 14 3]).disk = (ops, .ok (w, items)) ∧
      (history protoCodec [twoAppends 14 3]).Expects items :=
  (start_after_crashes_iff protoCodec [twoAppends 14 3] none).mpr (by decide +kernel)

/-- A crash right after the switch created the next file: the first record was
acknowledged, and the log cannot be started any more. -/
theorem no_start_after_empty_file :
    (history protoCodec [twoAppends 19 0]).acked = [[1]] ∧
      ¬ ∃ ops w items, initializeAndReadAll protoCodec none
          (history protoCodec [twoAppends 19 0]).disk = (ops, .ok (w, items)) ∧
        (history protoCodec [twoAppends 19 0]).Expects items := by
  refine ⟨by decide +kernel, ?_⟩
  have hfails : (initializeAndReadAll protoCodec none
      (history protoCodec [twoAppends 19 0]).disk).2.isOk = false := by
    decide +kernel
  rintro ⟨ops, w, items, hstart, -⟩
  rw [hstart] at hfails
  simp [Except.isOk, Except.toBool] at hfails

end SmartBFT.Wal
