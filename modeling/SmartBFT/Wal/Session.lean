import SmartBFT.Wal.Append

/-!
# Sessions of a log

A session creates the log, or opens it and reads all of it, then appends, and
closes the log.  Whatever the sessions before did, opening the log and reading
it gives the items since the last truncation.
-/

namespace SmartBFT.Wal

open SmartBFT.Foundation

variable {c : Codec}
variable {w : WriteAheadLogFile} {disk : Disk} {call : Call} {items : List Bytes}

/-! ## Creating a log -/

structure Started (c : Codec) (items : List Bytes) (disk : Disk) (ops : List DiskOp)
    (log : WriteAheadLogFile) : Prop where
  running : Running c log (applyAll DiskOp.apply ops disk) items
  safe : CrashSafe DiskOp.apply DiskOp.torn
    (fun disk => Whole c items disk ∨ Unanchored c disk) ops disk

theorem whole_nil (c : Codec) : Whole c [] [] :=
  ⟨[], ⟨by simp, List.IsChain.nil⟩, rfl, rfl, by simp⟩

def firstSegment : Segment := ⟨1, walCRCSeed, [], [], walCRCSeed, []⟩

theorem bytes_firstSegment (c : Codec) :
    firstSegment.bytes c = c.frame walCRCSeed anchorRecord := by
  simp [firstSegment, Segment.bytes]

theorem create_started (c : Codec) (options : Option Options) :
    ∃ ops w, create c options [] = (ops, .ok w) ∧ Started c [] [] ops w := by
  have hchain : Chain c ([] ++ [firstSegment]) :=
    ⟨by simpa using Segment.readable_of_body_nil rfl rfl rfl, List.IsChain.singleton _⟩
  have hends : firstSegment.EndsWith c .eof := Segment.endsWith_of_tail_nil rfl
  have hfile : ([] : Disk) ++ [⟨1, c.frame walCRCSeed anchorRecord⟩] =
      files c ([] ++ [firstSegment]) := by
    rw [← bytes_firstSegment c]
    rfl
  refine ⟨_, _, rfl, ⟨[], firstSegment, ?_, ?_, rfl⟩, ?_⟩
  · refine ⟨⟨hchain, hends, rfl, rfl, rfl, .inl (by simp [firstSegment])⟩, rfl, rfl, ?_, rfl⟩
    rw [bytes_firstSegment, length_frame]
    simp [OpenFile.advance, firstSegment]
  · rw [applyAll_newFile walCRCSeed (by simp), hfile]
  · refine crashSafe_newFile (by simp) (.inl (whole_nil c)) (fun _ => .inr) ?_
    rw [hfile]
    exact .inl (Whole.of_concat hchain (.inl rfl) hends)

/-! ## Opening a log -/

theorem afterFiles_complete {segments : List Segment} {last : Segment} {state : ReadState}
    (hchain : Chain c (segments ++ [last])) (hends : last.EndsWith c .eof)
    (hactive : w.activeIndexes = (segments ++ [last]).map Segment.index)
    (htruncates : TruncatesAt (segments ++ [last]) state.truncateIndex) :
    Complete c
      (w.withRead ((segments ++ [last]).foldl (ReadState.afterFile) state))
      segments last where
  chain := hchain
  ends := hends
  index := by simp [WriteAheadLogFile.withRead, ReadState.afterFile, take_index]
  crc := by simp [WriteAheadLogFile.withRead, ReadState.afterFile]
  active := hactive
  truncates := by
    rcases (@foldl_afterFile_reads state (segments ++ [last])).truncateIndex with
      hsame | ⟨s, hs, hindex, hany⟩
    · simp only [WriteAheadLogFile.withRead, hsame]
      exact htruncates
    · exact .inr ⟨s, hs, hindex, hany⟩

theorem readAll_of_ok {lastIndex : Nat} {s : ReadState} (hclosed : w.closed = false)
    (hmode : w.readMode = true) (hlast : w.activeIndexes.getLast? = some lastIndex)
    (hread : readFiles c disk lastIndex true w.activeIndexes
      ⟨w.index, w.crc, w.truncateIndex, []⟩ = (s, .ok ()))
    (hnext : ((w.withRead s).deleteAndCreateFile c).result = .ok ()) :
    w.readAll c disk =
      ⟨{ ((w.withRead s).deleteAndCreateFile c).log with readMode := false },
        ((w.withRead s).deleteAndCreateFile c).ops, .ok s.items⟩ := by
  simp [WriteAheadLogFile.readAll, hclosed, hmode, hlast, hread, hnext]

theorem readAll_started {w : WriteAheadLogFile} {segments : List Segment} {last : Segment}
    (hchain : Chain c (segments ++ [last])) (hends : last.EndsWith c .eof)
    (hclosed : w.closed = false) (hmode : w.readMode = true)
    (hactive : w.activeIndexes = (segments ++ [last]).map Segment.index)
    (htruncates : TruncatesAt (segments ++ [last]) w.truncateIndex) :
    (w.readAll c (files c (segments ++ [last]))).result =
        .ok (retained (recordsOf (segments ++ [last]))) ∧
      Started c (retained (recordsOf (segments ++ [last]))) (files c (segments ++ [last]))
        (w.readAll c (files c (segments ++ [last]))).ops
        (w.readAll c (files c (segments ++ [last]))).log := by
  let state : ReadState := ⟨w.index, w.crc, w.truncateIndex, []⟩
  let final := (segments ++ [last]).foldl (ReadState.afterFile) state
  have hread := @readFiles_append c (segments ++ [last]) (files c (segments ++ [last]))
    last.index hchain (fun s hs => hchain.read_file hs)
    (hchain.endsWith_eof hends) true state (.inl rfl) []
  rw [List.append_nil] at hread
  have hdone : readFiles c (files c (segments ++ [last])) last.index true
      ((segments ++ [last]).map Segment.index) state = (final, .ok ()) := hread
  have hitems : final.items = retained (recordsOf (segments ++ [last])) := by
    rw [(foldl_afterFile_reads state (segments ++ [last])).items]
    exact foldl_keep_retained [] _
  have hlast : w.activeIndexes.getLast? = some last.index := by
    simp [hactive]
  have hcomplete : Complete c (w.withRead final) segments last :=
    afterFiles_complete hchain hends hactive htruncates
  have hadvanced := hcomplete.deleteAndCreateFile
  rw [← hactive] at hdone
  rw [readAll_of_ok hclosed hmode hlast hdone hadvanced.ok, ← hitems]
  refine ⟨rfl, ?_, ?_⟩
  · rw [hitems]
    exact hadvanced.running rfl hclosed
  · rw [hitems]
    exact hadvanced.safe

structure Opened (w : WriteAheadLogFile) (segments : List Segment) : Prop where
  closed : w.closed = false
  readMode : w.readMode = true
  active : w.activeIndexes = segments.map Segment.index
  truncateIndex : w.truncateIndex = 0

theorem openLog_files {segments : List Segment} (h : Chain c segments)
    (hne : segments ≠ []) (options : Option Options) :
    ∃ w, openLog c options (files c segments) = .ok w ∧ Opened w segments := by
  have hcheck := @checkWalFiles_files c segments h none (by simp)
  cases segments with
  | nil => exact absurd rfl hne
  | cons first segments =>
    rw [files, List.map_cons] at hcheck
    let w : WriteAheadLogFile :=
      { fileSizeBytes := Options.fileSize options
        index := first.index
        readMode := true
        activeIndexes := (first :: segments).map Segment.index }
    refine ⟨w, ?_, rfl, rfl, rfl, rfl⟩
    simp only [files, List.map_cons, openLog, hcheck]
    rfl

/-! ## Sessions -/

structure Session where
  options : Option Options
  calls : List Call

def WriteAheadLogFile.callAll (c : Codec) :
    WriteAheadLogFile → Disk → List Call → Except WalError (WriteAheadLogFile × Disk)
  | w, disk, [] => .ok (w, disk)
  | w, disk, call :: calls =>
    let outcome := w.call c call
    match outcome.result with
    | .error e => .error e
    | .ok () => outcome.log.callAll c (applyAll DiskOp.apply outcome.ops disk) calls

def WriteAheadLogFile.finish (c : Codec) (w : WriteAheadLogFile) (disk : Disk)
    (calls : List Call) : Except WalError Disk :=
  match w.callAll c disk calls with
  | .error e => .error e
  | .ok (w, disk) => .ok (applyAll DiskOp.apply w.close.ops disk)

def createSession (c : Codec) (session : Session) : Except WalError Disk :=
  match create c session.options [] with
  | (_, .error e) => .error e
  | (ops, .ok w) => w.finish c (applyAll DiskOp.apply ops []) session.calls

/-- `Open` and `ReadAll`: the items, the log, and the files after it. -/
def openAndReadAll (c : Codec) (options : Option Options) (disk : Disk) :
    Except WalError (List Bytes × WriteAheadLogFile × Disk) :=
  match openLog c options disk with
  | .error e => .error e
  | .ok w =>
    let outcome := w.readAll c disk
    match outcome.result with
    | .error e => .error e
    | .ok items => .ok (items, outcome.log, applyAll DiskOp.apply outcome.ops disk)

def openSession (c : Codec) (disk : Disk) (session : Session) : Except WalError Disk :=
  match openAndReadAll c session.options disk with
  | .error e => .error e
  | .ok (_, w, disk) => w.finish c disk session.calls

/-- The first session creates the log, the others open it. -/
def runSessions (c : Codec) (first : Session) (sessions : List Session) :
    Except WalError Disk :=
  match createSession c first with
  | .error e => .error e
  | .ok disk => sessions.foldlM (openSession c) disk

def recordsAppended (sessions : List Session) : List LogRecord :=
  sessions.flatMap fun session => session.calls.map Call.record

def Call.Valid (c : Codec) : Call → Prop
  | .append data flag =>
    data ≠ [] ∧ (c.marshal (Call.append data flag).record).length < 2 ^ 32
  | .truncateTo => True

instance (c : Codec) : (call : Call) → Decidable (call.Valid c)
  | .append data _ => inferInstanceAs (Decidable (data ≠ [] ∧ _))
  | .truncateTo => .isTrue trivial

theorem Call.Valid.appendable (h : call.Valid c) : c.Appendable call.record := by
  cases call with
  | append data flag => exact ⟨h.2, .inl rfl⟩
  | truncateTo => exact ⟨c.control_fits, .inr rfl⟩

theorem Call.exists_of_not_valid (h : ¬ call.Valid c) :
    ∃ data flag, call = .append data flag ∧
      (data = [] ∨ (data ≠ [] ∧ 2 ^ 32 ≤ (c.marshal call.record).length)) := by
  cases call with
  | truncateTo => exact absurd trivial h
  | append data flag =>
    refine ⟨data, flag, rfl, ?_⟩
    by_cases hempty : data = []
    · exact .inl hempty
    · refine .inr ⟨hempty, ?_⟩
      by_contra hlt
      exact h ⟨hempty, by omega⟩

theorem call_eq_append (h : call.Valid c) (w : WriteAheadLogFile) :
    w.call c call = w.append c call.record := by
  cases call with
  | append data flag => exact if_neg h.1
  | truncateTo => rfl

theorem Running.callAll (h : Running c w disk items) {calls : List Call}
    (hvalid : ∀ call ∈ calls, call.Valid c) :
    ∃ w' disk', w.callAll c disk calls = .ok (w', disk') ∧
      Running c w' disk' ((calls.map Call.record).foldl keep items) := by
  induction calls generalizing w disk items with
  | nil => exact ⟨w, disk, rfl, h⟩
  | cons call calls ih =>
    have hcall := hvalid call (List.mem_cons_self ..)
    have happended := h.append hcall.appendable
    obtain ⟨w', disk', hrest, hrunning⟩ :=
      ih happended.running fun other hother => hvalid other (List.mem_cons_of_mem _ hother)
    refine ⟨w', disk', ?_, hrunning⟩
    simp only [WriteAheadLogFile.callAll, call_eq_append hcall, happended.ok, hrest]

structure Closed (c : Codec) (disk : Disk) (items : List Bytes) : Prop where
  chain : ∃ segments last, Chain c (segments ++ [last]) ∧ last.EndsWith c .eof ∧
    disk = files c (segments ++ [last]) ∧
    retained (recordsOf (segments ++ [last])) = items

theorem Running.closed (h : Running c w disk items) :
    Closed c (applyAll DiskOp.apply w.close.ops disk) items := by
  obtain ⟨segments, last, hwriting, rfl, rfl⟩ := h.writing
  exact ⟨segments, last, hwriting.chain, hwriting.ends, hwriting.applyAll_close, rfl⟩

theorem Running.finish {w : WriteAheadLogFile} {disk : Disk} {records : List LogRecord}
    (h : Running c w disk (retained records)) {calls : List Call}
    (hvalid : ∀ call ∈ calls, call.Valid c) :
    ∃ disk', w.finish c disk calls = .ok disk' ∧
      Closed c disk' (retained (records ++ calls.map Call.record)) := by
  obtain ⟨w', disk', hcalls, hrunning⟩ := h.callAll hvalid
  rw [foldl_keep_retained] at hrunning
  refine ⟨_, ?_, hrunning.closed⟩
  simp only [WriteAheadLogFile.finish, hcalls]

theorem Closed.openAndReadAll (h : Closed c disk items) (options : Option Options) :
    ∃ w disk', openAndReadAll c options disk = .ok (items, w, disk') ∧
      Running c w disk' items := by
  obtain ⟨segments, last, hchain, hends, rfl, rfl⟩ := h.chain
  obtain ⟨w, hopen, hopened⟩ := openLog_files hchain (by simp) options
  obtain ⟨hresult, hstarted⟩ := readAll_started hchain hends hopened.closed hopened.readMode
    hopened.active (.inl (by simp [hopened.truncateIndex]))
  refine ⟨_, _, ?_, hstarted.running⟩
  simp only [Wal.openAndReadAll, hopen, hresult]

theorem sessions_closed {sessions : List Session} {records : List LogRecord}
    (h : Closed c disk (retained records))
    (hvalid : ∀ session ∈ sessions, ∀ call ∈ session.calls, call.Valid c) :
    ∃ disk', sessions.foldlM (openSession c) disk = .ok disk' ∧
      Closed c disk' (retained (records ++ recordsAppended sessions)) := by
  induction sessions generalizing disk records with
  | nil => exact ⟨disk, rfl, by simpa [recordsAppended] using h⟩
  | cons session sessions ih =>
    obtain ⟨w, next, hopen, hrunning⟩ := h.openAndReadAll session.options
    obtain ⟨after, hfinish, hclosed⟩ :=
      hrunning.finish (hvalid session (List.mem_cons_self ..))
    obtain ⟨disk', hrest, hdone⟩ :=
      ih hclosed fun other hother => hvalid other (List.mem_cons_of_mem _ hother)
    have hsession : openSession c disk session = .ok after := by
      simp only [openSession, hopen, hfinish]
    refine ⟨disk', ?_, ?_⟩
    · rw [List.foldlM_cons, hsession]
      exact hrest
    · simpa [recordsAppended] using hdone

/-- **Round trip of the log.**  After any sessions, opening the log and reading
it succeeds and gives the data appended at or after the last truncation. -/
theorem read_after_sessions (c : Codec) (first : Session) (sessions : List Session)
    (options : Option Options)
    (hvalid : ∀ session ∈ first :: sessions, ∀ call ∈ session.calls, call.Valid c) :
    ∃ disk w disk', runSessions c first sessions = .ok disk ∧
      openAndReadAll c options disk =
        .ok (retained (recordsAppended (first :: sessions)), w, disk') := by
  obtain ⟨ops, w, hcreate, hstarted⟩ := create_started c first.options
  obtain ⟨disk, hfinish, hclosed⟩ := @Running.finish c w _ [] hstarted.running first.calls
    (hvalid first (List.mem_cons_self ..))
  obtain ⟨disk', hsessions, hdone⟩ := sessions_closed hclosed
    fun session hsession => hvalid session (List.mem_cons_of_mem _ hsession)
  obtain ⟨w', disk'', hread, -⟩ := hdone.openAndReadAll options
  refine ⟨disk', w', disk'', ?_, ?_⟩
  · simp only [runSessions, createSession, hcreate, hfinish, hsessions]
  · simpa [recordsAppended] using hread

/-- Small files, a truncation inside a file, and a second session. -/
theorem read_after_two_sessions :
    ∃ disk w disk',
      runSessions protoCodec
          ⟨some ⟨20⟩, [.append [1, 2] false, .append [3] true, .append [4] false]⟩
          [⟨none, [.append [5] false]⟩] = .ok disk ∧
        openAndReadAll protoCodec none disk = .ok ([[3], [4], [5]], w, disk') :=
  read_after_sessions protoCodec
    ⟨some ⟨20⟩, [.append [1, 2] false, .append [3] true, .append [4] false]⟩
    [⟨none, [.append [5] false]⟩] none (by decide +kernel)

end SmartBFT.Wal
