import SmartBFT.Wal.Layout

/-!
# Appending to a log

What the file operations of `append` and of a switch to the next file do to
the files of a chain, and what a crash can leave of them: a log that holds
the items from before the call or the items with the new record, or a newest
file whose anchor is not complete.
-/

namespace SmartBFT.Wal

open SmartBFT.Foundation

variable {c : Codec} {w : WriteAheadLogFile} {segments before after : List Segment}
  {last s : Segment} {older disk : Disk} {index t : Nat}

/-! ## File operations on the last file -/

theorem modify_last {file : LogFile} (change : Bytes → Bytes)
    (h : ∀ f ∈ older, f.index < file.index) :
    (older ++ [file]).modify file.index change =
      older ++ [⟨file.index, change file.bytes⟩] := by
  have holder : older.map (fun f =>
      if f.index = file.index then { f with bytes := change f.bytes } else f) = older := by
    apply Eq.trans (List.map_congr_left _) (List.map_id older)
    intro f hf
    have hlt := h f hf
    rw [if_neg (by omega), id]
  simp [Disk.modify, holder]

theorem apply_write_end (old bytes : Bytes) (h : ∀ f ∈ older, f.index < index) :
    DiskOp.apply (.write index old.length bytes) (older ++ [⟨index, old⟩]) =
      older ++ [⟨index, old ++ bytes⟩] := by
  rw [DiskOp.apply, @modify_last older ⟨index, old⟩ _ h]
  simp

theorem apply_truncate_end (old : Bytes) (h : ∀ f ∈ older, f.index < index) :
    DiskOp.apply (.truncate index old.length) (older ++ [⟨index, old⟩]) =
      older ++ [⟨index, old⟩] := by
  rw [DiskOp.apply, @modify_last older ⟨index, old⟩ _ h]
  simp

theorem create_last (h : ∀ f ∈ disk, f.index < index) :
    Disk.create index disk = disk ++ [⟨index, []⟩] := by
  induction disk with
  | nil => rfl
  | cons file disk ih =>
    have hlt := h file (List.mem_cons_self ..)
    rw [Disk.create, if_neg (by omega), if_neg (by omega),
      ih fun f hf => h f (List.mem_cons_of_mem _ hf)]
    rfl

@[simp] theorem apply_sync (index : Nat) (disk : Disk) :
    DiskOp.apply (.sync index) disk = disk := rfl

theorem length_frame (c : Codec) (crc : UInt32) (record : LogRecord) :
    (c.frame crc record).length = recordHeaderSize + (c.payload record).length := by
  simp [Codec.frame]

theorem applyAll_writeFrame (old : Bytes) (crc : UInt32)
    (record : LogRecord) (h : ∀ f ∈ older, f.index < index) :
    applyAll DiskOp.apply (OpenFile.writeFrame c ⟨index, old.length⟩ crc record)
        (older ++ [⟨index, old⟩]) =
      older ++ [⟨index, old ++ c.frame crc record⟩] := by
  have hpayload := apply_write_end (old ++ headerBytes (c.marshal record).length crc)
    (c.payload record) h
  rw [List.length_append, length_headerBytes] at hpayload
  simp only [OpenFile.writeFrame, applyAll_cons, applyAll_nil,
    apply_write_end old _ h, hpayload, apply_sync, Codec.frame, List.append_assoc]

theorem crashSafe_writeFrame {old : Bytes} {crc : UInt32}
    {record : LogRecord} {condition : Disk → Prop} (h : ∀ f ∈ older, f.index < index)
    (hpart : ∀ part, condition (older ++ [⟨index, old ++ (c.frame crc record).take part⟩])) :
    CrashSafe DiskOp.apply DiskOp.torn condition
      (OpenFile.writeFrame c ⟨index, old.length⟩ crc record) (older ++ [⟨index, old⟩]) := by
  have hheader : ∀ part, (headerBytes (c.marshal record).length crc).take part =
      (c.frame crc record).take (min part recordHeaderSize) := by
    intro part
    rw [Codec.frame, List.take_append_of_le_length (by simp), ← List.take_take]
    congr 1
  have hpayload : ∀ part, headerBytes (c.marshal record).length crc ++
      (c.payload record).take part = (c.frame crc record).take (recordHeaderSize + part) := by
    intro part
    have hlength := length_headerBytes (c.marshal record).length crc
    rw [Codec.frame, ← hlength, List.take_length_add_append]
  have hwrite := apply_write_end (old ++ headerBytes (c.marshal record).length crc)
    (c.payload record) h
  have hwritePart := fun part =>
    apply_write_end (old ++ headerBytes (c.marshal record).length crc)
      ((c.payload record).take part) h
  rw [List.length_append, length_headerBytes] at hwrite
  simp only [List.length_append, length_headerBytes] at hwritePart
  have hwhole : condition (older ++ [⟨index, old ++ c.frame crc record⟩]) := by
    have := hpart (c.frame crc record).length
    rwa [List.take_length] at this
  apply CrashSafe.cons
  · intro part
    rw [DiskOp.torn, apply_write_end old _ h, hheader]
    exact hpart _
  · rw [apply_write_end old _ h]
    apply CrashSafe.cons
    · intro part
      rw [DiskOp.torn, hwritePart, List.append_assoc, hpayload]
      exact hpart _
    · rw [hwrite, List.append_assoc]
      exact CrashSafe.cons (fun _ => hwhole) (CrashSafe.nil hwhole)

/-! ## What a crash leaves -/

structure Whole (c : Codec) (items : List Bytes) (disk : Disk) : Prop where
  segments : ∃ segments, Chain c segments ∧ disk = files c segments ∧
    retained (recordsOf segments) = items ∧
    ∀ last ∈ segments.getLast?, ∃ e : WalError, e.IsCutOff ∧ last.EndsWith c e

def Unanchored (c : Codec) (disk : Disk) : Prop :=
  ∃ older index crc part, part < (c.frame crc anchorRecord).length ∧
    disk = older ++ [⟨index, (c.frame crc anchorRecord).take part⟩]

theorem Whole.of_concat {e : WalError} (hchain : Chain c (segments ++ [last])) (hcut : e.IsCutOff)
    (hends : last.EndsWith c e) :
    Whole c (retained (recordsOf (segments ++ [last]))) (files c (segments ++ [last])) := by
  refine ⟨_, hchain, rfl, rfl, ?_⟩
  intro s hs
  rw [List.getLast?_concat, Option.mem_some_iff] at hs
  subst hs
  exact ⟨e, hcut, hends⟩

def TruncatesAt (segments : List Segment) (t : Nat) : Prop :=
  (∀ s ∈ segments, t ≤ s.index) ∨
    ∃ s ∈ segments, s.index = t ∧ s.records.any LogRecord.truncateTo = true

abbrev Segment.obsolete (t : Nat) (s : Segment) : Bool := s.index < t

theorem any_recordsOf (hs : s ∈ segments) (h : s.records.any LogRecord.truncateTo = true) :
    (recordsOf segments).any LogRecord.truncateTo = true := by
  rw [List.any_eq_true] at h ⊢
  obtain ⟨record, hrecord, hflag⟩ := h
  exact ⟨record, List.mem_flatMap.mpr ⟨s, hs, hrecord⟩, hflag⟩

theorem mem_dropWhile_obsolete
    (hsorted : segments.Pairwise fun a b => a.index < b.index) (hs : s ∈ segments)
    (hindex : t ≤ s.index) : s ∈ segments.dropWhile (Segment.obsolete t) := by
  induction segments with
  | nil => simp at hs
  | cons first segments ih =>
    rw [List.pairwise_cons] at hsorted
    by_cases hfirst : first.index < t
    · rcases List.mem_cons.mp hs with rfl | hs
      · omega
      · rw [List.dropWhile_cons_of_pos (by simpa using hfirst)]
        exact ih hsorted.2 hs
    · rw [List.dropWhile_cons_of_neg (by simpa using hfirst)]
      exact hs

theorem takeWhile_obsolete_nil
    (h : ∀ s ∈ segments, t ≤ s.index) : segments.takeWhile (Segment.obsolete t) = [] := by
  cases segments with
  | nil => rfl
  | cons s segments =>
    have hfirst := h s (List.mem_cons_self ..)
    rw [List.takeWhile_cons_of_neg (by simpa using hfirst)]

theorem retained_dropWhile (hchain : Chain c segments) (ht : TruncatesAt segments t)
    (hbefore : before <:+ segments.takeWhile (Segment.obsolete t)) :
    retained (recordsOf (before ++ segments.dropWhile (Segment.obsolete t))) =
      retained (recordsOf segments) := by
  have hsplit := @List.takeWhile_append_dropWhile _ (Segment.obsolete t) segments
  rcases ht with hnone | ⟨s, hs, hindex, hflag⟩
  · rw [takeWhile_obsolete_nil hnone] at hbefore hsplit
    rw [List.suffix_nil.mp hbefore, hsplit]
  · have hany := any_recordsOf
      (mem_dropWhile_obsolete hchain.index_lt hs (Nat.le_of_eq hindex.symm)) hflag
    have hall := retained_append
      (recordsOf (segments.takeWhile (Segment.obsolete t))) _ hany
    rw [← recordsOf_append, hsplit] at hall
    rw [recordsOf_append, retained_append _ _ hany, hall]

theorem filter_removed (h : Chain c (s :: segments)) :
    DiskOp.apply (.remove s.index) (files c (s :: segments)) = files c segments := by
  have hlt := (List.pairwise_cons.mp h.index_lt).1
  have hrest : (files c segments).filter (fun file => decide (file.index ≠ s.index)) =
      files c segments := by
    rw [List.filter_eq_self]
    intro file hfile
    obtain ⟨t, ht, rfl⟩ := List.mem_map.mp hfile
    have hne : t.index ≠ s.index := by
      have := hlt t ht
      omega
    exact decide_eq_true hne
  rw [DiskOp.apply, files, List.map_cons, List.filter_cons_of_neg (by simp [Segment.file])]
  exact hrest

theorem applyAll_removes (h : Chain c (before ++ after)) :
    applyAll DiskOp.apply ((before.map Segment.index).map .remove)
      (files c (before ++ after)) = files c after := by
  induction before with
  | nil => rfl
  | cons s before ih =>
    rw [List.cons_append] at h
    rw [List.map_cons, List.map_cons, applyAll_cons, List.cons_append, filter_removed h]
    exact ih (@Chain.of_append_right c [s] _ h)

theorem crashSafe_removes {condition : Disk → Prop} (h : Chain c (before ++ after))
    (hcondition : ∀ left, left <:+ before → condition (files c (left ++ after))) :
    CrashSafe DiskOp.apply DiskOp.torn condition ((before.map Segment.index).map .remove)
      (files c (before ++ after)) := by
  induction before with
  | nil => exact CrashSafe.nil (hcondition [] (List.suffix_refl _))
  | cons s before ih =>
    rw [List.cons_append] at h
    apply CrashSafe.cons
    · exact fun _ => hcondition (s :: before) (List.suffix_refl _)
    · rw [List.cons_append, filter_removed h]
      exact ih (@Chain.of_append_right c [s] _ h)
        fun left hleft => hcondition left (hleft.trans (List.suffix_cons s before))

/-! ## The next file -/

theorem applyAll_newFile (crc : UInt32) (h : ∀ f ∈ disk, f.index < index) :
    applyAll DiskOp.apply
        (.create index :: OpenFile.writeFrame c ⟨index, 0⟩ crc anchorRecord) disk =
      disk ++ [⟨index, c.frame crc anchorRecord⟩] := by
  rw [applyAll_cons, DiskOp.apply, create_last h]
  exact applyAll_writeFrame [] crc anchorRecord h

theorem crashSafe_newFile {crc : UInt32} {condition : Disk → Prop} (h : ∀ f ∈ disk, f.index < index)
    (hbefore : condition disk) (htorn : ∀ disk, Unanchored c disk → condition disk)
    (hafter : condition (disk ++ [⟨index, c.frame crc anchorRecord⟩])) :
    CrashSafe DiskOp.apply DiskOp.torn condition
      (.create index :: OpenFile.writeFrame c ⟨index, 0⟩ crc anchorRecord) disk := by
  apply CrashSafe.cons
  · exact fun _ => hbefore
  · rw [DiskOp.apply, create_last h]
    apply @crashSafe_writeFrame c disk index [] crc anchorRecord condition h
    intro part
    by_cases hpart : part < (c.frame crc anchorRecord).length
    · exact htorn _ ⟨disk, index, crc, part, hpart, rfl⟩
    · rw [List.take_of_length_le (by omega)]
      exact hafter

structure Complete (c : Codec) (w : WriteAheadLogFile) (segments : List Segment)
    (last : Segment) : Prop where
  chain : Chain c (segments ++ [last])
  ends : last.EndsWith c .eof
  index : w.index = last.index
  crc : w.crc = last.crc
  active : w.activeIndexes = (segments ++ [last]).map Segment.index
  truncates : TruncatesAt (segments ++ [last]) w.truncateIndex

/-- The segment of a file that holds its anchor only. -/
def Segment.next (last : Segment) : Segment :=
  ⟨last.index + 1, last.crc, [], [], last.crc, []⟩

theorem Segment.bytes_next (c : Codec) (last : Segment) :
    (last.next).bytes c = c.frame (last.crc) anchorRecord := by
  simp [Segment.next, Segment.bytes]

theorem Complete.truncateIndex_le
    (h : Complete c w segments last) : w.truncateIndex ≤ last.index := by
  rcases h.truncates with hnone | ⟨s, hs, hindex, -⟩
  · exact hnone last (by simp)
  · rw [← hindex]
    rcases List.mem_append.mp hs with hs | hs
    · have hlt := (List.pairwise_append.mp h.chain.index_lt).2.2 s hs last (by simp)
      omega
    · rw [List.mem_singleton.mp hs]

structure Advanced (c : Codec) (w : WriteAheadLogFile) (segments : List Segment)
    (last : Segment) (outcome : Outcome Unit) : Prop where
  ok : outcome.result = .ok ()
  logFile : outcome.log.logFile =
    some ⟨last.index + 1, ((last.next).bytes c).length⟩
  readMode : outcome.log.readMode = w.readMode
  closed : outcome.log.closed = w.closed
  rest : ∃ kept, Complete c outcome.log kept (last.next) ∧
    applyAll DiskOp.apply outcome.ops (files c (segments ++ [last])) =
      files c (kept ++ [last.next]) ∧
    retained (recordsOf (kept ++ [last.next])) =
      retained (recordsOf (segments ++ [last]))
  safe : CrashSafe DiskOp.apply DiskOp.torn
    (fun disk => Whole c (retained (recordsOf (segments ++ [last]))) disk ∨
      Unanchored c disk) outcome.ops (files c (segments ++ [last]))

theorem Complete.files_lt (h : Complete c w segments last) :
    ∀ f ∈ files c (segments ++ [last]), f.index < last.index + 1 := by
  intro f hf
  obtain ⟨s, hs, rfl⟩ := List.mem_map.mp hf
  rcases List.mem_append.mp hs with hs | hs
  · have hlt := (List.pairwise_append.mp h.chain.index_lt).2.2 s hs last (by simp)
    simp only [Segment.file]
    omega
  · rw [List.mem_singleton.mp hs]
    simp [Segment.file]

theorem dropWhile_concat (h : t ≤ last.index) :
    (segments ++ [last]).dropWhile (Segment.obsolete t) =
      segments.dropWhile (Segment.obsolete t) ++ [last] := by
  induction segments with
  | nil => simp [h]
  | cons s segments ih =>
    by_cases hs : s.index < t
    · simp [hs, ih]
    · simp [hs]

theorem Whole.of_suffix (h : Complete c w segments last) {left : List Segment}
    (hleft : left <:+ (segments ++ [last]).takeWhile (Segment.obsolete w.truncateIndex)) :
    Whole c (retained (recordsOf (segments ++ [last])))
      (files c (left ++ (segments ++ [last]).dropWhile
        (Segment.obsolete w.truncateIndex))) := by
  have hitems := retained_dropWhile h.chain h.truncates hleft
  have hsplit := @List.takeWhile_append_dropWhile _ (Segment.obsolete w.truncateIndex)
    (segments ++ [last])
  obtain ⟨gone, hgone⟩ := hleft
  have hchain : Chain c (left ++ (segments ++ [last]).dropWhile
      (Segment.obsolete w.truncateIndex)) := by
    apply @Chain.of_append_right c gone
    rw [← List.append_assoc, hgone, hsplit]
    exact h.chain
  rw [← hitems]
  rw [dropWhile_concat h.truncateIndex_le, ← List.append_assoc] at hchain ⊢
  exact Whole.of_concat hchain (.inl rfl) h.ends

def keptSegments (t : Nat) (segments : List Segment) (last : Segment) : List Segment :=
  segments.dropWhile (Segment.obsolete t) ++ [last]

theorem Complete.obsolete_eq (h : Complete c w segments last) :
    w.activeIndexes.takeWhile (· < w.truncateIndex) =
      ((segments ++ [last]).takeWhile (Segment.obsolete w.truncateIndex)).map
        Segment.index := by
  rw [h.active, List.takeWhile_map]
  rfl

theorem Complete.deleteAndCreateFile_eq (h : Complete c w segments last) :
    w.deleteAndCreateFile c =
      ⟨{ w with
          index := last.index + 1
          logFile := some ⟨last.index + 1, ((last.next).bytes c).length⟩
          activeIndexes :=
            (keptSegments w.truncateIndex segments last ++ [last.next]).map
              Segment.index },
        (((segments ++ [last]).takeWhile (Segment.obsolete w.truncateIndex)).map
          Segment.index).map .remove ++
          .create (last.index + 1) ::
            OpenFile.writeFrame c ⟨last.index + 1, 0⟩ (last.crc) anchorRecord,
        .ok ()⟩ := by
  have hactive : w.activeIndexes.dropWhile (· < w.truncateIndex) =
      (keptSegments w.truncateIndex segments last).map Segment.index := by
    rw [h.active, List.dropWhile_map, keptSegments, ← dropWhile_concat h.truncateIndex_le]
    rfl
  have hne : (keptSegments w.truncateIndex segments last).map Segment.index ≠ [] := by
    simp [keptSegments]
  simp only [WriteAheadLogFile.deleteAndCreateFile, hactive, h.obsolete_eq, hne, if_false,
    h.index, h.crc, OpenFile.advance, Segment.bytes_next, length_frame, List.map_append]
  simp [Segment.next]

theorem Complete.next (h : Complete c w segments last) :
    Complete c (w.deleteAndCreateFile c).log (keptSegments w.truncateIndex segments last)
      (last.next) := by
  have hmem : ∀ {s}, s ∈ segments ++ [last] → w.truncateIndex ≤ s.index →
      s ∈ keptSegments w.truncateIndex segments last := by
    intro s hs hindex
    rw [keptSegments, ← dropWhile_concat h.truncateIndex_le]
    exact mem_dropWhile_obsolete h.chain.index_lt hs hindex
  rw [h.deleteAndCreateFile_eq]
  constructor
  · apply Chain.concat
    · apply @Chain.of_append_right c
        ((segments ++ [last]).takeWhile (Segment.obsolete w.truncateIndex))
      rw [← dropWhile_concat h.truncateIndex_le, List.takeWhile_append_dropWhile]
      exact h.chain
    · exact ⟨rfl, rfl, h.ends⟩
    · exact Segment.readable_of_body_nil rfl rfl rfl
  · exact Segment.endsWith_of_tail_nil rfl
  · rfl
  · exact h.crc
  · rfl
  · rcases h.truncates with hnone | ⟨s, hs, hindex, hflag⟩
    · left
      intro s hs
      rcases List.mem_append.mp hs with hs | hs
      · rw [keptSegments, ← dropWhile_concat h.truncateIndex_le] at hs
        exact hnone s ((List.dropWhile_sublist _).mem hs)
      · have hle := h.truncateIndex_le
        rw [List.mem_singleton.mp hs]
        simp only [Segment.next]
        omega
    · exact .inr ⟨s, List.mem_append_left _ (hmem hs (Nat.le_of_eq hindex.symm)), hindex,
        hflag⟩

theorem Complete.deleteAndCreateFile (h : Complete c w segments last) :
    Advanced c w segments last (w.deleteAndCreateFile c) := by
  have hkept : (segments ++ [last]).dropWhile (Segment.obsolete w.truncateIndex) =
      keptSegments w.truncateIndex segments last :=
    dropWhile_concat h.truncateIndex_le
  have hsplit := @List.takeWhile_append_dropWhile _ (Segment.obsolete w.truncateIndex)
    (segments ++ [last])
  rw [hkept] at hsplit
  have hchain : Chain c ((segments ++ [last]).takeWhile
      (Segment.obsolete w.truncateIndex) ++ keptSegments w.truncateIndex segments last) := by
    rw [hsplit]
    exact h.chain
  have hitems : retained (recordsOf (keptSegments w.truncateIndex segments last ++
      [last.next])) = retained (recordsOf (segments ++ [last])) := by
    rw [recordsOf_append, ← hkept]
    simpa [recordsOf, Segment.next] using
      retained_dropWhile h.chain h.truncates (List.nil_suffix)
  have hlt : ∀ f ∈ files c (keptSegments w.truncateIndex segments last),
      f.index < last.index + 1 := by
    intro f hf
    apply h.files_lt f
    rw [← hsplit, files_append]
    exact List.mem_append_right _ hf
  have hfile : files c (keptSegments w.truncateIndex segments last) ++
      [⟨last.index + 1, c.frame (last.crc) anchorRecord⟩] =
      files c (keptSegments w.truncateIndex segments last ++ [last.next]) := by
    rw [files_append, ← last.bytes_next c]
    rfl
  have hwhole := Whole.of_concat h.next.chain (.inl rfl) h.next.ends
  rw [hitems] at hwhole
  have hremoved := applyAll_removes hchain
  have hremoving := @crashSafe_removes c _ _
    (fun disk => Whole c (retained (recordsOf (segments ++ [last]))) disk ∨
      Unanchored c disk) hchain fun left hleft => .inl (hkept ▸ Whole.of_suffix h hleft)
  rw [hsplit] at hremoved hremoving
  refine ⟨?_, ?_, ?_, ?_, ⟨_, h.next, ?_, hitems⟩, ?_⟩
  · rw [h.deleteAndCreateFile_eq]
  · rw [h.deleteAndCreateFile_eq]
  · rw [h.deleteAndCreateFile_eq]
  · rw [h.deleteAndCreateFile_eq]
  · rw [h.deleteAndCreateFile_eq, applyAll_append, hremoved, applyAll_newFile _ hlt, hfile]
  · rw [h.deleteAndCreateFile_eq]
    apply CrashSafe.append hremoving
    rw [hremoved]
    refine crashSafe_newFile hlt ?_ ?_ ?_
    · exact .inl (hkept ▸ Whole.of_suffix h List.nil_suffix)
    · exact fun _ htorn => .inr htorn
    · rw [hfile]
      exact .inl hwhole

/-! ## Appending a record -/

structure Writing (c : Codec) (w : WriteAheadLogFile) (segments : List Segment)
    (last : Segment) : Prop extends Complete c w segments last where
  readMode : w.readMode = false
  closed : w.closed = false
  logFile : w.logFile = some ⟨last.index, (last.bytes c).length⟩
  tail : last.tail = []

structure Running (c : Codec) (w : WriteAheadLogFile) (disk : Disk)
    (items : List Bytes) : Prop where
  writing : ∃ segments last, Writing c w segments last ∧
    disk = files c (segments ++ [last]) ∧
    retained (recordsOf (segments ++ [last])) = items

theorem Advanced.running {log : WriteAheadLogFile} {outcome : Outcome Unit}
    (h : Advanced c w segments last outcome)
    (hlog : log = { outcome.log with readMode := false }) (hclosed : w.closed = false) :
    Running c log (applyAll DiskOp.apply outcome.ops (files c (segments ++ [last])))
      (retained (recordsOf (segments ++ [last]))) := by
  obtain ⟨kept, hcomplete, hdisk, hitems⟩ := h.rest
  subst hlog
  refine ⟨kept, last.next, ?_, hdisk, hitems⟩
  exact ⟨{ hcomplete with }, rfl, h.closed.trans hclosed, h.logFile, rfl⟩

def Segment.add (c : Codec) (s : Segment) (record : LogRecord) : Segment :=
  { s with
    body := s.body ++ c.frame (c.nextCRC s.crc record) record
    records := s.records ++ [record]
    crc := c.nextCRC s.crc record }

theorem Segment.bytes_add (h : s.tail = []) (record : LogRecord) :
    (s.add c record).bytes c = s.bytes c ++ c.frame (c.nextCRC s.crc record) record := by
  simp [Segment.add, Segment.bytes, h]

theorem Segment.Readable.add (h : s.Readable c) {record : LogRecord}
    (happ : c.Appendable record) : (s.add c record).Readable c := by
  intro rest
  simp only [Segment.add]
  rw [List.append_assoc, h, readRecords_of_ok (read_frame s.crc rest happ), List.append_assoc]
  rfl

theorem recordsOf_add (segments : List Segment) (last : Segment) (record : LogRecord) :
    recordsOf (segments ++ [last.add c record]) =
      recordsOf (segments ++ [last]) ++ [record] := by
  simp [recordsOf, Segment.add]

namespace Writing

def written (c : Codec) (w : WriteAheadLogFile) (last : Segment) (record : LogRecord) :
    WriteAheadLogFile :=
  { w with
    crc := c.nextCRC w.crc record
    logFile := some ⟨last.index, ((last.add c record).bytes c).length⟩
    truncateIndex := if record.truncateTo then w.index else w.truncateIndex }

theorem whole (h : Writing c w segments last) :
    Whole c (retained (recordsOf (segments ++ [last]))) (files c (segments ++ [last])) :=
  Whole.of_concat h.chain (.inl rfl) h.ends

theorem files_lt (h : Writing c w segments last) :
    ∀ f ∈ files c segments, f.index < last.index := by
  intro f hf
  obtain ⟨s, hs, rfl⟩ := List.mem_map.mp hf
  exact (List.pairwise_append.mp h.chain.index_lt).2.2 s hs last (by simp)

theorem chain_add (h : Writing c w segments last) {record : LogRecord}
    (happ : c.Appendable record) : Chain c (segments ++ [last.add c record]) := by
  exact Chain.replace_last h.chain (rfl : (last.add c record).index = last.index) rfl
    ((h.chain.readable last (by simp)).add happ)

theorem add (h : Writing c w segments last) {record : LogRecord}
    (happ : c.Appendable record) :
    Writing c (written c w last record) segments (last.add c record) where
  chain := h.chain_add happ
  ends := Segment.endsWith_of_tail_nil h.tail
  index := h.index
  crc := by simp only [written, Segment.add, h.crc]
  active := by
    simp only [written, h.active]
    simp [Segment.add]
  truncates := by
    cases hflag : record.truncateTo with
    | true =>
      exact .inr ⟨last.add c record, by simp, by simp [written, hflag, h.index, Segment.add],
        by simp [Segment.add, hflag]⟩
    | false =>
      have hsame : (written c w last record).truncateIndex = w.truncateIndex := by
        simp [written, hflag]
      rw [hsame]
      rcases h.truncates with hnone | ⟨s, hs, hindex, hany⟩
      · left
        intro s hs
        rcases List.mem_append.mp hs with hs | hs
        · exact hnone s (List.mem_append_left _ hs)
        · rw [List.mem_singleton.mp hs]
          exact hnone last (by simp)
      · rcases List.mem_append.mp hs with hs | hs
        · exact .inr ⟨s, List.mem_append_left _ hs, hindex, hany⟩
        · rw [List.mem_singleton] at hs
          subst hs
          exact .inr ⟨s.add c record, by simp, hindex, by simp [Segment.add, hany]⟩
  readMode := h.readMode
  closed := h.closed
  logFile := rfl
  tail := h.tail

def frameOps (c : Codec) (last : Segment) (record : LogRecord) : List DiskOp :=
  OpenFile.writeFrame c ⟨last.index, (last.bytes c).length⟩
    (c.nextCRC (last.crc) record) record

theorem advance_eq (h : Writing c w segments last) (record : LogRecord) :
    (⟨last.index, (last.bytes c).length⟩ : OpenFile).advance c record =
      ⟨last.index, ((last.add c record).bytes c).length⟩ := by
  rw [OpenFile.advance, Segment.bytes_add h.tail, List.length_append, length_frame,
    Nat.add_assoc]

theorem writeFrame_eq (h : Writing c w segments last) (record : LogRecord) :
    OpenFile.writeFrame c ⟨last.index, (last.bytes c).length⟩
      (crcUpdate w.crc (c.payload record)) record = frameOps c last record := by
  rw [h.crc]
  rfl

theorem append_eq (h : Writing c w segments last) {record : LogRecord}
    (happ : c.Appendable record) :
    w.append c record =
      if ((written c w last record).fileSizeBytes - 16).toInt <
          (((last.add c record).bytes c).length : Int) then
        let switched := (written c w last record).switchFiles c
        match switched.result with
        | .error e =>
          ⟨switched.log, frameOps c last record ++ switched.ops,
            .error (.wrapped .switchLogFiles e)⟩
        | .ok () => ⟨switched.log, frameOps c last record ++ switched.ops, .ok ()⟩
      else ⟨written c w last record, frameOps c last record, .ok ()⟩ := by
  have hfits : ¬ 2 ^ 32 ≤ (c.marshal record).length := by
    have := happ.fits
    omega
  simp only [WriteAheadLogFile.append, h.closed, h.readMode, h.logFile, hfits, if_false,
    Bool.false_eq_true, h.writeFrame_eq, h.advance_eq, written]
  rfl

theorem applyAll_frameOps (h : Writing c w segments last) (record : LogRecord) :
    applyAll DiskOp.apply (frameOps c last record) (files c (segments ++ [last])) =
      files c (segments ++ [last.add c record]) := by
  have hwrite := @applyAll_writeFrame c (files c segments) last.index (last.bytes c)
    (c.nextCRC (last.crc) record) record h.files_lt
  rw [← Segment.bytes_add h.tail] at hwrite
  simpa [files_append, files, Segment.file, frameOps, Segment.add] using hwrite

theorem crashSafe_frameOps (h : Writing c w segments last) {record : LogRecord}
    (happ : c.Appendable record) :
    CrashSafe DiskOp.apply DiskOp.torn
      (fun disk => Whole c (retained (recordsOf (segments ++ [last]))) disk ∨
        Whole c (retained (recordsOf (segments ++ [last.add c record]))) disk)
      (frameOps c last record) (files c (segments ++ [last])) := by
  have hfiles : files c (segments ++ [last]) =
      files c segments ++ [⟨last.index, last.bytes c⟩] := by
    simp [files, Segment.file]
  rw [hfiles]
  refine crashSafe_writeFrame h.files_lt ?_
  intro part
  by_cases hpart : part < (c.frame (c.nextCRC (last.crc) record) record).length
  · left
    obtain ⟨e, hcut, hread⟩ := read_torn _ (last.crc) happ.fits hpart
    let torn : Segment :=
      { last with tail := (c.frame (c.nextCRC (last.crc) record) record).take part }
    have hchain : Chain c (segments ++ [torn]) :=
      h.chain.replace_last rfl rfl (h.chain.readable last (by simp))
    have hwhole := Whole.of_concat hchain hcut hread
    simpa [files, Segment.file, recordsOf, torn, Segment.bytes, h.tail] using hwhole
  · right
    rw [List.take_of_length_le (by omega), ← Segment.bytes_add h.tail]
    have hwhole := (h.add happ).whole
    simpa [files, Segment.file, Segment.add] using hwhole

theorem truncateAndCloseLogFile_eq (h : Writing c w segments last) :
    w.truncateAndCloseLogFile =
      [.truncate last.index (last.bytes c).length, .sync last.index] := by
  simp [WriteAheadLogFile.truncateAndCloseLogFile, h.logFile, h.readMode]

theorem apply_truncate (h : Writing c w segments last) :
    DiskOp.apply (.truncate last.index (last.bytes c).length) (files c (segments ++ [last])) =
      files c (segments ++ [last]) := by
  have htruncate := apply_truncate_end (last.bytes c) h.files_lt
  simpa [files, Segment.file] using htruncate

theorem applyAll_close (h : Writing c w segments last) :
    applyAll DiskOp.apply w.truncateAndCloseLogFile (files c (segments ++ [last])) =
      files c (segments ++ [last]) := by
  simp [h.truncateAndCloseLogFile_eq, h.apply_truncate]

theorem crashSafe_close (h : Writing c w segments last) {condition : Disk → Prop}
    (hcondition : condition (files c (segments ++ [last]))) :
    CrashSafe DiskOp.apply DiskOp.torn condition w.truncateAndCloseLogFile
      (files c (segments ++ [last])) := by
  rw [h.truncateAndCloseLogFile_eq]
  refine CrashSafe.cons (fun _ => hcondition) ?_
  rw [h.apply_truncate]
  exact CrashSafe.cons (fun _ => hcondition) (CrashSafe.nil hcondition)

theorem switchFiles_eq (h : Writing c w segments last) :
    w.switchFiles c =
      { w.deleteAndCreateFile c with
        ops := w.truncateAndCloseLogFile ++ (w.deleteAndCreateFile c).ops } := by
  simp [WriteAheadLogFile.switchFiles, h.readMode]

theorem append_cases (h : Writing c w segments last) {record : LogRecord}
    (happ : c.Appendable record) :
    w.append c record = ⟨written c w last record, frameOps c last record, .ok ()⟩ ∨
      w.append c record =
        ⟨((written c w last record).deleteAndCreateFile c).log,
          frameOps c last record ++ ((written c w last record).truncateAndCloseLogFile ++
            ((written c w last record).deleteAndCreateFile c).ops), .ok ()⟩ := by
  have hadd := h.add happ
  have hadvanced := hadd.toComplete.deleteAndCreateFile
  rw [h.append_eq happ]
  split
  · right
    simp only [hadd.switchFiles_eq, hadvanced.ok]
  · exact .inl rfl

end Writing

structure Appended (c : Codec) (disk : Disk) (items : List Bytes) (record : LogRecord)
    (outcome : Outcome Unit) : Prop where
  ok : outcome.result = .ok ()
  running : Running c outcome.log (applyAll DiskOp.apply outcome.ops disk)
    (keep items record)
  safe : CrashSafe DiskOp.apply DiskOp.torn
    (fun disk => Whole c items disk ∨ Whole c (keep items record) disk ∨
      Unanchored c disk) outcome.ops disk

theorem Running.append {items : List Bytes}
    (h : Running c w disk items) {record : LogRecord} (happ : c.Appendable record) :
    Appended c disk items record (w.append c record) := by
  obtain ⟨segments, last, hwriting, rfl, rfl⟩ := h.writing
  have hadd := hwriting.add happ
  have hadvanced := hadd.toComplete.deleteAndCreateFile
  have hframe := hwriting.applyAll_frameOps record
  have hsafe := hwriting.crashSafe_frameOps happ
  have hitems : retained (recordsOf (segments ++ [last.add c record])) =
      keep (retained (recordsOf (segments ++ [last]))) record := by
    rw [recordsOf_add, retained_concat]
  rw [hitems] at hsafe
  rcases hwriting.append_cases happ with happend | happend
  · rw [happend]
    refine ⟨rfl, ⟨segments, last.add c record, hadd, hframe, hitems⟩, ?_⟩
    exact hsafe.mono fun _ hdisk => hdisk.imp_right .inl
  · have hwhole := hadd.whole
    have hswitch := hadvanced.safe
    rw [hitems] at hwhole hswitch
    rw [happend]
    refine ⟨rfl, ?_, ?_⟩
    · have hmode : ((Writing.written c w last record).deleteAndCreateFile c).log.readMode =
          false := hadvanced.readMode.trans hadd.readMode
      have hrunning := hadvanced.running (by rw [← hmode]) hadd.closed
      rw [applyAll_append, applyAll_append, hframe, hadd.applyAll_close, ← hitems]
      exact hrunning
    · refine CrashSafe.append (hsafe.mono fun _ hdisk => hdisk.imp_right .inl) ?_
      rw [hframe]
      refine CrashSafe.append (hadd.crashSafe_close (.inr (.inl hwhole))) ?_
      rw [hadd.applyAll_close]
      exact hswitch.mono fun _ hdisk => .inr hdisk

end SmartBFT.Wal
