import Mathlib.Data.List.Chain
import SmartBFT.Wal.Log

/-!
# What the files of a log hold

A log is a chain of segments, one for each file: an anchor with the CRC that
the segment before it reached, a body that a reader takes for some records, and
a tail that no reader takes for a record.  The reading functions are computed on such a
chain, and the items of the log are a function of its records.
-/

namespace SmartBFT.Wal

open SmartBFT.Foundation

/-! ## The items of a list of records -/

def fromLastTruncation : List LogRecord → List LogRecord
  | [] => []
  | record :: records =>
    if records.any LogRecord.truncateTo then fromLastTruncation records
    else record :: records

def entryData (record : LogRecord) : List Bytes :=
  if record.type = .entry then [record.data] else []

def retained (records : List LogRecord) : List Bytes :=
  (fromLastTruncation records).flatMap entryData

def keep (items : List Bytes) (record : LogRecord) : List Bytes :=
  (if record.truncateTo then [] else items) ++ entryData record

theorem fromLastTruncation_append (records more : List LogRecord)
    (h : more.any LogRecord.truncateTo = true) :
    fromLastTruncation (records ++ more) = fromLastTruncation more := by
  induction records with
  | nil => rfl
  | cons record records ih => simp [fromLastTruncation, h, ih]

theorem fromLastTruncation_append_unflagged (records more : List LogRecord)
    (h : more.any LogRecord.truncateTo = false) :
    fromLastTruncation (records ++ more) = fromLastTruncation records ++ more := by
  induction records with
  | nil =>
    cases more with
    | nil => rfl
    | cons record more =>
      rw [List.any_cons, Bool.or_eq_false_iff] at h
      simp [fromLastTruncation, h.2]
  | cons record records ih =>
    simp only [List.cons_append, fromLastTruncation, List.any_append, h, Bool.or_false, ih]
    split <;> rfl

theorem fromLastTruncation_concat (records : List LogRecord) (record : LogRecord) :
    fromLastTruncation (records ++ [record]) =
      if record.truncateTo then [record] else fromLastTruncation records ++ [record] := by
  cases hflag : record.truncateTo with
  | true => simp [fromLastTruncation_append records [record] (by simpa using hflag),
      fromLastTruncation]
  | false => simp [fromLastTruncation_append_unflagged records [record] (by simpa using hflag)]

theorem retained_concat (records : List LogRecord) (record : LogRecord) :
    retained (records ++ [record]) = keep (retained records) record := by
  rw [retained, fromLastTruncation_concat, keep, retained]
  cases record.truncateTo <;> simp

theorem retained_append (records more : List LogRecord)
    (h : more.any LogRecord.truncateTo = true) :
    retained (records ++ more) = retained more := by
  rw [retained, fromLastTruncation_append records more h, retained]

theorem retained_append_unflagged (records more : List LogRecord)
    (h : more.any LogRecord.truncateTo = false) :
    retained (records ++ more) = retained records ++ more.flatMap entryData := by
  rw [retained, fromLastTruncation_append_unflagged records more h, List.flatMap_append, retained]

theorem foldl_keep_retained (records more : List LogRecord) :
    more.foldl keep (retained records) = retained (records ++ more) := by
  induction more generalizing records with
  | nil => simp
  | cons record more ih =>
    rw [List.foldl_cons, ← retained_concat, ih]
    simp

/-! ## Segments -/

structure Segment where
  index : Nat
  anchor : UInt32
  body : Bytes
  -- what a reader makes of the body, and the CRC that it reaches
  records : List LogRecord
  crc : UInt32
  tail : Bytes

variable {c : Codec}

namespace Segment

def bytes (c : Codec) (s : Segment) : Bytes :=
  c.frame s.anchor anchorRecord ++ (s.body ++ s.tail)

def file (c : Codec) (s : Segment) : LogFile := ⟨s.index, s.bytes c⟩

def Readable (c : Codec) (s : Segment) : Prop :=
  ∀ rest, readRecords c ⟨s.body ++ rest, s.anchor⟩ =
    { readRecords c ⟨rest, s.crc⟩ with
      records := s.records ++ (readRecords c ⟨rest, s.crc⟩).records }

def EndsWith (c : Codec) (s : Segment) (e : WalError) : Prop :=
  LogRecordReader.read c ⟨s.tail, s.crc⟩ = .error e

def Follows (c : Codec) (a b : Segment) : Prop :=
  b.index = a.index + 1 ∧ b.anchor = a.crc ∧ a.EndsWith c .eof

theorem newLogRecordReader_bytes (c : Codec) (s : Segment) :
    newLogRecordReader c (s.bytes c) =
      .ok ⟨s.body ++ s.tail, s.anchor⟩ :=
  newLogRecordReader_anchor c s.anchor _

theorem readRecords_bytes {s : Segment} {e : WalError} (hreadable : s.Readable c)
    (hends : s.EndsWith c e) :
    readRecords c ⟨s.body ++ s.tail, s.anchor⟩ = ⟨s.records, ⟨s.tail, s.crc⟩, e⟩ := by
  rw [hreadable, readRecords_of_error hends, List.append_nil]

theorem readable_of_body_nil {s : Segment} (hbody : s.body = []) (hrecords : s.records = [])
    (hcrc : s.crc = s.anchor) : s.Readable c := by
  intro rest
  rw [hbody, hrecords, hcrc]
  rfl

theorem endsWith_of_tail_nil {s : Segment} (h : s.tail = []) : s.EndsWith c .eof := by
  rw [EndsWith, h]
  rfl

end Segment

structure Chain (c : Codec) (segments : List Segment) : Prop where
  readable : ∀ s ∈ segments, s.Readable c
  linked : segments.IsChain (Segment.Follows c)

def files (c : Codec) (segments : List Segment) : Disk :=
  segments.map (Segment.file c)

def recordsOf (segments : List Segment) : List LogRecord :=
  segments.flatMap Segment.records

theorem recordsOf_append (segments more : List Segment) :
    recordsOf (segments ++ more) = recordsOf segments ++ recordsOf more :=
  List.flatMap_append

theorem files_append (c : Codec) (segments more : List Segment) :
    files c (segments ++ more) = files c segments ++ files c more :=
  List.map_append

variable {segments before after : List Segment} {last s : Segment} {disk : Disk}

theorem Chain.of_append_right (h : Chain c (before ++ after)) :
    Chain c after where
  readable s hs := h.readable s (List.mem_append_right before hs)
  linked := (List.isChain_append.mp h.linked).2.1

theorem Chain.of_append_left (h : Chain c (before ++ after)) :
    Chain c before where
  readable s hs := h.readable s (List.mem_append_left after hs)
  linked := (List.isChain_append.mp h.linked).1

theorem Chain.concat {next : Segment}
    (h : Chain c (segments ++ [last])) (hnext : Segment.Follows c last next)
    (hreadable : next.Readable c) :
    Chain c (segments ++ [last] ++ [next]) where
  readable s hs := by
    rcases List.mem_append.mp hs with hs | hs
    · exact h.readable s hs
    · rw [List.mem_singleton.mp hs]
      exact hreadable
  linked := by
    rw [List.isChain_append]
    refine ⟨h.linked, List.IsChain.singleton next, ?_⟩
    intro a ha b hb
    simp only [List.getLast?_concat, Option.mem_some_iff, List.head?_cons] at ha hb
    subst ha hb
    exact hnext

theorem Chain.replace_last {other : Segment}
    (h : Chain c (segments ++ [last])) (hindex : other.index = last.index)
    (hanchor : other.anchor = last.anchor)
    (hreadable : other.Readable c) :
    Chain c (segments ++ [other]) where
  readable s hs := by
    rcases List.mem_append.mp hs with hs | hs
    · exact h.readable s (List.mem_append_left _ hs)
    · rw [List.mem_singleton.mp hs]
      exact hreadable
  linked := by
    have hlinked := List.isChain_append.mp h.linked
    rw [List.isChain_append]
    refine ⟨hlinked.1, List.IsChain.singleton other, ?_⟩
    intro a ha b hb
    have hfollows := hlinked.2.2 a ha last (by simp)
    simp only [List.head?_cons, Option.mem_some_iff] at hb
    subst hb
    exact ⟨hindex.trans hfollows.1, hanchor.trans hfollows.2.1, hfollows.2.2⟩

theorem Chain.earlier_endsWith_eof
    (h : Chain c (segments ++ [last])) : ∀ s ∈ segments, s.EndsWith c .eof := by
  induction segments with
  | nil => simp
  | cons first segments ih =>
    intro s hs
    rcases List.mem_cons.mp hs with rfl | hs
    · cases segments with
      | nil => exact (List.isChain_cons_cons.mp h.linked).1.2.2
      | cons second segments => exact (List.isChain_cons_cons.mp h.linked).1.2.2
    · exact ih (@Chain.of_append_right c [first] _ h) s hs

theorem Chain.endsWith_eof (h : Chain c (segments ++ [last])) (hlast : last.EndsWith c .eof) :
    ∀ s ∈ segments ++ [last], s.EndsWith c .eof := by
  intro s hs
  rcases List.mem_append.mp hs with hs | hs
  · exact h.earlier_endsWith_eof s hs
  · rw [List.mem_singleton.mp hs]
    exact hlast

theorem Chain.index_lt (h : Chain c segments) :
    segments.Pairwise fun a b => a.index < b.index := by
  rw [← List.isChain_iff_pairwise]
  exact h.linked.imp fun _ _ hfollows => by
    have := hfollows.1
    omega

/-! ## Reading the files of a chain -/

theorem read_of_mem {file : LogFile}
    (hsorted : disk.Pairwise fun a b => a.index < b.index) (h : file ∈ disk) :
    disk.read file.index = some file.bytes := by
  induction disk with
  | nil => simp at h
  | cons first disk ih =>
    rw [List.pairwise_cons] at hsorted
    rcases List.mem_cons.mp h with rfl | h
    · simp [Disk.read]
    · have hother : first.index ≠ file.index := by
        have := hsorted.1 file h
        omega
      have hrest := ih hsorted.2 h
      simp only [Disk.read] at hrest ⊢
      rw [List.find?_cons_of_neg (by simpa using hother), hrest]

theorem Chain.files_sorted (h : Chain c segments) :
    (files c segments).Pairwise fun a b => a.index < b.index := by
  rw [files, List.pairwise_map]
  exact h.index_lt

theorem Chain.read_file (h : Chain c segments)
    (hs : s ∈ segments) : (files c segments).read s.index = some (s.bytes c) :=
  read_of_mem h.files_sorted (List.mem_map_of_mem hs : s.file c ∈ files c segments)

theorem checkWalFiles_files (h : Chain c segments) {previous : Option Nat}
    (hprevious : ∀ p ∈ previous, ∀ s ∈ segments.head?, s.index = p + 1) :
    checkWalFiles c previous (files c segments) = .ok (segments.map Segment.index) := by
  induction segments generalizing previous with
  | nil => rfl
  | cons s segments ih =>
    have hrest := @ih (@Chain.of_append_right c [s] _ h) (some s.index) (by
      intro p hp t ht
      rw [Option.mem_some_iff] at hp
      subst hp
      exact (h.linked.rel_head? ht).1)
    have hsequence : previous.all (fun p => s.index = p + 1) = true := by
      cases previous with
      | none => rfl
      | some p => simpa using hprevious p rfl s rfl
    simp only [files, List.map_cons, checkWalFiles, Segment.file,
      s.newLogRecordReader_bytes]
    rw [if_pos hsequence]
    simp only [files] at hrest
    rw [hrest]

theorem checkWalFiles_torn {file : LogFile} {e : WalError}
    (h : newLogRecordReader c file.bytes = .error e) (previous : Option Nat)
    (disk : Disk) : ∃ e, checkWalFiles c previous (disk ++ [file]) = .error e := by
  induction disk generalizing previous with
  | nil => exact ⟨.unexpectedEOF, by simp [checkWalFiles, h]⟩
  | cons first disk ih =>
    obtain ⟨e, hrest⟩ := ih (some first.index)
    simp only [List.cons_append, checkWalFiles, hrest]
    cases newLogRecordReader c first.bytes with
    | error e => simp
    | ok r => cases previous.all _ <;> simp

def ReadState.afterFile (state : ReadState) (s : Segment) : ReadState :=
  { s.records.foldl ReadState.take { state with index := s.index } with crc := s.crc }

theorem readFiles_cons {lastIndex : Nat} (hread : disk.read s.index = some (s.bytes c))
    (hreadable : s.Readable c) (hends : s.EndsWith c .eof)
    {first : Bool} {state : ReadState} (hfirst : first = true ∨ s.anchor = state.crc)
    (indexes : List Nat) :
    readFiles c disk lastIndex first (s.index :: indexes) state =
      readFiles c disk lastIndex false indexes (state.afterFile s) := by
  have hanchor : (!first && decide (s.anchor ≠ state.crc)) = false := by
    rcases hfirst with rfl | hfirst
    · rfl
    · simp [hfirst]
  simp only [readFiles, hread, s.newLogRecordReader_bytes,
    Segment.readRecords_bytes hreadable hends]
  rw [if_neg (by simpa using hanchor)]
  simp [ReadState.afterFile]

theorem readFiles_append {lastIndex : Nat} (hchain : Chain c segments)
    (hread : ∀ s ∈ segments, disk.read s.index = some (s.bytes c))
    (hends : ∀ s ∈ segments, s.EndsWith c .eof)
    {first : Bool} {state : ReadState}
    (hfirst : first = true ∨ ∀ s ∈ segments.head?, s.anchor = state.crc)
    (indexes : List Nat) :
    readFiles c disk lastIndex first (segments.map Segment.index ++ indexes) state =
      readFiles c disk lastIndex (first && segments.isEmpty) indexes
        (segments.foldl (ReadState.afterFile) state) := by
  induction segments generalizing first state with
  | nil => simp
  | cons s segments ih =>
    have hhere := @readFiles_cons c s disk lastIndex
      (hread s (List.mem_cons_self ..)) (hchain.readable s (List.mem_cons_self ..))
      (hends s (List.mem_cons_self ..)) first state
      (hfirst.imp id fun h => h s rfl) (segments.map Segment.index ++ indexes)
    have hrest := @ih (@Chain.of_append_right c [s] _ hchain)
      (fun t ht => hread t (List.mem_cons_of_mem _ ht))
      (fun t ht => hends t (List.mem_cons_of_mem _ ht)) false (state.afterFile s)
      (.inr fun t ht => (hchain.linked.rel_head? ht).2.1)
    rw [List.map_cons, List.cons_append, hhere, hrest]
    simp

structure ReadState.Reads (segments : List Segment)
    (state state' : ReadState) : Prop where
  items : state'.items = (recordsOf segments).foldl keep state.items
  truncateIndex : state'.truncateIndex = state.truncateIndex ∨
    ∃ s ∈ segments, s.index = state'.truncateIndex ∧
      s.records.any LogRecord.truncateTo = true

theorem take_items (state : ReadState) (records : List LogRecord) :
    (records.foldl ReadState.take state).items = records.foldl keep state.items := by
  induction records generalizing state with
  | nil => rfl
  | cons record records ih =>
    rw [List.foldl_cons, ih, List.foldl_cons]
    congr 1
    cases hflag : record.truncateTo <;> by_cases hentry : record.type = .entry <;>
      simp [ReadState.take, keep, entryData, hflag, hentry]

theorem take_index (state : ReadState) (records : List LogRecord) :
    (records.foldl ReadState.take state).index = state.index := by
  induction records generalizing state with
  | nil => rfl
  | cons record records ih =>
    rw [List.foldl_cons, ih]
    cases hflag : record.truncateTo <;> by_cases hentry : record.type = .entry <;>
      simp [ReadState.take, hflag, hentry]

theorem take_truncateIndex (state : ReadState) (records : List LogRecord) :
    (records.foldl ReadState.take state).truncateIndex =
      if records.any LogRecord.truncateTo then state.index else state.truncateIndex := by
  induction records generalizing state with
  | nil => rfl
  | cons record records ih =>
    rw [List.foldl_cons, ih]
    cases hflag : record.truncateTo <;> by_cases hentry : record.type = .entry <;>
      simp [ReadState.take, hflag, hentry]

theorem afterFile_reads (state : ReadState) (s : Segment) :
    ReadState.Reads [s] state (state.afterFile s) where
  items := by
    simp only [ReadState.afterFile, take_items, recordsOf, List.flatMap_cons,
      List.flatMap_nil, List.append_nil]
  truncateIndex := by
    simp only [ReadState.afterFile, take_truncateIndex]
    by_cases hany : s.records.any LogRecord.truncateTo = true
    · exact .inr ⟨s, by simp, by simp [hany], hany⟩
    · exact .inl (by simp [hany])

theorem ReadState.Reads.cons
    {state next final : ReadState} (hhere : ReadState.Reads [s] state next)
    (hrest : ReadState.Reads segments next final) :
    ReadState.Reads (s :: segments) state final where
  items := by
    rw [hrest.items, hhere.items]
    simp [recordsOf]
  truncateIndex := by
    rcases hrest.truncateIndex with hsame | ⟨t, ht, hindex, hany⟩
    · rcases hhere.truncateIndex with hstart | ⟨t, ht, hindex, hany⟩
      · exact .inl (hsame.trans hstart)
      · rw [List.mem_singleton] at ht
        subst ht
        exact .inr ⟨t, List.mem_cons_self .., hindex.trans hsame.symm, hany⟩
    · exact .inr ⟨t, List.mem_cons_of_mem _ ht, hindex, hany⟩

theorem foldl_afterFile_reads (state : ReadState) (segments : List Segment) :
    ReadState.Reads segments state (segments.foldl (ReadState.afterFile) state) := by
  induction segments generalizing state with
  | nil => exact ⟨rfl, .inl rfl⟩
  | cons s segments ih => exact (afterFile_reads state s).cons (ih _)

theorem scanVerifyFiles_files (h : Chain c segments)
    (hends : ∀ s ∈ segments, s.EndsWith c .eof) {previous : Option UInt32}
    (hprevious : ∀ crc ∈ previous, ∀ s ∈ segments.head?, s.anchor = crc) :
    scanVerifyFiles c previous (files c segments) = .ok () := by
  induction segments generalizing previous with
  | nil => rfl
  | cons s segments ih =>
    have hrest := @ih (@Chain.of_append_right c [s] _ h)
      (fun t ht => hends t (List.mem_cons_of_mem _ ht)) (some (s.crc)) (by
        intro crc hcrc t ht
        rw [Option.mem_some_iff] at hcrc
        subst hcrc
        exact (h.linked.rel_head? ht).2.1)
    have hanchor : previous.all (fun crc => crc = s.anchor) = true := by
      cases previous with
      | none => rfl
      | some crc => simpa using (hprevious crc rfl s rfl).symm
    have hscan := Segment.readRecords_bytes (h.readable s (List.mem_cons_self ..))
      (hends s (List.mem_cons_self ..))
    simp only [files, List.map_cons, scanVerifyFiles, Segment.file,
      s.newLogRecordReader_bytes, scanVerify1, hscan, if_true]
    rw [if_pos hanchor]
    exact hrest

end SmartBFT.Wal
