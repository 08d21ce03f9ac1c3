import SmartBFT.Foundation.Run
import SmartBFT.State
import SmartBFT.Wal.Recovery

/-!
# The persisted state on disk

A node keeps its log as a list of messages, to which `PersistedState.save` adds one
at a time.  On disk a save is a series of file operations that a crash can cut off
anywhere.  What a start reads back is still the list: a save that a crash has cut off
has happened or it has not.
-/

namespace SmartBFT.Wal

open SmartBFT.Foundation

/-- The logs that a node can have if saves are atomic, given the messages that it would save in
each of its lives: it saves some of them, and may be saving the next one when it crashes. -/
inductive AtomicLog : List (List SavedMessage) → List SavedMessage → Option SavedMessage → Prop
  | new : AtomicLog [] [] none
  | unopened {lives wal pending} (h : AtomicLog lives wal pending) (messages : List SavedMessage) :
      AtomicLog (lives ++ [messages]) wal pending
  | life {lives wal pending start} (h : AtomicLog lives wal pending)
      (hstart : start = wal ∨ ∃ m ∈ pending, start = logged wal m)
      (saved rest : List SavedMessage) {pending' : Option SavedMessage}
      (hpending : pending' = none ∨ pending' = rest.head?) :
      AtomicLog (lives ++ [saved ++ rest]) (saved.foldl logged start) pending'

/-- The log is opened, messages are saved, and there is a crash as in `Cycle`. -/
structure NodeLife where
  options : Option Options
  messages : List SavedMessage
  done : Nat
  part : Nat

variable {c : Codec} {marshal : SavedMessage → Bytes} {w : WriteAheadLogFile} {life : Life}
  {wal : List SavedMessage} {pending : Option SavedMessage}

/-- `ps.WAL.Append(b, newProposal)` with the marshalled message. -/
def saveCall (marshal : SavedMessage → Bytes) (m : SavedMessage) : Call :=
  .append (marshal m) (truncates m)

def NodeLife.cycle (marshal : SavedMessage → Bytes) (n : NodeLife) : Cycle :=
  ⟨n.options, n.messages.map (saveCall marshal), n.done, n.part⟩

theorem keep_saveCall (m : SavedMessage) :
    keep (wal.map marshal) (saveCall marshal m).record = (logged wal m).map marshal := by
  cases h : truncates m <;>
    simp [keep, saveCall, Call.record, entryData, logged, PersistedState.append, h]

/-- The files hold the log, and a save that was cut off. -/
structure Holds (marshal : SavedMessage → Bytes) (life : Life) (wal : List SavedMessage)
    (pending : Option SavedMessage) : Prop where
  acked : life.acked = wal.map marshal
  pending : life.pending = pending.map fun m => (saveCall marshal m).record

theorem Holds.expects (h : Holds marshal life wal pending) {items : List Bytes}
    (hitems : life.Expects items) :
    ∃ start, items = start.map marshal ∧ (start = wal ∨ ∃ m ∈ pending, start = logged wal m) := by
  rcases hitems with rfl | ⟨record, hrecord, rfl⟩
  · exact ⟨wal, h.acked, .inl rfl⟩
  · rw [h.pending, Option.mem_map] at hrecord
    obtain ⟨m, hm, rfl⟩ := hrecord
    rw [h.acked, keep_saveCall]
    exact ⟨_, rfl, .inr ⟨m, hm, rfl⟩⟩

theorem crashIn_holds (hrunning : Running c w life.disk life.acked)
    (hacked : life.acked = wal.map marshal) {messages : List SavedMessage}
    (hvalid : ∀ m ∈ messages, (saveCall marshal m).Valid c) (done part : Nat) :
    ∃ saved rest pending, messages = saved ++ rest ∧ (pending = none ∨ pending = rest.head?) ∧
      Holds marshal (w.crashIn c life (messages.map (saveCall marshal)) done part)
        (saved.foldl logged wal) pending := by
  induction messages generalizing w life wal done with
  | nil => exact ⟨[], [], none, rfl, .inl rfl, hacked, rfl⟩
  | cons m messages ih =>
    have hcall := hvalid m List.mem_cons_self
    have happended := hrunning.append hcall.appendable
    rw [← call_eq_append hcall] at happended
    simp only [List.map_cons, WriteAheadLogFile.crashIn]
    split
    · exact ⟨[], m :: messages, some m, rfl, .inr rfl, hacked, rfl⟩
    · have hkept : keep life.acked (saveCall marshal m).record = (logged wal m).map marshal := by
        rw [hacked, keep_saveCall]
      simp only [happended.ok]
      obtain ⟨saved, rest, pending, rfl, hpending, hholds⟩ :=
        @ih _ ⟨_, keep life.acked _, none⟩ (logged wal m) happended.running hkept
          (fun other hother => hvalid other (List.mem_cons_of_mem _ hother)) _
      exact ⟨m :: saved, rest, pending, rfl, hpending, hholds⟩

theorem cycle_holds {lives : List (List SavedMessage)} (hlife : life.Valid c)
    (hlog : AtomicLog lives wal pending) (hholds : Holds marshal life wal pending) (n : NodeLife)
    (hvalid : ∀ m ∈ n.messages, (saveCall marshal m).Valid c) :
    ∃ wal' pending', AtomicLog (lives ++ [n.messages]) wal' pending' ∧
      Holds marshal (life.cycle c (n.cycle marshal)) wal' pending' := by
  rcases hlife with ⟨items, hitems, hwhole⟩ | htorn
  · obtain ⟨ops, w, hstart, hstarted⟩ := (hwhole.recovers n.options).started
    simp only [Life.cycle, NodeLife.cycle, hstart]
    split
    · exact ⟨wal, pending, hlog.unopened _, hholds.acked, hholds.pending⟩
    · obtain ⟨start, rfl, hfrom⟩ := hholds.expects hitems
      obtain ⟨saved, rest, pending', hmessages, hpending, hend⟩ :=
        @crashIn_holds c marshal w ⟨_, _, none⟩ start hstarted.running rfl n.messages hvalid
          (n.done - ops.length) n.part
      exact ⟨_, _, hmessages ▸ hlog.life hfrom saved rest hpending, hend⟩
  · obtain ⟨e, hstart⟩ := htorn.initializeAndReadAll n.options
    simp only [Life.cycle, NodeLife.cycle, hstart, List.length_nil, Nat.not_lt_zero, if_false]
    exact ⟨wal, pending, hlog.unopened _, hholds.acked, hholds.pending⟩

theorem history_holds {lives : List NodeLife}
    (hvalid : ∀ n ∈ lives, ∀ m ∈ n.messages, (saveCall marshal m).Valid c) :
    ∃ wal pending, AtomicLog (lives.map NodeLife.messages) wal pending ∧
      Holds marshal (history c (lives.map (NodeLife.cycle marshal))) wal pending := by
  induction lives using List.reverseRecOn with
  | nil => exact ⟨[], none, .new, rfl, rfl⟩
  | append_singleton lives n ih =>
    obtain ⟨wal, pending, hlog, hholds⟩ := ih fun n hn => hvalid n (List.mem_append_left _ hn)
    simp only [List.map_append, List.map_cons, List.map_nil, history, List.foldl_concat]
    exact cycle_holds (history_valid c _) hlog hholds n (hvalid n (by simp))

/-- The files refine the list: after any lives of the node, with a crash at any point of each,
what was acknowledged is a log that the node can have if its saves are atomic, and a start that
succeeds returns this log or the one with the save that was cut off. -/
theorem read_atomicLog (lives : List NodeLife)
    (hvalid : ∀ n ∈ lives, ∀ m ∈ n.messages, (saveCall marshal m).Valid c) :
    ∃ wal pending, AtomicLog (lives.map NodeLife.messages) wal pending ∧
      (history c (lives.map (NodeLife.cycle marshal))).acked = wal.map marshal ∧
      ∀ options ops w items, initializeAndReadAll c options
          (history c (lives.map (NodeLife.cycle marshal))).disk = (ops, .ok (w, items)) →
        items = wal.map marshal ∨ ∃ m ∈ pending, items = (logged wal m).map marshal := by
  obtain ⟨wal, pending, hlog, hholds⟩ := history_holds hvalid
  refine ⟨wal, pending, hlog, hholds.acked, fun options ops w items hread => ?_⟩
  rcases history_valid c (lives.map (NodeLife.cycle marshal)) with ⟨found, hfound, hwhole⟩ | htorn
  · obtain ⟨_, _, hstart, -⟩ := (hwhole.recovers options).started
    obtain ⟨-, -, rfl⟩ : _ ∧ _ ∧ found = items := by simpa [hread] using hstart.symm
    obtain ⟨start, rfl, rfl | ⟨m, hm, rfl⟩⟩ := hholds.expects hfound
    · exact .inl rfl
    · exact .inr ⟨m, hm, rfl⟩
  · obtain ⟨e, hstart⟩ := htorn.initializeAndReadAll options
    simp [hread] at hstart

def marshalNextView : SavedMessage → Bytes
  | .viewChange nextView => [UInt8.ofNat nextView]
  | _ => [0]

/-- Two view change messages are saved, and the second save is cut off in its frame. -/
def tornSave : NodeLife := ⟨some ⟨20⟩, [.viewChange 1, .viewChange 2], 14, 3⟩

/-- The start reads the first message, which is the log of saves that are atomic. -/
theorem read_tornSave :
    ∃ ops w wal pending, initializeAndReadAll protoCodec none
        (history protoCodec [tornSave.cycle marshalNextView]).disk = (ops, .ok (w, [[1]])) ∧
      AtomicLog [tornSave.messages] wal pending ∧ wal.map marshalNextView = [[1]] ∧
      ([[1]] = wal.map marshalNextView ∨
        ∃ m ∈ pending, [[1]] = (logged wal m).map marshalNextView) := by
  have hstart : (initializeAndReadAll protoCodec none
      (history protoCodec [tornSave.cycle marshalNextView]).disk).2.toOption.any
        (fun start => decide (start.2 = [[1]])) = true := by
    decide +kernel
  have hacked : (history protoCodec [tornSave.cycle marshalNextView]).acked = [[1]] := by
    decide +kernel
  obtain ⟨⟨w, items⟩, hresult, rfl⟩ := exists_ok_of_any hstart
  obtain ⟨wal, pending, hlog, hwal, hread⟩ :=
    @read_atomicLog protoCodec marshalNextView [tornSave] (by decide +kernel)
  exact ⟨_, w, wal, pending, Prod.ext rfl hresult, hlog, hwal.symm.trans hacked,
    hread none _ w _ (Prod.ext rfl hresult)⟩

end SmartBFT.Wal
