import Mathlib.Algebra.GroupWithZero.Nat
import Mathlib.Data.Finset.Card
import SmartBFT.Util
import SmartBFT.Foundation.History
import SmartBFT.Foundation.Run

/-!
# The heartbeat monitor

`internal/bft/heartbeatmonitor.go`.  The monitor of a follower watches the leader
and complains when it is silent for too long; the monitor of a leader sends
heartbeats and listens for nodes that have moved on to a later view.  One goroutine
selects from the channels, so its behaviour is a step per case of the `select`; the
callers that only fill a channel are steps of their own.  The sequence that the
view publishes is read at each step.
-/

namespace SmartBFT

open Foundation

/-! ## The monitor -/

structure HeartBeat where
  view : Nat
  seq : Nat
  deriving DecidableEq

inductive HeartbeatMessage
  | heartBeat (hb : HeartBeat)
  | heartBeatResponse (view : Nat)
  | other
  deriving DecidableEq

structure RoleChange where
  view : Nat := 0
  leaderID : Nat := 0
  follower : Bool := false
  onlyStopSendHeartbearFromLeader : Bool := false
  deriving DecidableEq

structure MonitorConfig where
  hbTimeout : Int
  hbCount : Nat
  numberOfNodes : Nat
  numOfTicksBehindBeforeSyncing : Nat
  deriving DecidableEq

/-- The fields that the goroutine uses, the two channels with room for one entry, and whether
the goroutine has been started, is running and has been told to stop.  No time is the zero
time.  Of `hbRespCollector` only the keys are read. -/
structure HeartbeatMonitor where
  view : Nat := 0
  leaderID : Nat := 0
  follower : Bool := false
  stopSendHeartbearFromLeader : Bool := false
  lastHeartbeat : Option Nat := none
  lastTick : Option Nat := none
  hbRespCollector : Finset Nat := ∅
  timedOut : Bool := false
  syncReq : Bool := false
  sentHeartbeat : Bool := false
  artificialHeartbeat : Option (Nat × HeartBeat) := none
  behindSeq : Nat := 0
  behindCounter : Nat := 0
  followerBehind : Bool := false
  started : Bool := false
  running : Bool := false
  stopped : Bool := false
  deriving DecidableEq

inductive MonitorAction
  | sendHeartBeatResponse (target view : Nat)
  | broadcastHeartBeat (hb : HeartBeat)
  | sync
  | onHeartbeatTimeout (view leaderID : Nat)
  deriving DecidableEq

abbrev MonitorResult := HeartbeatMonitor × List MonitorAction

/-- The cases of the `select` in `run`. -/
inductive MonitorCase
  | stopChan
  | scheduler (now : Nat)
  | inc (sender : Nat) (msg : HeartbeatMessage)
  | commandChan (cmd : RoleChange)
  | sentHeartbeat
  | artificialHeartbeat
  deriving DecidableEq

/-- `ChangeRole` starts the goroutine the first time and then sends a command. -/
inductive MonitorEvent
  | start (follower : Bool)
  | close
  | injectArtificialHeartbeat (sender : Nat) (hb : HeartBeat)
  | heartbeatWasSent
  | select (case : MonitorCase)
  deriving DecidableEq

structure MonitorInput where
  viewSequences : Option ViewSequence
  event : MonitorEvent
  deriving DecidableEq

namespace HeartbeatMonitor

variable (cfg : MonitorConfig) (hm : HeartbeatMonitor)

def viewActive (vs : Option ViewSequence) : Option Nat :=
  match vs with
  | none => none
  | some viewSeq => if viewSeq.viewActive then some viewSeq.proposalSeq else none

def handleHeartBeat (vs : Option ViewSequence) (sender : Nat) (hb : HeartBeat)
    (artificial : Bool) : MonitorResult :=
  if hb.view < hm.view then
    (hm, [.sendHeartBeatResponse sender hm.view])
  else if !hm.stopSendHeartbearFromLeader && sender != hm.leaderID then
    (hm, [])
  else if hm.view < hb.view then
    (hm, [.sync])
  else
    match viewActive vs, artificial with
    | some ourSeq, false =>
      if ourSeq + 1 < hb.seq then
        (hm, [.sync])
      else if ourSeq + 1 = hb.seq then
        if hm.behindSeq < ourSeq then
          ({ hm with followerBehind := true, behindSeq := ourSeq, behindCounter := 0,
                     lastHeartbeat := hm.lastTick }, [])
        else
          ({ hm with followerBehind := true, lastHeartbeat := hm.lastTick }, [])
      else
        ({ hm with followerBehind := false, lastHeartbeat := hm.lastTick }, [])
    | _, _ => ({ hm with followerBehind := false, lastHeartbeat := hm.lastTick }, [])

def handleHeartBeatResponse (sender view : Nat) : MonitorResult :=
  if hm.follower then
    (hm, [])
  else if hm.syncReq then
    (hm, [])
  else if view ≤ hm.view then
    (hm, [])
  else
    let collector := insert sender hm.hbRespCollector
    if (computeQuorum cfg.numberOfNodes).2 + 1 ≤ collector.card then
      ({ hm with hbRespCollector := collector, syncReq := true }, [.sync])
    else
      ({ hm with hbRespCollector := collector }, [])

def handleMsg (vs : Option ViewSequence) (sender : Nat) (msg : HeartbeatMessage) : MonitorResult :=
  match msg with
  | .heartBeat hb => hm.handleHeartBeat vs sender hb false
  | .heartBeatResponse view => hm.handleHeartBeatResponse cfg sender view
  | .other => (hm, [])

def handleCommand (cmd : RoleChange) : HeartbeatMonitor :=
  if cmd.onlyStopSendHeartbearFromLeader then
    { hm with stopSendHeartbearFromLeader := true }
  else
    { hm with stopSendHeartbearFromLeader := false, view := cmd.view, leaderID := cmd.leaderID,
              follower := cmd.follower, timedOut := false, lastHeartbeat := hm.lastTick,
              hbRespCollector := ∅, syncReq := false }

/-- Whether a leader that has last sent at `last` sends again at `now`; the product is an
`int64`. -/
def heartbeatDue (now last : Nat) : Bool :=
  cfg.hbTimeout ≤ (((now : Int) - last) * cfg.hbCount).bmod (2 ^ 64)

def leaderTick (vs : Option ViewSequence) (now : Nat) : MonitorResult :=
  if !heartbeatDue cfg now (hm.lastHeartbeat.getD 0) then
    (hm, [])
  else
    match viewActive vs with
    | none => (hm, [])
    | some sequence =>
      ({ hm with lastHeartbeat := some now }, [.broadcastHeartBeat ⟨hm.view, sequence⟩])

def followerTick (now : Nat) : MonitorResult :=
  if hm.timedOut || hm.lastHeartbeat.isNone then
    ({ hm with lastHeartbeat := some now }, [])
  else if cfg.hbTimeout ≤ (now : Int) - hm.lastHeartbeat.getD 0 then
    ({ hm with timedOut := true }, [.onHeartbeatTimeout hm.view hm.leaderID])
  else if !hm.followerBehind then
    (hm, [])
  else if cfg.numOfTicksBehindBeforeSyncing ≤ hm.behindCounter + 1 then
    ({ hm with behindCounter := 0 }, [.sync])
  else
    ({ hm with behindCounter := hm.behindCounter + 1 }, [])

def watching : Bool := hm.follower || hm.stopSendHeartbearFromLeader

def beginTick (now : Nat) : HeartbeatMonitor :=
  { hm with lastTick := some now, lastHeartbeat := some (hm.lastHeartbeat.getD now) }

def tick (vs : Option ViewSequence) (now : Nat) : MonitorResult :=
  if hm.watching then
    (hm.beginTick now).followerTick cfg now
  else
    (hm.beginTick now).leaderTick cfg vs now

/-- One case of the `select`; `none` if its channel has nothing to give. -/
def select (vs : Option ViewSequence) (case : MonitorCase) : Option (MonitorResult) :=
  match case with
  | .stopChan =>
    if hm.stopped then
      some ({ hm with running := false, lastHeartbeat := none, lastTick := none }, [])
    else
      none
  | .scheduler now => some (hm.tick cfg vs now)
  | .inc sender msg => some (hm.handleMsg cfg vs sender msg)
  | .commandChan cmd => some (hm.handleCommand cmd, [])
  | .sentHeartbeat =>
    if hm.sentHeartbeat then
      some ({ hm with sentHeartbeat := false, lastHeartbeat := hm.lastTick }, [])
    else
      none
  | .artificialHeartbeat =>
    match hm.artificialHeartbeat with
    | none => none
    | some (sender, hb) =>
      some ({ hm with artificialHeartbeat := none }.handleHeartBeat vs sender hb
        true)

def react (input : MonitorInput) : Option (MonitorResult) :=
  match input.event with
  | .start follower =>
    if hm.started then none
    else some ({ hm with started := true, running := true, follower := follower }, [])
  | .close => some ({ hm with stopped := true }, [])
  | .injectArtificialHeartbeat sender hb =>
    some ({ hm with artificialHeartbeat := hm.artificialHeartbeat.or (some (sender, hb)) }, [])
  | .heartbeatWasSent => some ({ hm with sentHeartbeat := true }, [])
  | .select case => if hm.running then hm.select cfg input.viewSequences case else none

def step (input : MonitorInput) : Option HeartbeatMonitor :=
  (hm.react cfg input).map Prod.fst

end HeartbeatMonitor

/-! ## What a history says -/

abbrev MonitorEntry := HeartbeatMonitor × MonitorInput

def MonitorAction.isTimeout : MonitorAction → Bool
  | .onHeartbeatTimeout _ _ => true
  | _ => false

def MonitorAction.isHeartBeat : MonitorAction → Bool
  | .broadcastHeartBeat _ => true
  | _ => false

namespace MonitorEntry

def actions (cfg : MonitorConfig) (x : MonitorEntry) : List MonitorAction :=
  ((x.1.react cfg x.2).map Prod.snd).getD []

def now? (x : MonitorEntry) : Option Nat :=
  match x.2.event with
  | .select (.scheduler now) => some now
  | _ => none

/-- A command that sets a new role; the monitor starts afresh in it. -/
def changesRole (x : MonitorEntry) : Bool :=
  match x.2.event with
  | .select (.commandChan cmd) => !cmd.onlyStopSendHeartbearFromLeader
  | _ => false

def stopsSending (x : MonitorEntry) : Bool :=
  match x.2.event with
  | .select (.commandChan cmd) => cmd.onlyStopSendHeartbearFromLeader
  | _ => false

/-- The role, the view and the leader that an entry sets. -/
def role? (x : MonitorEntry) : Option (Bool × Nat × Nat) :=
  match x.2.event with
  | .start follower => some (follower, x.1.view, x.1.leaderID)
  | .select (.commandChan cmd) =>
    if cmd.onlyStopSendHeartbearFromLeader then none
    else some (cmd.follower, cmd.view, cmd.leaderID)
  | _ => none

/-- A heartbeat of the leader in the monitor's view that is at most one sequence ahead. -/
def heard (hm : HeartbeatMonitor) (vs : Option ViewSequence) (sender : Nat)
    (hb : HeartBeat) (artificial : Bool) : Bool :=
  hb.view = hm.view && (hm.stopSendHeartbearFromLeader || sender = hm.leaderID) &&
    (artificial || (HeartbeatMonitor.viewActive vs).all fun ourSeq =>
      hb.seq ≤ ourSeq + 1)

/-- The entries from which silence is counted: a new role, a heartbeat that is heard, a
message or a heartbeat that is sent. -/
def contact (cfg : MonitorConfig) (x : MonitorEntry) : Bool :=
  match x.2.event with
  | .select (.commandChan cmd) => !cmd.onlyStopSendHeartbearFromLeader
  | .select (.inc sender (.heartBeat hb)) => heard x.1 x.2.viewSequences sender hb false
  | .select .artificialHeartbeat =>
    x.1.artificialHeartbeat.any fun m => heard x.1 x.2.viewSequences m.1 m.2 true
  | .select .sentHeartbeat => true
  | .select (.scheduler _) => (x.actions cfg).any MonitorAction.isHeartBeat
  | _ => false

def timeout (cfg : MonitorConfig) (x : MonitorEntry) : Bool :=
  (x.actions cfg).any MonitorAction.isTimeout

/-- A response from a later view: its sender and the view. -/
def report? (x : MonitorEntry) : Option (Nat × Nat) :=
  match x.2.event with
  | .select (.inc sender (.heartBeatResponse view)) =>
    if x.1.view < view then some (sender, view) else none
  | _ => none

def behindTick (x : MonitorEntry) : Bool := x.now?.isSome && x.1.followerBehind

def syncTick (cfg : MonitorConfig) (x : MonitorEntry) : Bool :=
  x.now?.isSome && (x.actions cfg).contains .sync

end MonitorEntry

namespace HeartbeatMonitor

def history (cfg : MonitorConfig) (inputs : List MonitorInput) : List MonitorEntry :=
  trail (step cfg) {} inputs

def lastRole (log : List MonitorEntry) : Option (Bool × Nat × Nat) :=
  (log.filterMap MonitorEntry.role?).getLast?

def inRole (log : List MonitorEntry) : List MonitorEntry := since MonitorEntry.changesRole log

def toldToStop (log : List MonitorEntry) : Bool := (inRole log).any MonitorEntry.stopsSending

def complained (cfg : MonitorConfig) (log : List MonitorEntry) : Bool :=
  (inRole log).any (MonitorEntry.timeout cfg)

def tickTime (log : List MonitorEntry) : Option Nat := (log.filterMap MonitorEntry.now?).getLast?

/-- The time of the last tick up to the last contact, or of the first tick after it. -/
def lastContact (cfg : MonitorConfig) (log : List MonitorEntry) : Option Nat :=
  markTime (MonitorEntry.contact cfg) MonitorEntry.now? log

def reporters (log : List MonitorEntry) : Finset Nat :=
  (((inRole log).filterMap MonitorEntry.report?).map Prod.fst).toFinset

end HeartbeatMonitor

end SmartBFT
