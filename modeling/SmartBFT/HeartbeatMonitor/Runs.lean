import SmartBFT.HeartbeatMonitor

/-!
# Runs of the heartbeat monitor

The fields of the monitor, read off the history of its run.
-/

namespace SmartBFT

open Foundation

theorem MonitorEntry.changesRole_eq_false {cfg : MonitorConfig} {x : MonitorEntry}
    (h : ¬x.contact cfg) : x.changesRole = false := by
  obtain ⟨hm, vs, event⟩ := x
  rcases event with _ | _ | _ | _ | c
  case select => cases c <;> simp_all [changesRole, contact]
  all_goals rfl

namespace HeartbeatMonitor

open MonitorEntry

variable {cfg : MonitorConfig} {hm hm' : HeartbeatMonitor} {input : MonitorInput}
  {vs : Option ViewSequence} {acts : List MonitorAction} {log : List MonitorEntry}
  {x : MonitorEntry}

theorem lastRole_concat : lastRole (log ++ [x]) = x.role?.or (lastRole log) :=
  getLast?_filterMap_concat

theorem tickTime_concat : tickTime (log ++ [x]) = x.now?.or (tickTime log) :=
  getLast?_filterMap_concat

theorem lastContact_concat :
    lastContact cfg (log ++ [x]) =
      if x.contact cfg then x.now?.or (tickTime log) else (lastContact cfg log).or x.now? :=
  markTime_concat

theorem any_inRole_concat {p : MonitorEntry → Bool} :
    (inRole (log ++ [x])).any p = (!x.changesRole && ((inRole log).any p || p x)) := by
  cases h : x.changesRole <;> simp [inRole, since_concat, h]

theorem reporters_concat :
    reporters (log ++ [x]) = if x.changesRole then ∅
      else x.report?.elim (reporters log) fun report => insert report.1 (reporters log) := by
  cases hrole : x.changesRole <;> cases hreport : x.report? <;>
    simp [reporters, inRole, since_concat, hrole, hreport]

theorem actions_of_react (h : hm.react cfg input = some (hm', acts)) :
    actions cfg (hm, input) = acts := by
  simp [actions, h]

/-- A heartbeat is ignored, with a reply or a sync at most, or it is heard. -/
inductive Beaten (hm : HeartbeatMonitor) (heard : Bool) :
    HeartbeatMonitor → List MonitorAction → Prop
  | ignored (acts : List MonitorAction) (hheard : heard = false)
      (hquiet : acts.any MonitorAction.isTimeout = false)
      (hanswer : ∀ target view, .sendHeartBeatResponse target view ∈ acts → view = hm.view) :
      Beaten hm heard hm acts
  | heard (behind : Bool) (seq counter : Nat) (hheard : heard = true)
      (hcounter : counter ≤ hm.behindCounter) :
      Beaten hm heard
        { hm with followerBehind := behind, behindSeq := seq, behindCounter := counter,
                  lastHeartbeat := hm.lastTick } []

theorem beaten {sender : Nat} {hb : HeartBeat} {artificial : Bool}
    (h : hm.handleHeartBeat vs sender hb artificial = (hm', acts)) :
    Beaten hm (heard hm vs sender hb artificial) hm' acts := by
  obtain ⟨rfl, rfl⟩ := Prod.ext_iff.mp h
  unfold handleHeartBeat
  split_ifs with hlow hother hhigh
  · refine .ignored _ ?_ rfl (by simp)
    simp [heard, show ¬hb.view = hm.view by omega]
  · refine .ignored _ ?_ rfl (by simp)
    simp_all [heard]
  · refine .ignored _ ?_ rfl (by simp)
    simp [heard, show ¬hb.view = hm.view by omega]
  · have hview : hb.view = hm.view := by omega
    have hsender : (hm.stopSendHeartbearFromLeader || decide (sender = hm.leaderID)) = true := by
      cases hstop : hm.stopSendHeartbearFromLeader <;> simp_all
    simp only [heard, hview, hsender, decide_true, Bool.true_and]
    cases viewActive vs with
    | none => cases artificial <;> exact .heard _ _ _ rfl le_rfl
    | some ourSeq =>
      cases artificial with
      | true => exact .heard _ _ _ rfl le_rfl
      | false =>
        simp only [Bool.false_or, Option.all_some]
        split_ifs with hahead hbehind hprogress
        · exact .ignored _ (by simpa using hahead) rfl (by simp)
        all_goals
          have hnear : hb.seq ≤ ourSeq + 1 := by omega
          exact .heard _ _ _ (by simpa using hnear) (by simp)

/-- What a tick does: the first four cases are of a follower, the last two of a leader. -/
inductive Ticked (cfg : MonitorConfig) (hm : HeartbeatMonitor)
    (vs : Option ViewSequence) (now : Nat) :
    HeartbeatMonitor → List MonitorAction → Prop
  | again (hwatch : hm.watching) (htimedOut : hm.timedOut) :
      Ticked cfg hm vs now { hm.beginTick now with lastHeartbeat := some now } []
  | expires (hwatch : hm.watching) (hfirst : hm.timedOut = false)
      (hsilent : cfg.hbTimeout ≤ (now : Int) - hm.lastHeartbeat.getD now) :
      Ticked cfg hm vs now { hm.beginTick now with timedOut := true }
        [.onHeartbeatTimeout hm.view hm.leaderID]
  | syncs (hwatch : hm.watching) (hnear : (now : Int) - hm.lastHeartbeat.getD now < cfg.hbTimeout)
      (hbehind : hm.followerBehind)
      (hmany : cfg.numOfTicksBehindBeforeSyncing ≤ hm.behindCounter + 1) :
      Ticked cfg hm vs now { hm.beginTick now with behindCounter := 0 } [.sync]
  | watches (counter : Nat) (hwatch : hm.watching)
      (hnear : (now : Int) - hm.lastHeartbeat.getD now < cfg.hbTimeout)
      (hcounter : counter ≤ hm.behindCounter + if hm.followerBehind then 1 else 0) :
      Ticked cfg hm vs now { hm.beginTick now with behindCounter := counter } []
  | sends (sequence : Nat) (hlead : hm.watching = false)
      (hdue : heartbeatDue cfg now (hm.lastHeartbeat.getD now))
      (hactive : viewActive vs = some sequence) :
      Ticked cfg hm vs now { hm.beginTick now with lastHeartbeat := some now }
        [.broadcastHeartBeat ⟨hm.view, sequence⟩]
  | waits (hlead : hm.watching = false)
      (hwait : heartbeatDue cfg now (hm.lastHeartbeat.getD now) →
        viewActive vs = none) :
      Ticked cfg hm vs now (hm.beginTick now) []

theorem ticked {now : Nat} (h : hm.tick cfg vs now = (hm', acts)) :
    Ticked cfg hm vs now hm' acts := by
  obtain ⟨rfl, rfl⟩ := Prod.ext_iff.mp h
  simp only [tick]
  split
  next hwatch =>
      simp only [followerTick]
      split_ifs with htimedOut hsilent hbehind hmany
      · exact .again hwatch (by simpa [beginTick] using htimedOut)
      · exact .expires hwatch (by simpa [beginTick] using htimedOut) hsilent
      · exact .watches _ hwatch (Int.not_le.mp hsilent) (Nat.le_add_right _ _)
      · exact .syncs hwatch (Int.not_le.mp hsilent) (by simpa [beginTick] using hbehind) hmany
      · exact .watches _ hwatch (Int.not_le.mp hsilent) (by simp_all [beginTick])
  next hlead =>
      have hlead := Bool.eq_false_iff.mpr hlead
      simp only [leaderTick]
      split_ifs with hdue
      · exact .waits hlead (by simp_all [beginTick])
      · cases hactive : viewActive vs with
        | none => exact .waits hlead fun _ => hactive
        | some sequence => exact .sends sequence hlead (by simpa [beginTick] using hdue) hactive

/-- What a step changes, as a history sees it. -/
structure Advances (cfg : MonitorConfig) (x : MonitorEntry) (hm : HeartbeatMonitor) : Prop where
  started : hm.running → hm.started
  live : hm.running = hm.started → x.1.running = x.1.started
  role : hm.started → x.role?.or (some (x.1.follower, x.1.view, x.1.leaderID)) =
    some (hm.follower, hm.view, hm.leaderID) ∧ (x.role? = none → x.1.started)
  told : hm.stopSendHeartbearFromLeader =
    (!x.changesRole && (x.1.stopSendHeartbearFromLeader || x.stopsSending))
  expired : hm.timedOut = (!x.changesRole && (x.1.timedOut || x.timeout cfg))
  watches : (x.1.timedOut → x.1.started ∧ x.1.watching) →
    hm.timedOut → hm.started ∧ hm.watching
  ticked : hm.running = hm.started → hm.lastTick = x.now?.or x.1.lastTick
  heard : hm.running = hm.started → hm.timedOut = false → hm.lastHeartbeat =
    if x.contact cfg then x.now?.or x.1.lastTick else x.1.lastHeartbeat.or x.now?
  view : x.changesRole = false → hm.view = x.1.view
  answer : ∀ target view, .sendHeartBeatResponse target view ∈ x.actions cfg → view = x.1.view
  follower : (x.1.follower → x.1.started) → (hm.follower → hm.started) ∧
    (hm.follower = false → x.changesRole = false → x.1.follower = false)
  collector : hm.hbRespCollector =
    if x.changesRole then ∅ else if x.1.follower || x.1.syncReq then x.1.hbRespCollector
    else x.report?.elim x.1.hbRespCollector fun report => insert report.1 x.1.hbRespCollector
  requested : hm.syncReq = (!x.changesRole && (x.1.syncReq ||
    (!x.1.follower && x.report?.isSome &&
      decide ((computeQuorum cfg.numberOfNodes).2 + 1 ≤ hm.hbRespCollector.card))))
  lag : cfg.numOfTicksBehindBeforeSyncing * [x].countP (syncTick cfg) +
    hm.behindCounter ≤ x.1.behindCounter + [x].countP behindTick

theorem advances (hlive : hm.running → hm.started)
    (hreact : hm.react cfg input = some (hm', acts)) : Advances cfg (hm, input) hm' := by
  have hacts := actions_of_react hreact
  obtain ⟨vs, event⟩ := input
  rcases event with follower | _ | ⟨sender, hb⟩ | _ | c
  case' select =>
    simp only [react, Option.ite_none_right_eq_some] at hreact
    obtain ⟨hrunning, hselect⟩ := hreact
    have hstarted := hlive hrunning
    rcases c with _ | now | ⟨sender, hb | view | _⟩ | cmd | _ | _
    case' scheduler => cases ticked (Option.some.inj hselect)
    case' inc.heartBeat => cases beaten (Option.some.inj hselect)
    case' artificialHeartbeat =>
      obtain ⟨m, hqueued⟩ : ∃ m, hm.artificialHeartbeat = some m :=
        Option.ne_none_iff_exists'.mp fun hnone => by simp [select, hnone] at hselect
      simp only [select, hqueued, Option.some.injEq] at hselect
      cases beaten hselect
    case' inc.heartBeatResponse =>
      have hview : view ≤ hm.view ↔ ¬hm.view < view := Nat.not_lt.symm
      simp only [select, handleMsg, handleHeartBeatResponse, hview, Option.some.injEq] at hselect
      split_ifs at hselect <;> obtain ⟨rfl, rfl⟩ := Prod.ext_iff.mp hselect
    case' commandChan =>
      simp only [select, handleCommand, Option.some.injEq, Prod.mk.injEq] at hselect
      obtain ⟨rfl, rfl⟩ := hselect
      cases honly : cmd.onlyStopSendHeartbearFromLeader
    case' inc.other =>
      simp only [select, handleMsg, Option.some.injEq, Prod.mk.injEq] at hselect
      obtain ⟨rfl, rfl⟩ := hselect
    case' stopChan | sentHeartbeat =>
      simp only [select, Option.ite_none_right_eq_some, Option.some.injEq, Prod.mk.injEq]
        at hselect
      obtain ⟨hready, rfl, rfl⟩ := hselect
  case' start =>
    simp only [react, Option.ite_none_left_eq_some, Option.some.injEq, Prod.mk.injEq] at hreact
    obtain ⟨hnew, rfl, rfl⟩ := hreact
  case' close | injectArtificialHeartbeat | heartbeatWasSent =>
    obtain ⟨rfl, rfl⟩ := Prod.ext_iff.mp (Option.some.inj hreact)
  all_goals
    constructor <;> simp_all [changesRole, stopsSending, timeout, role?, now?, contact, report?,
      syncTick, behindTick, heard, MonitorAction.isTimeout, MonitorAction.isHeartBeat, beginTick,
      watching, -not_lt, -Nat.not_lt] <;>
      assumption

structure Follows (cfg : MonitorConfig) (log : List MonitorEntry) (hm : HeartbeatMonitor) :
    Prop where
  role : hm.started → lastRole log = some (hm.follower, hm.view, hm.leaderID)
  told : hm.stopSendHeartbearFromLeader = toldToStop log
  expired : hm.timedOut = complained cfg log
  watches : hm.timedOut → hm.started ∧ hm.watching
  ticked : hm.running = hm.started → hm.lastTick = tickTime log
  heard : hm.running = hm.started → hm.timedOut = false →
    hm.lastHeartbeat = lastContact cfg log

theorem Follows.init : Follows cfg [] {} := by
  constructor <;> simp [toldToStop, complained, inRole,
    tickTime, lastContact, since, markTime, upTo]

theorem Follows.concat (h : Follows cfg log hm) (hnext : Advances cfg (hm, input) hm') :
    Follows cfg (log ++ [(hm, input)]) hm' := by
  refine ⟨fun hstarted => ?_, ?_, ?_, hnext.watches h.watches, fun hlive => ?_,
    fun hlive hfirst => ?_⟩
  · obtain ⟨hrole, hbefore⟩ := hnext.role hstarted
    rw [lastRole_concat, ← hrole]
    cases hnew : role? (hm, input) with
    | none => simp [h.role (hbefore hnew)]
    | some role => simp
  · rw [hnext.told, toldToStop, any_inRole_concat, h.told]
    rfl
  · rw [hnext.expired, complained, any_inRole_concat, h.expired]
    rfl
  · rw [hnext.ticked hlive, tickTime_concat, h.ticked (hnext.live hlive)]
  · rw [hnext.heard hlive hfirst, lastContact_concat, h.ticked (hnext.live hlive)]
    split
    · rfl
    next hsilent =>
        have hexpired := hnext.expired.symm.trans hfirst
        simp only [changesRole_eq_false hsilent, Bool.not_false, Bool.true_and,
          Bool.or_eq_false_iff] at hexpired
        rw [h.heard (hnext.live hlive) hexpired.1]

theorem Follows.heard_of_leads (h : Follows cfg log hm) (hlive : hm.running = hm.started)
    (hlead : hm.watching = false) :
    hm.lastHeartbeat = lastContact cfg log := by
  refine h.heard hlive ?_
  by_contra htimedOut
  simpa [hlead] using h.watches (Bool.eq_true_of_not_eq_false htimedOut)

variable {inputs : List MonitorInput} {now : Nat}

theorem react_of_step (h : hm.step cfg input = some hm') :
    ∃ acts, hm.react cfg input = some (hm', acts) := by
  obtain ⟨⟨_, acts⟩, hreact, rfl⟩ := Option.map_eq_some_iff.mp h
  exact ⟨acts, hreact⟩

/-- What every step keeps, with the history so far, holds after every run. -/
theorem history_invariant {inv : List MonitorEntry → HeartbeatMonitor → Prop} (hinit : inv [] {})
    (hnext : ∀ log hm input hm', inv log hm → Advances cfg (hm, input) hm' →
      inv (log ++ [(hm, input)]) hm')
    (hrun : run (step cfg) {} inputs = some hm) :
    (hm.running → hm.started) ∧ inv (history cfg inputs) hm := by
  refine @run_trail_invariant _ _ (step cfg) (fun log hm => (hm.running → hm.started) ∧ inv log hm)
    (fun log hm input hm' h hstep => ?_) _ _ _ [] ⟨fun h => h, hinit⟩ hrun
  obtain ⟨acts, hreact⟩ := react_of_step hstep
  have hadvances := advances h.1 hreact
  exact ⟨hadvances.started, hnext _ _ _ _ h.2 hadvances⟩

theorem follows (hrun : run (step cfg) {} inputs = some hm) :
    (hm.running → hm.started) ∧ Follows cfg (history cfg inputs) hm :=
  history_invariant Follows.init (fun _ _ _ _ h => h.concat) hrun

theorem exists_react (cfg : MonitorConfig) (inputs : List MonitorInput) (input : MonitorInput)
    (h : ((run (step cfg) {} inputs).bind fun hm => hm.react cfg input).isSome = true) :
    ∃ hm hm' acts, run (step cfg) {} inputs = some hm ∧
      hm.react cfg input = some (hm', acts) := by
  obtain ⟨⟨hm', acts⟩, hbind⟩ := Option.isSome_iff_exists.mp h
  obtain ⟨hm, hrun, hreact⟩ := Option.bind_eq_some_iff.mp hbind
  exact ⟨hm, hm', acts, hrun, hreact⟩

theorem ticked_of_react
    (htick : hm.react cfg ⟨vs, .select (.scheduler now)⟩ = some (hm', acts)) :
    hm.running ∧ Ticked cfg hm vs now hm' acts := by
  simp only [react, select, Option.ite_none_right_eq_some, Option.some.injEq] at htick
  exact ⟨htick.1, ticked htick.2⟩

/-- The monitor complains about a leader when it watches it, has not complained before in this
role, and the timeout has passed since the last contact. -/
theorem onHeartbeatTimeout_iff_silent {view leaderID : Nat}
    (hrun : run (step cfg) {} inputs = some hm)
    (htick : hm.react cfg ⟨vs, .select (.scheduler now)⟩ = some (hm', acts)) :
    .onHeartbeatTimeout view leaderID ∈ acts ↔
      ∃ follower, lastRole (history cfg inputs) = some (follower, view, leaderID) ∧
        (follower || toldToStop (history cfg inputs)) ∧
        complained cfg (history cfg inputs) = false ∧
        cfg.hbTimeout ≤
          (now : Int) - (lastContact cfg (history cfg inputs)).getD now := by
  obtain ⟨hlive, h⟩ := follows hrun
  obtain ⟨hrunning, hticked⟩ := ticked_of_react htick
  have hstarted := hlive hrunning
  have hheard := h.heard (hrunning.trans hstarted.symm)
  rw [h.role hstarted, ← h.told, ← h.expired]
  cases hticked with
  | again hwatch htimedOut => simp [htimedOut]
  | expires hwatch hfirst hsilent =>
    rw [← hheard hfirst]
    simp only [List.mem_singleton, MonitorAction.onHeartbeatTimeout.injEq, Option.some.injEq,
      Prod.mk.injEq]
    constructor
    · rintro ⟨rfl, rfl⟩
      exact ⟨_, ⟨rfl, rfl, rfl⟩, hwatch, hfirst, hsilent⟩
    · rintro ⟨_, ⟨-, rfl, rfl⟩, -⟩
      exact ⟨rfl, rfl⟩
  | syncs hwatch hnear | watches counter hwatch hnear =>
    refine iff_of_false (by simp) ?_
    rintro ⟨_, _, -, hfirst, hsilent⟩
    rw [← hheard hfirst] at hsilent
    omega
  | sends sequence hlead | waits hlead =>
    refine iff_of_false (by simp) ?_
    rintro ⟨_, hrole, hwatch, -⟩
    simp_all [watching]

def fourMonitors : MonitorConfig := ⟨10, 2, 4, 1⟩

def monitorInput (c : MonitorCase) : MonitorInput := ⟨some ⟨true, 5⟩, .select c⟩

/-- Node `2` leads view `3`, and is one sequence ahead when it is heard. -/
def followNodeTwo : List MonitorInput :=
  ⟨none, .start true⟩ :: [.commandChan ⟨3, 2, true, false⟩, .scheduler 5,
    .inc 2 (.heartBeat ⟨3, 6⟩)].map monitorInput

theorem onHeartbeatTimeout_after_ten :
    ∃ hm hm' acts, run (step fourMonitors) {} followNodeTwo = some hm ∧
      hm.react fourMonitors (monitorInput (.scheduler 15)) = some (hm', acts) ∧
      .onHeartbeatTimeout 3 2 ∈ acts := by
  obtain ⟨hm, hm', acts, hrun, htick⟩ := exists_react fourMonitors followNodeTwo
    (monitorInput (.scheduler 15)) (by decide)
  exact ⟨hm, hm', acts, hrun, htick, (onHeartbeatTimeout_iff_silent hrun htick).mpr
    ⟨true, by decide⟩⟩

/-- The leader sends a heartbeat when its view is active and it is time since its last message. -/
theorem broadcastHeartBeat_iff_due {hb : HeartBeat}
    (hrun : run (step cfg) {} inputs = some hm)
    (htick : hm.react cfg ⟨vs, .select (.scheduler now)⟩ = some (hm', acts)) :
    .broadcastHeartBeat hb ∈ acts ↔
      (∃ leaderID, lastRole (history cfg inputs) = some (false, hb.view, leaderID)) ∧
        toldToStop (history cfg inputs) = false ∧
        viewActive vs = some hb.seq ∧
        heartbeatDue cfg now ((lastContact cfg (history cfg inputs)).getD now) := by
  obtain ⟨hlive, h⟩ := follows hrun
  obtain ⟨hrunning, hticked⟩ := ticked_of_react htick
  have hstarted := hlive hrunning
  rw [h.role hstarted, ← h.told]
  cases hticked with
  | again hwatch | expires hwatch | syncs hwatch | watches counter hwatch =>
    refine iff_of_false (by simp) ?_
    rintro ⟨⟨_, hrole⟩, htold, -⟩
    simp_all [watching]
  | sends sequence hlead hdue hactive =>
    rw [← h.heard_of_leads (hrunning.trans hstarted.symm) hlead]
    simp only [List.mem_singleton, MonitorAction.broadcastHeartBeat.injEq, Option.some.injEq,
      Prod.mk.injEq, hactive]
    simp only [watching, Bool.or_eq_false_iff] at hlead
    constructor
    · rintro rfl
      exact ⟨⟨_, hlead.1, rfl, rfl⟩, hlead.2, rfl, hdue⟩
    · rintro ⟨⟨_, -, hview, -⟩, -, hseq, -⟩
      rw [hview, hseq]
  | waits hlead hwait =>
    rw [← h.heard_of_leads (hrunning.trans hstarted.symm) hlead]
    refine iff_of_false (by simp) ?_
    rintro ⟨-, -, hactive, hdue⟩
    simp [hwait hdue] at hactive

def leadViewThree : List MonitorInput :=
  ⟨none, .start false⟩ :: [.commandChan ⟨3, 1, false, false⟩, .scheduler 5].map monitorInput

theorem broadcastHeartBeat_after_five :
    ∃ hm hm' acts, run (step fourMonitors) {} leadViewThree = some hm ∧
      hm.react fourMonitors (monitorInput (.scheduler 10)) = some (hm', acts) ∧
      .broadcastHeartBeat ⟨3, 5⟩ ∈ acts := by
  obtain ⟨hm, hm', acts, hrun, htick⟩ := exists_react fourMonitors leadViewThree
    (monitorInput (.scheduler 10)) (by decide)
  exact ⟨hm, hm', acts, hrun, htick, (broadcastHeartBeat_iff_due hrun htick).mpr
    ⟨⟨1, by decide⟩, by decide⟩⟩

/-- The collector holds the nodes that have reported a later view, until there are enough. -/
structure Collects (cfg : MonitorConfig) (log : List MonitorEntry) (hm : HeartbeatMonitor) :
    Prop where
  follower : hm.follower → hm.started
  senders : hm.follower = false → hm.syncReq = false → hm.hbRespCollector = reporters log ∧
    (reporters log).card ≤ (computeQuorum cfg.numberOfNodes).2
  enough : hm.follower = false → hm.syncReq →
    (computeQuorum cfg.numberOfNodes).2 < (reporters log).card

theorem Collects.init : Collects cfg [] {} := by
  constructor <;> simp [reporters, inRole, since]

theorem Collects.concat (h : Collects cfg log hm) (hnext : Advances cfg (hm, input) hm') :
    Collects cfg (log ++ [(hm, input)]) hm' := by
  obtain ⟨hfollower, hleads⟩ := hnext.follower h.follower
  have hcollector := hnext.collector
  have hrequested := hnext.requested
  have hreporters : reporters (log ++ [(hm, input)]) = _ := reporters_concat
  dsimp only at hcollector hrequested hleads
  simp only [Nat.add_one_le_iff] at hrequested
  cases hrole : changesRole (hm, input) with
  | true => constructor <;> simp_all
  | false =>
    refine ⟨hfollower, fun hleader hopen => ?_, fun hleader hsync => ?_⟩ <;>
      have hbefore := hleads hleader hrole
    · have hsenders := h.senders hbefore
      cases hreport : report? (hm, input) <;> simp_all
    · cases hdone : hm.syncReq with
      | true =>
        have henough := h.enough hbefore hdone
        cases hreport : report? (hm, input) <;> simp_all
        exact henough.trans_le (Finset.card_le_card (Finset.subset_insert _ _))
      | false =>
        have hsenders := h.senders hbefore hdone
        cases hreport : report? (hm, input) <;> simp_all

theorem le_card_insert_iff {s : Finset Nat} {f sender : Nat} (h : s.card ≤ f) :
    f + 1 ≤ (insert sender s).card ↔ sender ∉ s ∧ s.card = f := by
  by_cases hmem : sender ∈ s
  · simp only [Finset.insert_eq_of_mem hmem, hmem, not_true, false_and, iff_false]
    omega
  · rw [Finset.card_insert_of_notMem hmem]
    simp [hmem, Nat.le_antisymm_iff, h]

/-- A response makes the leader sync when it brings the nodes that have reported a later view
in this role to one more than can be faulty, and at no other time. -/
theorem sync_iff_enough_reporters {sender view : Nat}
    (hrun : run (step cfg) {} inputs = some hm)
    (hreact : hm.react cfg ⟨vs, .select (.inc sender (.heartBeatResponse view))⟩ =
      some (hm', acts)) :
    .sync ∈ acts ↔ ∃ current leaderID,
      lastRole (history cfg inputs) = some (false, current, leaderID) ∧ current < view ∧
        sender ∉ reporters (history cfg inputs) ∧
        (reporters (history cfg inputs)).card =
          (computeQuorum cfg.numberOfNodes).2 := by
  obtain ⟨-, h⟩ := history_invariant Collects.init (fun _ _ _ _ h => h.concat) hrun
  simp only [react, select, handleMsg, handleHeartBeatResponse, Option.ite_none_right_eq_some,
    Option.some.injEq] at hreact
  obtain ⟨hrunning, hreact⟩ := hreact
  obtain ⟨hlive, hfollows⟩ := follows hrun
  have hrole := hfollows.role (hlive hrunning)
  split_ifs at hreact with hfollower hdone hview hmany <;>
    obtain ⟨rfl, rfl⟩ := Prod.ext_iff.mp hreact
  · refine iff_of_false (by simp) ?_
    rintro ⟨_, _, hother, -⟩
    simp [hrole, hfollower] at hother
  all_goals
    have hleader : hm.follower = false := by simpa using hfollower
  · have henough := h.enough hleader hdone
    refine iff_of_false (by simp) ?_
    rintro ⟨_, _, -, -, -, hcard⟩
    omega
  · refine iff_of_false (by simp) ?_
    rintro ⟨_, _, hother, hlater, -⟩
    simp only [hrole, Option.some.injEq, Prod.mk.injEq] at hother
    omega
  all_goals
    obtain ⟨hkeys, hcard⟩ := h.senders hleader (by simpa using hdone)
    rw [hkeys, le_card_insert_iff hcard] at hmany
  · exact iff_of_true (by simp) ⟨hm.view, hm.leaderID, by rw [hrole, hleader], by omega, hmany⟩
  · refine iff_of_false (by simp) ?_
    rintro ⟨_, _, -, -, hreached⟩
    exact hmany hreached

theorem sync_after_two_reporters :
    ∃ hm hm' acts, run (step fourMonitors) {}
        (leadViewThree ++ [monitorInput (.inc 2 (.heartBeatResponse 4))]) = some hm ∧
      hm.react fourMonitors (monitorInput (.inc 4 (.heartBeatResponse 5))) = some (hm', acts) ∧
      .sync ∈ acts := by
  obtain ⟨hm, hm', acts, hrun, hreact⟩ := exists_react fourMonitors
    (leadViewThree ++ [monitorInput (.inc 2 (.heartBeatResponse 4))])
    (monitorInput (.inc 4 (.heartBeatResponse 5))) (by decide)
  exact ⟨hm, hm', acts, hrun, hreact, (sync_iff_enough_reporters hrun hreact).mpr
    ⟨3, 1, by decide⟩⟩

def Counts (cfg : MonitorConfig) (log : List MonitorEntry) (hm : HeartbeatMonitor) : Prop :=
  cfg.numOfTicksBehindBeforeSyncing * log.countP (syncTick cfg) +
    hm.behindCounter ≤ log.countP behindTick

theorem Counts.concat (h : Counts cfg log hm) (hnext : Advances cfg (hm, input) hm') :
    Counts cfg (log ++ [(hm, input)]) hm' := by
  have hlag := hnext.lag
  simp only [Counts, List.countP_append, Nat.mul_add] at h hlag ⊢
  omega

/-- A follower that is behind syncs at most once in the configured number of ticks at which it
is behind. -/
theorem syncTicks_le_behindTicks (hrun : run (step cfg) {} inputs = some hm) :
    cfg.numOfTicksBehindBeforeSyncing *
        (history cfg inputs).countP (syncTick cfg) ≤
      (history cfg inputs).countP behindTick := by
  have hcounts : Counts cfg [] {} := by simp [Counts]
  exact Nat.le_of_add_right_le
    (history_invariant hcounts (fun _ _ _ _ h => h.concat) hrun).2

def patientMonitors : MonitorConfig :=
  { fourMonitors with numOfTicksBehindBeforeSyncing := 2 }

/-- The follower is behind at two ticks, and syncs at the second one. -/
theorem syncTick_of_two :
    let inputs := followNodeTwo ++ [monitorInput (.scheduler 6), monitorInput (.scheduler 7)]
    patientMonitors.numOfTicksBehindBeforeSyncing *
        (history patientMonitors inputs).countP (syncTick patientMonitors) ≤
      (history patientMonitors inputs).countP behindTick ∧
      (history patientMonitors inputs).countP (syncTick patientMonitors) = 1 ∧
      (history patientMonitors inputs).countP behindTick = 2 := by
  obtain ⟨hm, hrun⟩ := Option.isSome_iff_exists.mp (by decide : (run (step patientMonitors) {}
    (followNodeTwo ++ [monitorInput (.scheduler 6), monitorInput (.scheduler 7)])).isSome = true)
  exact ⟨syncTicks_le_behindTicks hrun, by decide, by decide⟩

end HeartbeatMonitor

end SmartBFT
