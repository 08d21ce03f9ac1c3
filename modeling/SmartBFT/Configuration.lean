/-!
# The configuration

`pkg/types/config.go`: the parameters of a node and the checks that a node makes before it
uses them.  Fields that no check reads are left out.
-/

namespace SmartBFT

/-- Durations are counted in nanoseconds. -/
structure Configuration where
  selfID : UInt64
  requestBatchMaxCount : UInt64
  requestBatchMaxBytes : UInt64
  requestBatchMaxInterval : Int64
  incomingMessageBufferSize : UInt64
  requestPoolSize : UInt64
  requestForwardTimeout : Int64
  requestComplainTimeout : Int64
  requestAutoRemoveTimeout : Int64
  viewChangeResendInterval : Int64
  viewChangeTimeout : Int64
  leaderHeartbeatTimeout : Int64
  leaderHeartbeatCount : UInt64
  numOfTicksBehindBeforeSyncing : UInt64
  collectTimeout : Int64
  leaderRotation : Bool
  decisionsPerLeader : UInt64
  requestMaxBytes : UInt64
  requestPoolSubmitTimeout : Int64
  deriving DecidableEq, Repr

namespace Configuration

def second : Int64 := 1000000000

def defaultConfig (selfID : UInt64) : Configuration where
  selfID
  requestBatchMaxCount := 100
  requestBatchMaxBytes := 10 * 1024 * 1024
  requestBatchMaxInterval := 50 * 1000000
  incomingMessageBufferSize := 10000
  requestPoolSize := 400
  requestForwardTimeout := 2 * second
  requestComplainTimeout := 20 * second
  requestAutoRemoveTimeout := 3 * 60 * second
  viewChangeResendInterval := 5 * second
  viewChangeTimeout := 20 * second
  leaderHeartbeatTimeout := 60 * second
  leaderHeartbeatCount := 10
  numOfTicksBehindBeforeSyncing := 10
  collectTimeout := second
  leaderRotation := true
  decisionsPerLeader := 3
  requestMaxBytes := 10 * 1024
  requestPoolSubmitTimeout := 5 * second

abbrev Check := Bool × String

def nonzero (name : String) (value : UInt64) : Check :=
  (value = 0, name ++ " should be greater than zero")

def positive (name : String) (value : Int64) : Check :=
  (value ≤ 0, name ++ " should be greater than zero")

def atMost (name : String) (value : UInt64) (other : String) (bound : UInt64) : Check :=
  (bound < value, name ++ " is bigger than " ++ other)

def notLonger (name : String) (value : Int64) (other : String) (bound : Int64) : Check :=
  (bound < value, name ++ " is bigger than " ++ other)

def checks (c : Configuration) : List Check :=
  [nonzero "SelfID" c.selfID,
   nonzero "RequestBatchMaxCount" c.requestBatchMaxCount,
   nonzero "RequestBatchMaxBytes" c.requestBatchMaxBytes,
   positive "RequestBatchMaxInterval" c.requestBatchMaxInterval,
   nonzero "IncomingMessageBufferSize" c.incomingMessageBufferSize,
   nonzero "RequestPoolSize" c.requestPoolSize,
   positive "RequestForwardTimeout" c.requestForwardTimeout,
   positive "RequestComplainTimeout" c.requestComplainTimeout,
   positive "RequestAutoRemoveTimeout" c.requestAutoRemoveTimeout,
   positive "ViewChangeResendInterval" c.viewChangeResendInterval,
   positive "ViewChangeTimeout" c.viewChangeTimeout,
   positive "LeaderHeartbeatTimeout" c.leaderHeartbeatTimeout,
   nonzero "LeaderHeartbeatCount" c.leaderHeartbeatCount,
   nonzero "NumOfTicksBehindBeforeSyncing" c.numOfTicksBehindBeforeSyncing,
   positive "CollectTimeout" c.collectTimeout,
   atMost "RequestBatchMaxCount" c.requestBatchMaxCount
     "RequestBatchMaxBytes" c.requestBatchMaxBytes,
   atMost "RequestMaxBytes" c.requestMaxBytes "RequestBatchMaxBytes" c.requestBatchMaxBytes,
   notLonger "RequestForwardTimeout" c.requestForwardTimeout
     "RequestComplainTimeout" c.requestComplainTimeout,
   notLonger "RequestComplainTimeout" c.requestComplainTimeout
     "RequestAutoRemoveTimeout" c.requestAutoRemoveTimeout,
   notLonger "ViewChangeResendInterval" c.viewChangeResendInterval
     "ViewChangeTimeout" c.viewChangeTimeout,
   (c.leaderRotation && c.decisionsPerLeader = 0,
     "DecisionsPerLeader should be greater than zero when leader rotation is active"),
   (!c.leaderRotation && c.decisionsPerLeader ≠ 0,
     "DecisionsPerLeader should be zero when leader rotation is off"),
   nonzero "RequestMaxBytes" c.requestMaxBytes,
   positive "RequestPoolSubmitTimeout" c.requestPoolSubmitTimeout]

def validate (c : Configuration) : Except String Unit :=
  match c.checks.find? Prod.fst with
  | some (_, text) => .error text
  | none => .ok ()

theorem validate_eq_ok {c : Configuration} :
    c.validate = .ok () ↔ ∀ check ∈ c.checks, check.1 = false := by
  have hnone : c.validate = .ok () ↔ c.checks.find? Prod.fst = none := by
    unfold validate
    split <;> simp_all
  rw [hnone, List.find?_eq_none]
  simp

theorem validate_eq_error {c : Configuration} {text : String} :
    c.validate = .error text ↔ ∃ before after, c.checks = before ++ (true, text) :: after ∧
      ∀ check ∈ before, check.1 = false := by
  have hfind : c.validate = .error text ↔ c.checks.find? Prod.fst = some (true, text) := by
    unfold validate
    constructor
    · intro h
      split at h
      · rename_i failed found hfound
        have hfailed : failed = true := by simpa using List.find?_some hfound
        rw [hfound, hfailed, Except.error.inj h]
      · simp at h
    · intro h
      rw [h]
  rw [hfind, List.find?_eq_some_iff_append]
  simp

structure Valid (c : Configuration) : Prop where
  ok : c.validate = .ok ()

instance (c : Configuration) : Decidable c.Valid :=
  decidable_of_iff (∀ check ∈ c.checks, check.1 = false)
    ⟨fun h => ⟨validate_eq_ok.mpr h⟩, fun h => validate_eq_ok.mp h.ok⟩

theorem valid_defaultConfig {selfID : UInt64} (h : selfID ≠ 0) :
    (defaultConfig selfID).Valid := by
  have hothers : ∀ check ∈ (defaultConfig 1).checks.tail, check.1 = false := by decide +kernel
  have hchecks : (defaultConfig selfID).checks =
      nonzero "SelfID" selfID :: (defaultConfig 1).checks.tail := rfl
  refine ⟨validate_eq_ok.mpr ?_⟩
  rw [hchecks]
  intro check hcheck
  rcases List.mem_cons.mp hcheck with rfl | hother
  · simpa [nonzero] using h
  · exact hothers check hother

namespace Valid

variable {c : Configuration}

theorem passes (h : c.Valid) {check : Check} (hmem : check ∈ c.checks) : check.1 = false :=
  validate_eq_ok.mp h.ok check hmem

theorem requestBatchMaxCount_ne (h : c.Valid) : c.requestBatchMaxCount ≠ 0 := by
  have hcheck := @passes c h (nonzero "RequestBatchMaxCount" c.requestBatchMaxCount)
    (by simp [checks])
  simpa [nonzero] using hcheck

theorem requestBatchMaxBytes_ne (h : c.Valid) : c.requestBatchMaxBytes ≠ 0 := by
  have hcheck := @passes c h (nonzero "RequestBatchMaxBytes" c.requestBatchMaxBytes)
    (by simp [checks])
  simpa [nonzero] using hcheck

theorem requestMaxBytes_ne (h : c.Valid) : c.requestMaxBytes ≠ 0 := by
  have hcheck := @passes c h (nonzero "RequestMaxBytes" c.requestMaxBytes) (by simp [checks])
  simpa [nonzero] using hcheck

end Valid

end Configuration

end SmartBFT
