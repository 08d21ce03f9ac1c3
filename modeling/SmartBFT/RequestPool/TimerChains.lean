import SmartBFT.RequestPool.Timers

/-!
# Chains of timeouts

A callback that waits for the lock when `RestartTimers` is called goes on with the chain of its
own after it, next to the new chain.  A request has one live timer exactly as long as no timer
is started while a callback of the same request waits (`TimedPool.Sound.oneTimer_iff`).  If no
callback is under way when a chain is started, the handler is called once for each stage and
earlier chains are over (`one_timeout_chain`).
-/

namespace SmartBFT

open SmartBFT.Foundation

/-! ## When two chains run -/

namespace TimedPool

def starts (cfg : PoolConfig) (tp : TimedPool) : TimedEvent → List RequestInfo
  | .restartTimers _ => tp.pool.existMap.keys
  | .insert call _ => ((tp.pool.inserts cfg call).map cfg.requestID).toList
  | _ => []

def startsStopped (tp : TimedPool) : TimedEvent → Bool
  | .insert _ expires => decide (submitted tp.pool.stopped expires = .stopped)
  | _ => false

/-- A timer is started for a request of which a callback waits for the lock. -/
def Crosses (cfg : PoolConfig) (tp : TimedPool) (event : TimedEvent) : Prop :=
  tp.startsStopped event = false ∧
    ∃ t ∈ tp.timers, t.state = .fired ∧ t.callback.info ∈ tp.starts cfg event

/-- A chain is started for a request of which a callback is under way, or the timers are
restarted when a callback is about to call the handler. -/
def Overlaps (cfg : PoolConfig) (tp : TimedPool) (event : TimedEvent) : Prop :=
  ∃ t ∈ tp.timers,
    (t.state = .fired ∨ t.state = .handling) ∧ t.callback.info ∈ tp.starts cfg event ∨
      t.state = .handling ∧ event.restarts = true

def Acts (tp : TimedPool) (timer : Nat) : TimedEvent → Prop
  | .callback other => timer = other ∧ ∃ t, tp.timers[timer]? = some t ∧ t.state = .fired ∧
      t.callback.info ∈ tp.pool.existMap
  | .handler other => timer = other ∧ ∃ t, tp.timers[timer]? = some t ∧ t.state = .handling
  | _ => False

def calls (tp : TimedPool) (info : RequestInfo) (stage : TimeoutStage) : Nat :=
  tp.called.countP fun callback =>
    decide (callback.info = info) && decide (callback.stage = stage)

instance (cfg : PoolConfig) (tp : TimedPool) (event : TimedEvent) :
    Decidable (tp.Crosses cfg event) :=
  inferInstanceAs (Decidable (_ ∧ _))

instance (cfg : PoolConfig) (tp : TimedPool) (event : TimedEvent) :
    Decidable (tp.Overlaps cfg event) :=
  inferInstanceAs (Decidable (∃ t ∈ tp.timers, _))

end TimedPool

/-! ## Timers that are due -/

def Timer.Live (timer : Timer) : Prop := timer.state = .pending ∨ timer.state = .fired

def Timer.Due (stage : TimeoutStage) (timer : Timer) : Prop :=
  timer.state = .handling ∧ timer.callback.stage = stage ∨
    timer.Live ∧ timer.callback.stage.rank ≤ stage.rank

structure HandedOn (due : Timer → Prop) : Prop where
  stopped : ∀ callback, ¬ due ⟨callback, .stopped⟩
  returned : ∀ callback, ¬ due ⟨callback, .returned⟩
  fired : ∀ callback, due ⟨callback, .fired⟩ → due ⟨callback, .pending⟩
  handling : ∀ callback, due ⟨callback, .handling⟩ → due ⟨callback, .fired⟩
  next : ∀ callback next, callback.next = some next → due ⟨next, .pending⟩ →
    due ⟨callback, .fired⟩ ∧ ¬ due ⟨callback, .handling⟩

theorem handedOn_live : HandedOn Timer.Live := by
  constructor <;> simp [Timer.Live]

theorem handedOn_due (stage : TimeoutStage) : HandedOn (Timer.Due stage) where
  stopped := by simp [Timer.Due, Timer.Live]
  returned := by simp [Timer.Due, Timer.Live]
  fired := by simp [Timer.Due, Timer.Live]
  handling := by
    intro callback hdue
    have hstage : callback.stage = stage := by simpa [Timer.Due, Timer.Live] using hdue
    simp [Timer.Due, Timer.Live, hstage]
  next := by
    intro callback next hnext hdue
    have hrank : next.stage.rank ≤ stage.rank := by simpa [Timer.Due, Timer.Live] using hdue
    rw [Callback.rank_next hnext] at hrank
    constructor
    · exact .inr ⟨.inr rfl, Nat.le_of_succ_le hrank⟩
    · rintro (⟨-, hstage⟩ | ⟨hlive, -⟩)
      · simp only at hstage
        rw [hstage] at hrank
        omega
      · simp [Timer.Live] at hlive

def AtMostOne (due : Timer → Prop) (timers : List Timer) : Prop :=
  ∀ (i j : Nat) (t u : Timer), timers[i]? = some t → timers[j]? = some u →
    t.callback.info = u.callback.info → due t → due u → i = j

def Lapsed (due : Timer → Prop) (info : RequestInfo) (timers : List Timer) : Prop :=
  ∀ t ∈ timers, t.callback.info = info → ¬ due t

structure Fades (due : Timer → Prop) (timers timers' : List Timer) : Prop where
  length : timers'.length = timers.length
  kept : ∀ (i : Nat) (u : Timer), timers'[i]? = some u →
    ∃ t, timers[i]? = some t ∧ u.callback = t.callback ∧ (due u → due t)

section Timers

variable {due : Timer → Prop} {timers timers' timers'' : List Timer} {info : RequestInfo}
  {i j : Nat} {t u new : Timer} {f : Timer → Timer}

theorem getElem?_modify_some :
    (timers.modify i f)[j]? = some u ↔
      ∃ t, timers[j]? = some t ∧ (if i = j then f t else t) = u := by
  rw [List.getElem?_modify]
  exact Option.map_eq_some_iff

theorem getElem?_concat_some :
    (timers ++ [new])[j]? = some u ↔ timers[j]? = some u ∨ j = timers.length ∧ new = u := by
  rcases Nat.lt_trichotomy j timers.length with hlt | rfl | hgt
  · simp [List.getElem?_append_left hlt, Nat.ne_of_lt hlt]
  · simp
  · have hnone : timers[j]? = none := List.getElem?_eq_none (by omega)
    have hnone' : (timers ++ [new])[j]? = none := List.getElem?_eq_none (by simp; omega)
    simp [hnone, hnone', Nat.ne_of_gt hgt]

theorem Fades.refl : Fades due timers timers := ⟨rfl, fun _ u hu => ⟨u, hu, rfl, id⟩⟩

theorem Fades.trans (hfirst : Fades due timers timers') (hsecond : Fades due timers' timers'') :
    Fades due timers timers'' := by
  refine ⟨hsecond.length.trans hfirst.length, fun i u hu => ?_⟩
  obtain ⟨t, ht, hcallback, hdue⟩ := hsecond.kept i u hu
  obtain ⟨s, hs, hcallback', hdue'⟩ := hfirst.kept i t ht
  exact ⟨s, hs, hcallback.trans hcallback', fun h => hdue' (hdue h)⟩

theorem Fades.modify
    (hf : ∀ t, timers[i]? = some t → (f t).callback = t.callback ∧ (due (f t) → due t)) :
    Fades due timers (timers.modify i f) := by
  refine ⟨by simp, fun j u hu => ?_⟩
  obtain ⟨t, ht, rfl⟩ := getElem?_modify_some.mp hu
  by_cases hij : i = j
  · subst hij
    obtain ⟨hcallback, hdue⟩ := hf t ht
    refine ⟨t, ht, ?_, ?_⟩ <;> simpa
  · simp only [hij, if_false]
    exact ⟨t, ht, rfl, id⟩

theorem Fades.exists_after (h : Fades due timers timers') (ht : timers[i]? = some t) :
    ∃ u, timers'[i]? = some u ∧ u.callback = t.callback := by
  obtain ⟨hlt, -⟩ := List.getElem?_eq_some_iff.mp ht
  have hlt' : i < timers'.length := by rwa [h.length]
  have hu := List.getElem?_eq_getElem hlt'
  obtain ⟨s, hs, hcallback, -⟩ := h.kept i _ hu
  obtain rfl : t = s := Option.some.inj (ht.symm.trans hs)
  exact ⟨_, hu, hcallback⟩

theorem AtMostOne.of_fades (h : AtMostOne due timers) (hfades : Fades due timers timers') :
    AtMostOne due timers' := by
  intro i j t u ht hu hinfo hdue hdue'
  obtain ⟨s, hs, hsame, hfaded⟩ := hfades.kept i t ht
  obtain ⟨v, hv, hsame', hfaded'⟩ := hfades.kept j u hu
  exact h i j s v hs hv (by rw [← hsame, ← hsame', hinfo]) (hfaded hdue) (hfaded' hdue')

theorem Lapsed.of_fades (h : Lapsed due info timers) (hfades : Fades due timers timers') :
    Lapsed due info timers' := by
  intro u hmem hinfo hdue
  obtain ⟨i, hi⟩ := List.mem_iff_getElem?.mp hmem
  obtain ⟨t, ht, hsame, hfaded⟩ := hfades.kept i u hi
  exact h t (List.mem_of_getElem? ht) (hsame ▸ hinfo) (hfaded hdue)

theorem AtMostOne.concat (h : AtMostOne due timers)
    (hnew : due new → Lapsed due new.callback.info timers) : AtMostOne due (timers ++ [new]) := by
  intro i j t u ht hu hinfo hdue hdue'
  rcases getElem?_concat_some.mp ht with hold | ⟨rfl, rfl⟩ <;>
    rcases getElem?_concat_some.mp hu with hold' | ⟨rfl, rfl⟩
  · exact h i j t u hold hold' hinfo hdue hdue'
  · exact absurd hdue (hnew hdue' t (List.mem_of_getElem? hold) hinfo)
  · exact absurd hdue' (hnew hdue u (List.mem_of_getElem? hold') hinfo.symm)
  · rfl

theorem Lapsed.concat (h : Lapsed due info timers)
    (hnew : new.callback.info = info → ¬ due new) : Lapsed due info (timers ++ [new]) := by
  intro t hmem hinfo
  rcases List.mem_append.mp hmem with hold | hlast
  · exact h t hold hinfo
  · obtain rfl := List.mem_singleton.mp hlast
    exact hnew hinfo

theorem AtMostOne.lapsed (h : AtMostOne due timers) (ht : timers[i]? = some t) (hdue : due t)
    (hlost : ¬ due (f t)) :
    Lapsed due t.callback.info (timers.modify i f) := by
  intro u hmem hinfo hdue'
  obtain ⟨j, hj⟩ := List.mem_iff_getElem?.mp hmem
  obtain ⟨s, hs, rfl⟩ := getElem?_modify_some.mp hj
  by_cases hij : i = j
  · subst hij
    obtain rfl : t = s := Option.some.inj (ht.symm.trans hs)
    exact hlost (by simpa using hdue')
  · simp only [hij, if_false] at hinfo hdue'
    exact hij (h i j t s ht hs hinfo.symm hdue hdue')

end Timers

/-! ## The timers of the requests in the pool -/

def Timer.Pending (timer : Timer) : Prop := timer.state = .pending

theorem Timer.callback_stop (t : Timer) : t.stop.callback = t.callback := by
  unfold Timer.stop
  split <;> rfl

theorem Timer.due_stop {due : Timer → Prop} (hdue : ∀ callback, ¬ due ⟨callback, .stopped⟩)
    {t : Timer} (h : due t.stop) : due t := by
  unfold Timer.stop at h
  split at h
  · exact absurd h (hdue _)
  · exact h

namespace TimedPool

variable {cfg : PoolConfig} {due : Timer → Prop} {tp tp' : TimedPool} {info : RequestInfo}
  {order : List RequestInfo}

structure Chains (tp : TimedPool) : Prop where
  wired : ∀ info ∈ tp.pool.existMap,
    ∃ t, tp.timers[tp.timeout info]? = some t ∧ t.callback.info = info
  tracked : ∀ (i : Nat) (t : Timer), tp.timers[i]? = some t → t.Pending →
    t.callback.info ∈ tp.pool.existMap ∧ tp.timeout t.callback.info = i

@[simp] theorem pool_stopTimer : (tp.stopTimer info).pool = tp.pool := by
  unfold stopTimer
  split <;> rfl

@[simp] theorem timeout_stopTimer : (tp.stopTimer info).timeout = tp.timeout := by
  unfold stopTimer
  split <;> rfl

@[simp] theorem called_stopTimer : (tp.stopTimer info).called = tp.called := by
  unfold stopTimer
  split <;> rfl

theorem fades_stopTimer (hdue : ∀ callback, ¬ due ⟨callback, .stopped⟩) :
    Fades due tp.timers (tp.stopTimer info).timers := by
  unfold stopTimer
  split
  · exact .modify fun t _ => ⟨t.callback_stop, Timer.due_stop hdue⟩
  · exact .refl

theorem Chains.of_fades (h : Chains tp) (hfades : Fades Timer.Pending tp.timers tp'.timers)
    (htimeout : tp'.timeout = tp.timeout)
    (hsub : ∀ info ∈ tp'.pool.existMap, info ∈ tp.pool.existMap)
    (hpending : ∀ t ∈ tp'.timers, t.Pending → t.callback.info ∈ tp.pool.existMap →
      t.callback.info ∈ tp'.pool.existMap) : Chains tp' where
  wired := by
    intro info hinfo
    obtain ⟨t, ht, rfl⟩ := h.wired info (hsub info hinfo)
    obtain ⟨u, hu, hcallback⟩ := hfades.exists_after ht
    exact ⟨u, by rwa [htimeout], by rw [hcallback]⟩
  tracked := by
    intro i u hu hstate
    obtain ⟨t, ht, hcallback, hold⟩ := hfades.kept i u hu
    obtain ⟨hmem, hplace⟩ := h.tracked i t ht (hold hstate)
    rw [← hcallback] at hmem hplace
    exact ⟨hpending u (List.mem_of_getElem? hu) hstate hmem, by rw [htimeout, hplace]⟩

theorem Chains.stopTimer (h : Chains tp) (info : RequestInfo) : Chains (tp.stopTimer info) :=
  h.of_fades (fades_stopTimer (by simp [Timer.Pending])) timeout_stopTimer
    (by simp) (by simp)

theorem Chains.lapsed_stopTimer (h : Chains tp) (hpooled : info ∈ tp.pool.existMap)
    (hdue : ∀ callback, ¬ due ⟨callback, .stopped⟩)
    (hcalm : ∀ t ∈ tp.timers, t.callback.info = info → due t → t.Pending) :
    Lapsed due info (tp.stopTimer info).timers := by
  intro u hmem hinfo hdue'
  obtain ⟨i, hi⟩ := List.mem_iff_getElem?.mp hmem
  simp only [TimedPool.stopTimer, hpooled, if_true] at hi
  obtain ⟨t, ht, rfl⟩ := getElem?_modify_some.mp hi
  split at hdue'
  · rename_i hplace
    simp only [hplace, if_true, Timer.callback_stop] at hinfo
    have hpending := hcalm t (List.mem_of_getElem? ht) hinfo (Timer.due_stop hdue hdue')
    have hstate : t.state = .pending := hpending
    simp only [Timer.stop, hstate, if_true] at hdue'
    exact hdue _ hdue'
  · rename_i hplace
    simp only [hplace, if_false] at hinfo
    obtain ⟨-, hplace'⟩ := h.tracked i t ht (hcalm t (List.mem_of_getElem? ht) hinfo hdue')
    exact hplace (by rw [← hplace', hinfo])

theorem Chains.startTimer {callback : Callback} {state : TimerState}
    (hwired : ∀ info ∈ tp.pool.existMap, info ≠ callback.info →
      ∃ t, tp.timers[tp.timeout info]? = some t ∧ t.callback.info = info)
    (htracked : ∀ (i : Nat) (t : Timer), tp.timers[i]? = some t → t.Pending →
      t.callback.info ∈ tp.pool.existMap ∧ tp.timeout t.callback.info = i)
    (hnone : Lapsed Timer.Pending callback.info tp.timers)
    (hpooled : callback.info ∈ tp.pool.existMap) :
    Chains (tp.startTimer callback state) where
  wired := by
    intro info hinfo
    simp only [TimedPool.startTimer, Function.update_apply]
    split
    · rename_i hsame
      exact ⟨⟨callback, state⟩, by simp, hsame.symm⟩
    · rename_i hother
      obtain ⟨t, ht, hcallback⟩ := hwired info hinfo hother
      exact ⟨t, getElem?_concat_some.mpr (.inl ht), hcallback⟩
  tracked := by
    intro i t ht hpending
    simp only [TimedPool.startTimer] at ht
    rcases getElem?_concat_some.mp ht with hold | ⟨rfl, rfl⟩
    · have hother : t.callback.info ≠ callback.info := fun hsame =>
        hnone t (List.mem_of_getElem? hold) hsame hpending
      obtain ⟨hmem, hplace⟩ := htracked i t hold hpending
      exact ⟨hmem, by simpa [TimedPool.startTimer, Function.update_of_ne hother] using hplace⟩
    · exact ⟨hpooled, by simp [TimedPool.startTimer]⟩

theorem Chains.setState (h : Chains tp) {timer : Nat} {state : TimerState}
    (hstate : state ≠ .pending) : Chains (tp.setState timer state) :=
  h.of_fades (.modify fun _ _ => ⟨rfl, fun hpending => absurd hpending hstate⟩) rfl
    (fun _ => id) (fun _ _ _ => id)

/-! ## Restarting the timers -/

theorem pool_restartTimer : (tp.restartTimer info).pool = tp.pool := by
  unfold restartTimer
  split
  · rfl
  · simp [TimedPool.startTimer]

theorem pool_foldl_restartTimer : (order.foldl restartTimer tp).pool = tp.pool := by
  induction order generalizing tp with
  | nil => rfl
  | cons first order ih => rw [List.foldl_cons, ih, pool_restartTimer]

theorem Chains.restartTimer (h : Chains tp) (hdue : ∀ callback, ¬ due ⟨callback, .stopped⟩)
    (hunique : AtMostOne due tp.timers)
    (hcalm : ∀ t ∈ tp.timers, t.callback.info = info → due t → t.Pending) :
    Chains (tp.restartTimer info) ∧ AtMostOne due (tp.restartTimer info).timers := by
  unfold TimedPool.restartTimer
  split
  · exact ⟨h, hunique⟩
  · rename_i element hlookup
    have hpooled : info ∈ tp.pool.existMap := AList.lookup_isSome.mp (by simp [hlookup])
    have hstopped := h.stopTimer info
    refine ⟨.startTimer (fun info hinfo _ => hstopped.wired info hinfo) hstopped.tracked ?_ ?_, ?_⟩
    · exact h.lapsed_stopTimer hpooled (by simp [Timer.Pending]) (fun _ _ _ => id)
    · simpa [Callback.info] using hpooled
    · exact (hunique.of_fades (fades_stopTimer hdue)).concat fun _ =>
        h.lapsed_stopTimer hpooled hdue hcalm

theorem calm_restartTimer (hdue : ∀ callback, ¬ due ⟨callback, .stopped⟩)
    (hcalm : ∀ t ∈ tp.timers, t.callback.info ∈ order → due t → t.Pending) :
    ∀ t ∈ (tp.restartTimer info).timers, t.callback.info ∈ order → due t → t.Pending := by
  have hfades : Fades (fun t => due t ∧ ¬ t.Pending) tp.timers (tp.stopTimer info).timers :=
    fades_stopTimer fun callback h => hdue callback h.1
  intro u hmem hinfo hdue'
  unfold TimedPool.restartTimer at hmem
  split at hmem
  · exact hcalm u hmem hinfo hdue'
  · rcases List.mem_append.mp hmem with hold | hnew
    · by_contra hpending
      obtain ⟨i, hi⟩ := List.mem_iff_getElem?.mp hold
      obtain ⟨t, ht, hcallback, hfaded⟩ := hfades.kept i u hi
      obtain ⟨hwas, hnot⟩ := hfaded ⟨hdue', hpending⟩
      exact hnot (hcalm t (List.mem_of_getElem? ht) (hcallback ▸ hinfo) hwas)
    · obtain rfl := List.mem_singleton.mp hnew
      exact rfl

theorem Chains.foldl_restartTimer (h : Chains tp)
    (hdue : ∀ callback, ¬ due ⟨callback, .stopped⟩) (hunique : AtMostOne due tp.timers)
    (hcalm : ∀ t ∈ tp.timers, t.callback.info ∈ order → due t → t.Pending) :
    Chains (order.foldl TimedPool.restartTimer tp) ∧
      AtMostOne due (order.foldl TimedPool.restartTimer tp).timers := by
  induction order generalizing tp with
  | nil => exact ⟨h, hunique⟩
  | cons first order ih =>
    obtain ⟨hchains, hround⟩ := @Chains.restartTimer due tp first h hdue hunique
      fun t hmem hinfo => hcalm t hmem (by simp [hinfo])
    exact ih hchains hround (calm_restartTimer hdue fun t hmem hinfo =>
      hcalm t hmem (List.mem_cons_of_mem _ hinfo))

end TimedPool

namespace TimedPool

variable {cfg : PoolConfig} {due : Timer → Prop} {tp tp' : TimedPool} {event : TimedEvent}
  {info : RequestInfo}
variable {order : List RequestInfo}

section Stops

variable {infos : List RequestInfo}

theorem foldl_stopTimer_kept : (infos.foldl stopTimer tp).pool = tp.pool ∧
    (infos.foldl stopTimer tp).timeout = tp.timeout ∧
    (infos.foldl stopTimer tp).called = tp.called := by
  induction infos generalizing tp with
  | nil => exact ⟨rfl, rfl, rfl⟩
  | cons first infos ih =>
    obtain ⟨hpool, htimeout, hcalled⟩ := @ih (tp.stopTimer first)
    rw [List.foldl_cons, hpool, htimeout, hcalled]
    simp

theorem fades_foldl_stopTimer (hdue : ∀ callback, ¬ due ⟨callback, .stopped⟩) :
    Fades due tp.timers (infos.foldl stopTimer tp).timers := by
  induction infos generalizing tp with
  | nil => exact .refl
  | cons first infos ih => exact (fades_stopTimer hdue).trans ih

theorem Chains.lapsed_foldl_stopTimer (h : Chains tp) (hpooled : info ∈ tp.pool.existMap)
    (hmem : info ∈ infos) :
    Lapsed Timer.Pending info (infos.foldl TimedPool.stopTimer tp).timers := by
  have hstopped : ∀ callback, ¬ Timer.Pending ⟨callback, .stopped⟩ := by simp [Timer.Pending]
  induction infos generalizing tp with
  | nil => simp at hmem
  | cons first infos ih =>
    rcases List.mem_cons.mp hmem with rfl | hlater
    · exact (h.lapsed_stopTimer hpooled hstopped fun _ _ _ => id).of_fades
        (fades_foldl_stopTimer hstopped)
    · exact ih (h.stopTimer first) (by simpa using hpooled) hlater

end Stops

theorem stopTimer_getElem? {i : Nat} {t : Timer} (ht : tp.timers[i]? = some t) :
    ∃ u, (tp.stopTimer info).timers[i]? = some u ∧
      (u = t ∨ t.Pending ∧ u = ⟨t.callback, .stopped⟩) := by
  unfold stopTimer
  split
  · refine ⟨_, getElem?_modify_some.mpr ⟨t, ht, rfl⟩, ?_⟩
    split
    · by_cases hpending : t.state = .pending
      · exact .inr ⟨hpending, if_pos hpending⟩
      · exact .inl (if_neg hpending)
    · exact .inl rfl
  · exact ⟨t, ht, .inl rfl⟩

theorem foldl_stopTimer_getElem? {infos : List RequestInfo} {i : Nat} {t : Timer}
    (ht : tp.timers[i]? = some t) (hpending : ¬ t.Pending) :
    (infos.foldl stopTimer tp).timers[i]? = some t := by
  induction infos generalizing tp with
  | nil => exact ht
  | cons first infos ih =>
    obtain ⟨u, hu, rfl | ⟨hwas, -⟩⟩ := @stopTimer_getElem? tp first i t ht
    · exact ih hu
    · exact absurd hwas hpending

theorem Chains.with_pool (h : Chains tp) {pool : Pool}
    (hpool : ∀ info, info ∈ pool.existMap ↔ info ∈ tp.pool.existMap) :
    Chains { tp with pool } :=
  h.of_fades .refl rfl (fun info => (hpool info).mp) (fun _ _ _ => (hpool _).mpr)

theorem Chains.step (h : Chains tp) (hlive : AtMostOne Timer.Live tp.timers)
    (hmove : TimedMove cfg tp event tp') : Chains tp' := by
  cases hmove with
  | pool hsub hkept =>
    refine h.of_fades (fades_foldl_stopTimer (by simp [Timer.Pending]))
      foldl_stopTimer_kept.2.1 hsub ?_
    intro t hmem hpending hpooled
    by_contra hgone
    have hstopped := fun hout => hgone (hkept _ hpooled hout)
    exact h.lapsed_foldl_stopTimer hpooled (not_not.mp hstopped) t hmem rfl hpending
  | known _ hpool => exact h.with_pool (by simp [hpool])
  | @inserted _ _ _ request hinserts hnew hpool =>
    refine .startTimer ?_ ?_ ?_ ((hpool _).mpr (.inl rfl))
    · intro info hinfo hother
      exact h.wired info (((hpool info).mp hinfo).resolve_left hother)
    · intro i t ht hpending
      obtain ⟨hmem, hplace⟩ := h.tracked i t ht hpending
      exact ⟨(hpool _).mpr (.inr hmem), hplace⟩
    · intro t hmem hinfo hpending
      have hsame : t.callback.info = cfg.requestID request := hinfo
      obtain ⟨i, hi⟩ := List.mem_iff_getElem?.mp hmem
      exact hnew (hsame ▸ (h.tracked i t hi hpending).1)
  | restarted hperm hpool =>
    obtain ⟨hchains, -⟩ := @Chains.foldl_restartTimer (fun _ => False) tp _ h (by simp)
      (by simp [AtMostOne]) (by simp)
    exact hchains.with_pool (by simp [hpool, pool_foldl_restartTimer])
  | expired htimer => exact h.setState (by simp)
  | @passed timer _ _ _ htimer hnext hpooled hpool =>
    have hinfo := Callback.info_next hnext
    have hhandling : Chains (tp.setState timer .handling) := h.setState (by simp)
    refine Chains.with_pool (.startTimer (fun info hmem _ => hhandling.wired info hmem)
      hhandling.tracked ?_ ?_) (by simp [hpool, TimedPool.startTimer, TimedPool.setState])
    · intro t hmem hsame hpending
      exact hlive.lapsed htimer (.inr rfl) (by simp [Timer.Live]) t hmem (hsame.trans hinfo)
        (.inl hpending)
    · rw [hinfo]
      exact hpooled
  | @removed timer info _ htimer hpooled hpool =>
    have hhandling : Chains ((tp.stopTimer info).setState timer .handling) :=
      (h.stopTimer info).setState (by simp)
    refine hhandling.of_fades .refl rfl ?_ ?_
    · intro other hother
      simpa [TimedPool.setState] using ((hpool other).mp hother).2
    · intro t hmem hpending hwas
      have hlapsed : Lapsed Timer.Pending info
          ((tp.stopTimer info).setState timer .handling).timers :=
        (h.lapsed_stopTimer hpooled (by simp [Timer.Pending]) fun _ _ _ => id).of_fades
          (.modify fun _ _ => ⟨rfl, fun hstate => by simp [Timer.Pending] at hstate⟩)
      exact (hpool _).mpr ⟨fun hsame => hlapsed t hmem hsame hpending,
        by simpa [TimedPool.setState] using hwas⟩
  | ended htimer hpool => exact (h.setState (by simp)).with_pool hpool
  | handled htimer =>
    exact (h.setState (by simp)).of_fades .refl rfl (fun _ => id) (fun _ _ _ => id)

def Calm (cfg : PoolConfig) (due : Timer → Prop) (tp : TimedPool) (event : TimedEvent) : Prop :=
  tp.startsStopped event = false →
    ∀ t ∈ tp.timers, t.callback.info ∈ tp.starts cfg event → due t → t.Pending

theorem fades_setState {timer : Nat} {callback : Callback} {state state' : TimerState}
    (htimer : tp.timers[timer]? = some ⟨callback, state⟩)
    (hfades : due ⟨callback, state'⟩ → due ⟨callback, state⟩) :
    Fades due tp.timers (tp.setState timer state').timers := by
  refine .modify fun t ht => ⟨rfl, ?_⟩
  obtain rfl := Option.some.inj (htimer.symm.trans ht)
  exact hfades

theorem fades_removed {timer : Nat} {callback : Callback} (hdue : HandedOn due)
    (htimer : tp.timers[timer]? = some ⟨callback, .fired⟩) :
    Fades due tp.timers ((tp.stopTimer info).setState timer .handling).timers := by
  have hfired : (tp.stopTimer info).timers[timer]? = some ⟨callback, .fired⟩ :=
    @foldl_stopTimer_getElem? tp [info] timer _ htimer (by simp [Timer.Pending])
  exact (fades_stopTimer hdue.stopped).trans (fades_setState hfired (hdue.handling _))

theorem atMostOne_step (hdue : HandedOn due) (h : Chains tp) (hunique : AtMostOne due tp.timers)
    (hmove : TimedMove cfg tp event tp') (hcalm : tp.Calm cfg due event) :
    AtMostOne due tp'.timers := by
  cases hmove with
  | pool => exact hunique.of_fades (fades_foldl_stopTimer hdue.stopped)
  | known => exact hunique
  | @inserted call expires _ request hinserts hnew hpool =>
    refine hunique.concat fun hnewDue t hmem hinfo hold => ?_
    have hstarted : tp.startsStopped (.insert call expires) = false := by
      refine decide_eq_false fun hstopped => ?_
      rw [hstopped] at hnewDue
      exact hdue.stopped _ hnewDue
    have hsame : t.callback.info = cfg.requestID request := hinfo
    have hpending := hcalm hstarted t hmem (by simp [starts, hinserts, hsame]) hold
    obtain ⟨i, hi⟩ := List.mem_iff_getElem?.mp hmem
    exact hnew (hsame ▸ (h.tracked i t hi hpending).1)
  | restarted hperm hpool =>
    exact (h.foldl_restartTimer hdue.stopped hunique fun t hmem hinfo =>
      hcalm rfl t hmem (hperm.mem_iff.mp hinfo)).2
  | expired htimer => exact hunique.of_fades (fades_setState htimer (hdue.fired _))
  | passed htimer hnext hpooled hpool =>
    refine (hunique.of_fades (fades_setState htimer (hdue.handling _))).concat fun hnewDue => ?_
    obtain ⟨hfired, hhandling⟩ := hdue.next _ _ hnext hnewDue
    exact Callback.info_next hnext ▸ hunique.lapsed htimer hfired hhandling
  | removed htimer hpooled hpool => exact hunique.of_fades (fades_removed hdue htimer)
  | ended htimer hpool =>
    exact hunique.of_fades (fades_setState htimer fun hlost => absurd hlost (hdue.returned _))
  | handled htimer =>
    exact hunique.of_fades (fades_setState htimer fun hlost => absurd hlost (hdue.returned _))

theorem lapsed_restartTimer {first : RequestInfo} (hdue : ∀ callback, ¬ due ⟨callback, .stopped⟩)
    (h : Lapsed due info tp.timers) (hother : first ≠ info) :
    Lapsed due info (tp.restartTimer first).timers := by
  unfold restartTimer
  split
  · exact h
  · exact (h.of_fades (fades_stopTimer hdue)).concat fun hsame => absurd hsame hother

theorem lapsed_foldl_restartTimer (hdue : ∀ callback, ¬ due ⟨callback, .stopped⟩)
    (h : Lapsed due info tp.timers) (hother : info ∉ order) :
    Lapsed due info (order.foldl restartTimer tp).timers := by
  induction order generalizing tp with
  | nil => exact h
  | cons first order ih =>
    have hfirst : first ≠ info := fun hsame => hother (by simp [hsame])
    exact ih (lapsed_restartTimer hdue h hfirst) fun hmem =>
      hother (List.mem_cons_of_mem _ hmem)

theorem lapsed_step (hdue : HandedOn due) (h : Lapsed due info tp.timers)
    (hmove : TimedMove cfg tp event tp') (hstarts : info ∉ tp.starts cfg event) :
    Lapsed due info tp'.timers := by
  cases hmove with
  | pool => exact h.of_fades (fades_foldl_stopTimer hdue.stopped)
  | known => exact h
  | inserted hinserts hnew hpool =>
    refine h.concat fun hsame => absurd ?_ hstarts
    simp only [starts, hinserts, Option.map_some, Option.toList_some, List.mem_singleton]
    exact hsame.symm
  | restarted hperm hpool =>
    exact lapsed_foldl_restartTimer hdue.stopped h fun hmem => hstarts (hperm.mem_iff.mp hmem)
  | expired htimer => exact h.of_fades (fades_setState htimer (hdue.fired _))
  | passed htimer hnext hpooled hpool =>
    refine (h.of_fades (fades_setState htimer (hdue.handling _))).concat fun hsame hnewDue => ?_
    exact h _ (List.mem_of_getElem? htimer) ((Callback.info_next hnext).symm.trans hsame)
      (hdue.next _ _ hnext hnewDue).1
  | removed htimer hpooled hpool => exact h.of_fades (fades_removed hdue htimer)
  | ended htimer hpool =>
    exact h.of_fades (fades_setState htimer fun hlost => absurd hlost (hdue.returned _))
  | handled htimer =>
    exact h.of_fades (fades_setState htimer fun hlost => absurd hlost (hdue.returned _))

/-! ## At most one live timer -/

/-- A request in the pool has at most one timer that runs or whose callback waits for the
lock. -/
def OneTimer (tp : TimedPool) : Prop :=
  ∀ (i j : Nat) (t u : Timer), tp.timers[i]? = some t → tp.timers[j]? = some u →
    t.callback.info = u.callback.info → t.callback.info ∈ tp.pool.existMap →
    t.Live → u.Live → i = j

structure Sound (cfg : PoolConfig) (tp : TimedPool) : Prop where
  consistent : tp.pool.Consistent cfg
  chains : Chains tp
  live : AtMostOne Timer.Live tp.timers

theorem Sound.oneTimer (h : Sound cfg tp) : tp.OneTimer :=
  fun i j t u ht hu hinfo _ hlive hlive' => h.live i j t u ht hu hinfo hlive hlive'

theorem sound_newTimedPool (cfg : PoolConfig) (requestMaxBytes : Nat) :
    Sound cfg (newTimedPool requestMaxBytes) where
  consistent := Pool.consistent_newPool cfg requestMaxBytes
  chains := ⟨by simp [newTimedPool, newPool], by simp [newTimedPool]⟩
  live := by simp [AtMostOne, newTimedPool]

theorem calm_of_not_crosses (h : ¬ tp.Crosses cfg event) : tp.Calm cfg Timer.Live event := by
  intro hstarted t hmem hinfo hlive
  rcases hlive with hpending | hfired
  · exact hpending
  · exact absurd ⟨hstarted, t, hmem, hfired, hinfo⟩ h

theorem Sound.step (h : Sound cfg tp) (hcrosses : ¬ tp.Crosses cfg event)
    (hstep : tp.step cfg event = some tp') : Sound cfg tp' := by
  have hmove := step_move h.consistent hstep
  exact ⟨consistent_step h.consistent hstep, h.chains.step h.live hmove,
    atMostOne_step handedOn_live h.chains h.live hmove (calm_of_not_crosses hcrosses)⟩

theorem foldl_restartTimer_getElem? {order : List RequestInfo} {i : Nat} {t : Timer}
    (ht : tp.timers[i]? = some t) :
    ∃ u, (order.foldl restartTimer tp).timers[i]? = some u ∧
      (u = t ∨ t.Pending ∧ u = ⟨t.callback, .stopped⟩) := by
  induction order generalizing tp t with
  | nil => exact ⟨t, ht, .inl rfl⟩
  | cons first order ih =>
    have hround : ∃ u, (tp.restartTimer first).timers[i]? = some u ∧
        (u = t ∨ t.Pending ∧ u = ⟨t.callback, .stopped⟩) := by
      unfold restartTimer
      split
      · exact ⟨t, ht, .inl rfl⟩
      · obtain ⟨u, hu, hstopped⟩ := @stopTimer_getElem? tp first i t ht
        exact ⟨u, getElem?_concat_some.mpr (.inl hu), hstopped⟩
    obtain ⟨u, hu, rfl | ⟨hpending, rfl⟩⟩ := hround
    · exact ih hu
    · obtain ⟨v, hv, rfl | ⟨hwas, -⟩⟩ := ih hu
      · exact ⟨_, hv, .inr ⟨hpending, rfl⟩⟩
      · simp [Timer.Pending] at hwas

theorem Chains.foldl_restartTimer_other (h : Chains tp) (hother : info ∉ order) {i : Nat}
    {t : Timer} (ht : tp.timers[i]? = some t) (hinfo : t.callback.info = info) :
    (order.foldl TimedPool.restartTimer tp).timers[i]? = some t := by
  induction order generalizing tp with
  | nil => exact ht
  | cons first order ih =>
    have hfirst : first ≠ info := fun hsame => hother (by simp [hsame])
    obtain ⟨hchains, -⟩ := @Chains.restartTimer (fun _ => False) tp first h (by simp)
      (by simp [AtMostOne]) (by simp)
    refine ih hchains (fun hmem => hother (List.mem_cons_of_mem _ hmem)) ?_
    unfold TimedPool.restartTimer
    split
    · exact ht
    · rename_i element hlookup
      have hpooled : first ∈ tp.pool.existMap := AList.lookup_isSome.mp (by simp [hlookup])
      obtain ⟨timer, htimer, hcallback⟩ := h.wired first hpooled
      have hplace : tp.timeout first ≠ i := by
        rintro rfl
        obtain rfl := Option.some.inj (htimer.symm.trans ht)
        exact hfirst (hcallback.symm.trans hinfo)
      refine getElem?_concat_some.mpr (.inl ?_)
      simp only [TimedPool.stopTimer, hpooled, if_true]
      exact getElem?_modify_some.mpr ⟨t, ht, if_neg hplace⟩

theorem length_restartTimer_le : tp.timers.length ≤ (tp.restartTimer info).timers.length := by
  unfold restartTimer stopTimer
  split
  · exact Nat.le_refl _
  · split <;> simp [startTimer]

theorem length_foldl_restartTimer_le :
    tp.timers.length ≤ (order.foldl restartTimer tp).timers.length := by
  induction order generalizing tp with
  | nil => exact Nat.le_refl _
  | cons first order ih => exact Nat.le_trans length_restartTimer_le ih

theorem Chains.foldl_restartTimer_new (h : Chains tp) (hdistinct : order.Nodup)
    (hmem : info ∈ order) (hpooled : info ∈ tp.pool.existMap) :
    ∃ i t, tp.timers.length ≤ i ∧ t.Pending ∧ t.callback.info = info ∧
      (order.foldl TimedPool.restartTimer tp).timers[i]? = some t := by
  induction order generalizing tp with
  | nil => simp at hmem
  | cons first order ih =>
    obtain ⟨hfirst, hdistinct⟩ := List.nodup_cons.mp hdistinct
    obtain ⟨hchains, -⟩ := @Chains.restartTimer (fun _ => False) tp first h (by simp)
      (by simp [AtMostOne]) (by simp)
    rcases List.mem_cons.mp hmem with rfl | hlater
    · obtain ⟨element, hlookup⟩ := Option.isSome_iff_exists.mp (AList.lookup_isSome.mpr hpooled)
      refine ⟨(tp.stopTimer info).timers.length, ⟨.onRequestTO element.request info, .pending⟩,
        ?_, rfl, rfl, hchains.foldl_restartTimer_other hfirst ?_ rfl⟩
      · exact Nat.le_of_eq (fades_stopTimer handedOn_live.stopped).length.symm
      · simp only [TimedPool.restartTimer, hlookup, TimedPool.startTimer]
        exact getElem?_concat_some.mpr (.inr ⟨rfl, rfl⟩)
    · obtain ⟨i, t, hplace, ht⟩ := ih hchains hdistinct hlater (by rwa [pool_restartTimer])
      exact ⟨i, t, Nat.le_trans length_restartTimer_le hplace, ht⟩

theorem Chains.not_oneTimer (h : Chains tp) (hmove : TimedMove cfg tp event tp')
    (hcrosses : tp.Crosses cfg event) : ¬ tp'.OneTimer := by
  obtain ⟨hstarted, t, hmem, hfired, hinfo⟩ := hcrosses
  obtain ⟨i, ht⟩ := List.mem_iff_getElem?.mp hmem
  obtain ⟨hlt, -⟩ := List.getElem?_eq_some_iff.mp ht
  have hnot : ¬ t.Pending := by simp [Timer.Pending, hfired]
  intro hone
  cases hmove with
  | @inserted call expires _ request hinserts hnew hpool =>
    simp only [starts, hinserts, Option.map_some, Option.toList_some, List.mem_singleton]
      at hinfo
    have hlive : Timer.Live ⟨.onRequestTO request (cfg.requestID request),
        submitted tp.pool.stopped expires⟩ := by
      have hstate : submitted tp.pool.stopped expires ≠ .stopped := of_decide_eq_false hstarted
      revert hstate
      cases tp.pool.stopped <;> cases expires <;> simp [submitted, Timer.Live]
    have heq := hone i tp.timers.length t _ (getElem?_concat_some.mpr (.inl ht))
      (getElem?_concat_some.mpr (.inr ⟨rfl, rfl⟩)) hinfo ((hpool _).mpr (.inl hinfo))
      (.inr hfired) hlive
    omega
  | restarted hperm hpool =>
    have hpooled : t.callback.info ∈ tp.pool.existMap := AList.mem_keys.mpr hinfo
    obtain ⟨j, u, hplace, hpending, hsame, hu⟩ := h.foldl_restartTimer_new
      (hperm.nodup_iff.mpr tp.pool.existMap.keys_nodup) (hperm.mem_iff.mpr hinfo) hpooled
    obtain ⟨v, hv, rfl | ⟨hwas, -⟩⟩ := foldl_restartTimer_getElem? ht
    · have heq := hone i j v u hv hu hsame.symm (by simpa [hpool] using hpooled)
        (.inr hfired) (.inl hpending)
      omega
    · exact hnot hwas
  | known hinserts => simp [starts, hinserts] at hinfo
  | _ => simp [starts] at hinfo

theorem Sound.oneTimer_iff {events : List TimedEvent} (h : Sound cfg tp)
    (hrun : run (TimedPool.step cfg) tp events = some tp') :
    (∀ earlier s, earlier <+: events → run (TimedPool.step cfg) tp earlier = some s →
      s.OneTimer) ↔
    StepsMeet (TimedPool.step cfg) (fun s event => ¬ s.Crosses cfg event) tp events := by
  induction events generalizing tp with
  | nil =>
    refine ⟨fun _ => trivial, fun _ earlier s hprefix hreached => ?_⟩
    obtain rfl := List.prefix_nil.mp hprefix
    obtain rfl := Option.some.inj hreached
    exact h.oneTimer
  | cons event events ih =>
    obtain ⟨mid, hstep, hrest⟩ := run_cons hrun
    have hmove := step_move h.consistent hstep
    constructor
    · intro hone
      have hcrosses : ¬ tp.Crosses cfg event := fun hcrosses =>
        h.chains.not_oneTimer hmove hcrosses
          (hone [event] mid ⟨events, rfl⟩ (run_one.trans hstep))
      refine ⟨hcrosses, fun s hs => ?_⟩
      obtain rfl := Option.some.inj (hstep.symm.trans hs)
      refine (ih (h.step hcrosses hstep) hrest).mp fun earlier s hprefix hreached => ?_
      exact hone (event :: earlier) s (List.cons_prefix_cons.mpr ⟨rfl, hprefix⟩)
        ((run_step hstep earlier).trans hreached)
    · rintro ⟨hcrosses, hlater⟩ earlier s hprefix hreached
      cases earlier with
      | nil =>
        obtain rfl := Option.some.inj hreached
        exact h.oneTimer
      | cons first earlier =>
        obtain ⟨rfl, hshorter⟩ := List.cons_prefix_cons.mp hprefix
        rw [run_step hstep] at hreached
        exact (ih (h.step hcrosses hstep) hrest).mpr (hlater mid hstep) earlier s hshorter
          hreached

/-! ## Calls of the handler -/

structure Ordered (cfg : PoolConfig) (tp : TimedPool) : Prop extends Sound cfg tp where
  due : ∀ stage, AtMostOne (Timer.Due stage) tp.timers

theorem ordered_newTimedPool (cfg : PoolConfig) (requestMaxBytes : Nat) :
    Ordered cfg (newTimedPool requestMaxBytes) :=
  ⟨sound_newTimedPool cfg requestMaxBytes, by simp [AtMostOne, newTimedPool]⟩

theorem calm_of_not_overlaps (h : ¬ tp.Overlaps cfg event) (stage : TimeoutStage) :
    tp.Calm cfg (Timer.Due stage) event := by
  intro _ t hmem hinfo hdue
  rcases hdue with ⟨hhandling, -⟩ | ⟨hpending | hfired, -⟩
  · exact absurd ⟨t, hmem, .inl ⟨.inr hhandling, hinfo⟩⟩ h
  · exact hpending
  · exact absurd ⟨t, hmem, .inl ⟨.inl hfired, hinfo⟩⟩ h

theorem Ordered.step (h : Ordered cfg tp) (hoverlaps : ¬ tp.Overlaps cfg event)
    (hstep : tp.step cfg event = some tp') : Ordered cfg tp' := by
  have hcrosses : ¬ tp.Crosses cfg event := by
    rintro ⟨-, t, hmem, hfired, hinfo⟩
    exact hoverlaps ⟨t, hmem, .inl ⟨.inl hfired, hinfo⟩⟩
  exact ⟨h.toSound.step hcrosses hstep, fun stage => atMostOne_step (handedOn_due stage) h.chains
    (h.due stage) (step_move h.consistent hstep) (calm_of_not_overlaps hoverlaps stage)⟩

theorem called_foldl_restartTimer : (order.foldl restartTimer tp).called = tp.called := by
  induction order generalizing tp with
  | nil => rfl
  | cons first order ih =>
    rw [List.foldl_cons, ih, restartTimer]
    split
    · rfl
    · simp [startTimer]

theorem called_step (hmove : TimedMove cfg tp event tp') :
    tp'.called = tp.called ∨ ∃ timer callback, tp.timers[timer]? = some ⟨callback, .handling⟩ ∧
      tp'.called = callback :: tp.called ∧ tp'.timers = (tp.setState timer .returned).timers := by
  cases hmove with
  | pool => exact .inl foldl_stopTimer_kept.2.2
  | restarted => exact .inl called_foldl_restartTimer
  | removed => exact .inl (by simp [setState])
  | handled htimer => exact .inr ⟨_, _, htimer, rfl, rfl⟩
  | _ => exact .inl rfl

structure Counted (cfg : PoolConfig) (info : RequestInfo) (stage : TimeoutStage) (count : Nat)
    (tp : TimedPool) : Prop extends Ordered cfg tp where
  counted : tp.calls info stage = count ∨
    tp.calls info stage = count + 1 ∧ Lapsed (Timer.Due stage) info tp.timers

theorem Counted.step {stage : TimeoutStage} {count : Nat} (h : Counted cfg info stage count tp)
    (hoverlaps : ¬ tp.Overlaps cfg event) (hstarts : info ∉ tp.starts cfg event)
    (hstep : tp.step cfg event = some tp') : Counted cfg info stage count tp' := by
  have hmove := step_move h.consistent hstep
  have hlapsed := fun hold : Lapsed (Timer.Due stage) info tp.timers =>
    lapsed_step (handedOn_due stage) hold hmove hstarts
  refine ⟨h.toOrdered.step hoverlaps hstep, ?_⟩
  rcases called_step hmove with hsame | ⟨timer, callback, htimer, hcalled, htimers⟩
  · rcases h.counted with hcount | ⟨hcount, hold⟩
    · exact .inl (by rw [calls, hsame]; exact hcount)
    · exact .inr ⟨by rw [calls, hsame]; exact hcount, hlapsed hold⟩
  · by_cases hmatch : callback.info = info ∧ callback.stage = stage
    · have hdue : Timer.Due stage ⟨callback, .handling⟩ := .inl ⟨rfl, hmatch.2⟩
      rcases h.counted with hcount | ⟨-, hold⟩
      · refine .inr ⟨?_, ?_⟩
        · simpa [calls, hcalled, hmatch] using hcount
        · rw [htimers, ← hmatch.1]
          exact (h.due stage).lapsed htimer hdue ((handedOn_due stage).returned _)
      · exact absurd hdue (hold _ (List.mem_of_getElem? htimer) hmatch.1)
    · have hsame : tp'.calls info stage = tp.calls info stage := by
        rw [calls, hcalled, List.countP_cons_of_neg (by simpa using hmatch), calls]
      rcases h.counted with hcount | ⟨hcount, hold⟩
      · exact .inl (hsame.trans hcount)
      · exact .inr ⟨hsame.trans hcount, hlapsed hold⟩

/-! ## Earlier chains -/

def Spent (p : Pool) (timer : Timer) : Prop :=
  ¬ timer.Pending ∧ timer.state ≠ .handling ∧
    (timer.state = .fired → timer.callback.info ∉ p.existMap)

structure Past (n : Nat) (tp : TimedPool) : Prop where
  length : n ≤ tp.timers.length
  spent : ∀ (i : Nat) (t : Timer), i < n → tp.timers[i]? = some t → Spent tp.pool t

namespace Past

variable {n : Nat}

theorem of_same (h : Past n tp) (hlength : tp.timers.length ≤ tp'.timers.length)
    (hsame : ∀ (i : Nat) (t : Timer), i < n → tp.timers[i]? = some t →
      tp'.timers[i]? = some t ∨ tp'.timers[i]? = some ⟨t.callback, .returned⟩)
    (hpool : ∀ t ∈ tp.timers, t.state = .fired → t.callback.info ∈ tp'.pool.existMap →
      t.callback.info ∈ tp.pool.existMap) : Past n tp' := by
  refine ⟨Nat.le_trans h.length hlength, fun i u hi hu => ?_⟩
  have hlt : i < tp.timers.length := Nat.lt_of_lt_of_le hi h.length
  have ht := List.getElem?_eq_getElem hlt
  obtain ⟨hpending, hhandling, hgone⟩ := h.spent i _ hi ht
  rcases hsame i _ hi ht with hsame | hsame <;> obtain rfl := Option.some.inj (hu.symm.trans hsame)
  · exact ⟨hpending, hhandling, fun hfired hmem =>
      hgone hfired (hpool _ (List.mem_of_getElem? ht) hfired hmem)⟩
  · exact ⟨by simp [Timer.Pending], by simp, by simp⟩

theorem ne_of_not_spent (h : Past n tp) {i timer : Nat} {t : Timer}
    (ht : tp.timers[timer]? = some t) (hspent : ¬ Spent tp.pool t) (hi : i < n) : timer ≠ i := by
  rintro rfl
  exact hspent (h.spent timer t hi ht)

theorem setState_of_ne {timer i : Nat} {state : TimerState} {t : Timer}
    (ht : tp.timers[i]? = some t) (hne : timer ≠ i) :
    (tp.setState timer state).timers[i]? = some t :=
  getElem?_modify_some.mpr ⟨t, ht, if_neg hne⟩

theorem step (h : Past n tp) (hmove : TimedMove cfg tp event tp')
    (hoverlaps : ¬ tp.Overlaps cfg event) : Past n tp' := by
  have hpending := fun (i : Nat) (t : Timer) (hi : i < n) ht => (h.spent i t hi ht).1
  cases hmove with
  | pool hsub hkept =>
    refine h.of_same (Nat.le_of_eq (fades_foldl_stopTimer handedOn_live.stopped).length.symm)
      (fun i t hi ht => .inl (foldl_stopTimer_getElem? ht (hpending i t hi ht))) ?_
    exact fun _ _ _ hmem => hsub _ hmem
  | known _ hpool =>
    exact h.of_same (Nat.le_refl _) (fun _ _ _ => .inl) (by simp [hpool])
  | @inserted call expires _ request hinserts hnew hpool =>
    refine h.of_same (by simp [startTimer])
      (fun i t _ ht => .inl (getElem?_concat_some.mpr (.inl ht))) ?_
    intro t hmem hfired hpooled
    refine ((hpool _).mp hpooled).resolve_left fun hsame => hoverlaps ?_
    exact ⟨t, hmem, .inl ⟨.inl hfired, by simp [starts, hinserts, hsame]⟩⟩
  | restarted hperm hpool =>
    refine h.of_same length_foldl_restartTimer_le ?_ (by simp [hpool])
    intro i t hi ht
    obtain ⟨u, hu, rfl | ⟨hwas, -⟩⟩ := foldl_restartTimer_getElem? ht
    · exact .inl hu
    · exact absurd hwas (hpending i t hi ht)
  | expired htimer =>
    refine h.of_same (by simp [setState]) (fun i t hi ht => .inl (setState_of_ne ht ?_))
      (fun _ _ _ => id)
    exact h.ne_of_not_spent htimer (by simp [Spent, Timer.Pending]) hi
  | passed htimer hnext hpooled hpool =>
    refine h.of_same (by simp [setState, startTimer])
      (fun i t hi ht => .inl (getElem?_concat_some.mpr (.inl (setState_of_ne ht ?_))))
      (by simp [hpool])
    exact h.ne_of_not_spent htimer (by simp [Spent, Timer.Pending, hpooled]) hi
  | removed htimer hpooled hpool =>
    refine h.of_same (by simp [setState, (fades_stopTimer handedOn_live.stopped).length])
      (fun i t hi ht => .inl (setState_of_ne
        (@foldl_stopTimer_getElem? tp [_] i t ht (hpending i t hi ht)) ?_))
      (fun _ _ _ hmem => ((hpool _).mp hmem).2)
    exact h.ne_of_not_spent htimer (by simpa [Spent, Timer.Pending, Callback.info]) hi
  | @ended timer callback _ htimer hpool =>
    refine h.of_same (by simp [setState]) (fun i t hi ht => ?_)
      (fun _ _ _ hmem => (hpool _).mp hmem)
    by_cases hne : timer = i
    · subst hne
      exact .inr (getElem?_modify_some.mpr ⟨t, ht, if_pos rfl⟩)
    · exact .inl (setState_of_ne ht hne)
  | handled htimer =>
    refine h.of_same (by simp [setState]) (fun i t hi ht => .inl (setState_of_ne ht ?_))
      (fun _ _ _ => id)
    exact h.ne_of_not_spent htimer (by simp [Spent]) hi

theorem of_restart (h : Ordered cfg tp) {order : List RequestInfo}
    (hoverlaps : ¬ tp.Overlaps cfg (.restartTimers order))
    (hstep : tp.step cfg (.restartTimers order) = some tp') : Past tp.timers.length tp' := by
  have hafter := h.step hoverlaps hstep
  have hmove := step_move h.consistent hstep
  cases hmove with
  | restarted hperm hpool =>
    refine ⟨length_foldl_restartTimer_le, fun i u hi hu => ?_⟩
    have ht := List.getElem?_eq_getElem hi
    have hmem := List.mem_of_getElem? ht
    obtain ⟨v, hv, hstopped⟩ := @foldl_restartTimer_getElem? tp order i _ ht
    obtain rfl := Option.some.inj (hu.symm.trans hv)
    have hpending : ¬ u.Pending := by
      intro hpending
      obtain ⟨hpooled, -⟩ := hafter.chains.tracked i u hu hpending
      rw [hpool] at hpooled
      obtain ⟨j, w, hplace, hnew, hsame, hw⟩ := h.chains.foldl_restartTimer_new
        (hperm.nodup_iff.mpr tp.pool.existMap.keys_nodup)
        (hperm.mem_iff.mpr (AList.mem_keys.mp hpooled)) hpooled
      have heq := hafter.live i j u w hu hw hsame.symm (.inl hpending) (.inl hnew)
      omega
    rcases hstopped with rfl | ⟨-, rfl⟩
    · refine ⟨hpending, fun hhandling => hoverlaps ⟨_, hmem, .inr ⟨hhandling, rfl⟩⟩,
        fun hfired hpooled => hoverlaps ⟨_, hmem, .inl ⟨.inl hfired, ?_⟩⟩⟩
      rw [hpool] at hpooled
      exact AList.mem_keys.mp hpooled
    · exact ⟨hpending, by simp, by simp⟩

theorem le_of_acts (h : Past n tp) {timer : Nat} (hacts : tp.Acts timer event) : n ≤ timer := by
  by_contra hlt
  have hspent := fun t ht => h.spent timer t (Nat.not_le.mp hlt) ht
  cases event with
  | callback other =>
    obtain ⟨-, t, ht, hfired, hpooled⟩ := hacts
    exact (hspent t ht).2.2 hfired hpooled
  | handler other =>
    obtain ⟨-, t, ht, hhandling⟩ := hacts
    exact (hspent t ht).2.1 hhandling
  | _ => exact hacts

end Past

structure Late (cfg : PoolConfig) (n : Nat) (tp : TimedPool) : Prop extends Ordered cfg tp where
  past : Past n tp

theorem Late.step {n : Nat} (h : Late cfg n tp) (hoverlaps : ¬ tp.Overlaps cfg event)
    (hstep : tp.step cfg event = some tp') : Late cfg n tp' :=
  ⟨h.toOrdered.step hoverlaps hstep, h.past.step (step_move h.consistent hstep) hoverlaps⟩

end TimedPool

/--
Along a run, no request in the pool ever has two live timers exactly if no timer is started
while a callback of the same request waits for the lock.  If moreover no chain is started while
a callback of the request is under way, then until the next start of a chain for it the handler
is called at most once for each stage, and after `RestartTimers` no callback of an earlier
timer does anything.
-/
theorem one_timeout_chain {cfg : PoolConfig} {requestMaxBytes : Nat} {events : List TimedEvent}
    {tp : TimedPool}
    (hrun : run (TimedPool.step cfg) (newTimedPool requestMaxBytes) events = some tp) :
    ((∀ earlier s, earlier <+: events →
        run (TimedPool.step cfg) (newTimedPool requestMaxBytes) earlier = some s → s.OneTimer) ↔
      StepsMeet (TimedPool.step cfg) (fun s event => ¬ s.Crosses cfg event)
        (newTimedPool requestMaxBytes) events) ∧
    (StepsMeet (TimedPool.step cfg) (fun s event => ¬ s.Overlaps cfg event)
        (newTimedPool requestMaxBytes) events →
      ∀ earlier part s t, earlier ++ part <+: events →
        run (TimedPool.step cfg) (newTimedPool requestMaxBytes) earlier = some s →
        run (TimedPool.step cfg) s part = some t →
        (∀ info stage,
          StepsMeet (TimedPool.step cfg) (fun u event => info ∉ u.starts cfg event) s part →
          t.calls info stage ≤ s.calls info stage + 1) ∧
        ∀ order rest, part = .restartTimers order :: rest →
          ∀ timer event, t.Acts timer event → s.timers.length ≤ timer) := by
  refine ⟨(TimedPool.sound_newTimedPool cfg requestMaxBytes).oneTimer_iff hrun, ?_⟩
  rintro hmeets earlier part s t ⟨later, rfl⟩ hearlier hpart
  obtain ⟨hbefore, hafter⟩ := hmeets.of_append.1.of_append
  have hs : s.Ordered cfg := run_invariant_of_steps_meet (fun _ _ _ h => h.step)
    (TimedPool.ordered_newTimedPool cfg requestMaxBytes) hbefore hearlier
  have hmeets' := hafter s hearlier
  constructor
  · intro info stage hstarts
    have hcounted : t.Counted cfg info stage (s.calls info stage) :=
      run_invariant_of_steps_meet (fun _ _ _ h hmet => h.step hmet.1 hmet.2) ⟨hs, .inl rfl⟩
        (hmeets'.and hstarts) hpart
    rcases hcounted.counted with hcount | ⟨hcount, -⟩ <;> omega
  · rintro order rest rfl timer event hacts
    obtain ⟨mid, hstep, hrest⟩ := run_cons hpart
    have hpast : t.Late cfg s.timers.length :=
      run_invariant_of_steps_meet (fun _ _ _ h => h.step)
        ⟨hs.step hmeets'.1 hstep, .of_restart hs hmeets'.1 hstep⟩ (hmeets'.2 mid hstep) hrest
    exact hpast.past.le_of_acts hacts

def submitOne : List TimedEvent :=
  [.pool (.submit [1]), .pool (.check 0), .pool (.acquire 0), .insert 0 false]

def firstInfo : RequestInfo := ⟨"1", "1"⟩

theorem one_timeout_chain_forwarded :
    ∃ tp, run (TimedPool.step bytePool) (newTimedPool 0) (submitOne ++
        [.expire 0, .callback 0, .handler 0, .pool .stopTimers, .restartTimers [firstInfo]]) =
          some tp ∧ tp.calls firstInfo .forward = 1 ∧
      (∀ earlier s, earlier <+: submitOne ++
          [.expire 0, .callback 0, .handler 0, .pool .stopTimers, .restartTimers [firstInfo]] →
        run (TimedPool.step bytePool) (newTimedPool 0) earlier = some s → s.OneTimer) ∧
      ∀ timer event, tp.Acts timer event → 2 ≤ timer := by
  have hreached : (run (TimedPool.step bytePool) (newTimedPool 0) (submitOne ++
      [.expire 0, .callback 0, .handler 0, .pool .stopTimers])).any (fun s =>
        decide (s.timers.length = 2 ∧ (run (TimedPool.step bytePool) s
          [.restartTimers [firstInfo]]).any (fun tp =>
            decide (tp.calls firstInfo .forward = 1)) = true)) = true := by
    decide +kernel
  obtain ⟨s, hs, hlength, hlast⟩ := exists_of_any hreached
  obtain ⟨tp, htp, hcalls⟩ := exists_of_any hlast
  have hrun := run_append hs htp
  obtain ⟨hone, hordered⟩ := one_timeout_chain hrun
  refine ⟨tp, hrun, hcalls, hone.mpr (by decide +kernel), ?_⟩
  have hacts := (hordered (by decide +kernel) _ _ s tp (List.prefix_refl _) hs htp).2 _ _ rfl
  rwa [hlength] at hacts

/-- The callback has fired when the timers are stopped and restarted.  It then forwards the
request and starts a timer to complain about the leader, and the new chain does the same. -/
theorem late_callback_forwards_twice :
    ∃ s tp, run (TimedPool.step bytePool) (newTimedPool 0)
        (submitOne ++ [.expire 0, .pool .stopTimers, .restartTimers [firstInfo]]) = some s ∧
      run (TimedPool.step bytePool) s
        [.callback 0, .handler 0, .expire 1, .callback 1, .handler 1] = some tp ∧
      s.calls firstInfo .forward = 0 ∧ tp.calls firstInfo .forward = 2 ∧ ¬ tp.OneTimer := by
  refine ⟨_, _, Option.eq_some_of_isSome (by decide +kernel),
    Option.eq_some_of_isSome (by decide +kernel), by decide +kernel, by decide +kernel,
    fun hone => ?_⟩
  have heq := hone 2 3 ⟨.onLeaderFwdRequestTO [1] firstInfo, .pending⟩
    ⟨.onLeaderFwdRequestTO [1] firstInfo, .pending⟩ (by decide +kernel) (by decide +kernel) rfl
    (by decide +kernel) (.inl rfl) (.inl rfl)
  omega

end SmartBFT
