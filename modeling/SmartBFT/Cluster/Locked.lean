import SmartBFT.Cluster
import SmartBFT.Foundation.Views
import SmartBFT.Node.Coverage
import SmartBFT.Node.Opening

/-!
# Locked proposals

A proposal is locked when a quorum of nodes, up to the faulty ones, has saved a commit for
it.  A view is certified by the view data of a quorum on which `CheckInFlight` has answered.

The nodes that have locked a proposal account for it in their view data, so the views that
are certified later respect it (`NewViewCertificate.carried`): the histories of the correct
nodes form `LockedViews`, in which one proposal is locked for each sequence.
-/

namespace SmartBFT

open SmartBFT.Foundation

def Node.committed (nd : Node) (digest : String) : Bool :=
  nd.trace.any fun
    | .save (.commit commit) => decide (commit.digest = digest)
    | _ => false

namespace Node

variable {nd nd' : Node} {digest : String}

theorem committed_iff : nd.committed digest = true ↔
    ∃ commit, .save (.commit commit) ∈ nd.trace ∧ commit.digest = digest := by
  simp only [committed, List.any_eq_true]
  constructor
  · rintro ⟨action, hmem, haction⟩
    split at haction
    · exact ⟨_, hmem, of_decide_eq_true haction⟩
    · simp at haction
  · rintro ⟨commit, hmem, hdigest⟩
    exact ⟨_, hmem, decide_eq_true hdigest⟩

theorem committed_mono (h : nd.committed digest = true) (hsub : nd.trace ⊆ nd'.trace) :
    nd'.committed digest = true := by
  obtain ⟨commit, hmem, hdigest⟩ := committed_iff.mp h
  exact committed_iff.mpr ⟨commit, hsub hmem, hdigest⟩

end Node

namespace Cluster

variable (c : Cluster)

def locked (s : ClusterState) (digest : String) : Bool :=
  decide (c.quorum ≤
    (c.nodes.filter fun j => decide (j ∈ c.faulty) || (s j).committed digest).length)

def LockedAt (s : ClusterState) (view seq : Nat) (p : Proposal) : Prop :=
  c.locked s (c.digest p) = true ∧
    ∃ md, p.unmarshalMetadata = some md ∧ md.viewId = view ∧ md.latestSequence = seq

def Voted (s : ClusterState) (i view seq : Nat) : Prop :=
  c.correct i = true ∧ ∃ pp prepare, .save (.proposedRecord pp prepare) ∈ (s i).trace ∧
    pp.view = view ∧ pp.seq = seq

structure NewViewCertificate (s : ClusterState) (view start : Nat)
    (entries : List (Nat × ViewData)) : Prop where
  distinct : (entries.map Prod.fst).Nodup
  members : ∀ entry ∈ entries, entry.1 ∈ c.nodes
  quorum : c.quorum ≤ entries.length
  reported : ∀ entry ∈ entries, c.correct entry.1 = true →
    ∃ purpose, .viewData purpose entry.2 ∈ (s entry.1).trace
  nextView : ∀ entry ∈ entries, entry.2.nextView = view
  lastDecision : ∀ entry ∈ entries, ∃ lastDecision md,
    entry.2.lastDecision = some lastDecision ∧ lastDecision.unmarshalMetadata = some md ∧
      md.latestSequence ≤ start ∧
      validateInFlight entry.2.inFlightProposal md.latestSequence = .ok ()
  checked : ∃ result, checkInFlight (entries.map Prod.snd) c.f c.quorum = .ok result ∧
    result.ok = true ∧ (result.noInFlight = true ∨ ∃ p, result.inFlightProposal = some p ∧
      Decision.sequence { proposal := p } ≤ start)

def Certified (s : ClusterState) (view start : Nat) : Prop :=
  ∃ entries, c.NewViewCertificate s view start entries

def Runs (s : ClusterState) (view seq : Nat) : Prop :=
  view = 0 ∨ ∃ start < seq, c.Certified s view start ∨ ∃ p, c.LockedAt s view start p

variable {c} {s s' : ClusterState} {view seq : Nat} {digest : String} {p : Proposal}

theorem Runs.mono (h : c.Runs s view seq) {later : Nat} (hle : seq ≤ later) :
    c.Runs s view later := by
  rcases h with hfirst | ⟨start, hstart, hopened⟩
  · exact .inl hfirst
  · exact .inr ⟨start, Nat.lt_of_lt_of_le hstart hle, hopened⟩

/-! ## The voters of a locked proposal -/

theorem locked_of_signers {signers : List Nat} (hdistinct : signers.Nodup)
    (hquorum : c.quorum ≤ signers.length)
    (hsigners : ∀ j ∈ signers, j ∈ c.nodes ∧
      (c.correct j = true → (s j).committed digest = true)) : c.locked s digest = true := by
  refine decide_eq_true (Nat.le_trans hquorum (hdistinct.subperm fun j hj => ?_).length_le)
  obtain ⟨hnode, hcommitted⟩ := hsigners j hj
  refine List.mem_filter.mpr ⟨hnode, ?_⟩
  by_cases hfaulty : j ∈ c.faulty
  · simp [hfaulty]
  · simp [hcommitted (correct_iff.mpr ⟨hnode, hfaulty⟩)]

theorem locked_voters (h : c.locked s digest = true) :
    ∃ voters ⊆ c.nodes.toFinset, c.quorum ≤ voters.card ∧
      ∀ j ∈ voters, c.correct j = true → (s j).committed digest = true := by
  refine ⟨(c.nodes.filter fun j =>
    decide (j ∈ c.faulty) || (s j).committed digest).toFinset, ?_, ?_, ?_⟩
  · exact fun j hj => List.mem_toFinset.mpr (List.mem_of_mem_filter (List.mem_toFinset.mp hj))
  · rw [List.toFinset_card_of_nodup (c.distinct.filter _)]
    exact of_decide_eq_true h
  · intro j hj hcorrect
    have hvoter := (List.mem_filter.mp (List.mem_toFinset.mp hj)).2
    simpa [(correct_iff.mp hcorrect).2] using hvoter

theorem locked_mono (h : c.locked s digest = true) (hgrown : ∀ j, (s j).trace ⊆ (s' j).trace) :
    c.locked s' digest = true := by
  refine decide_eq_true (Nat.le_trans (of_decide_eq_true h)
    (List.Sublist.length_le (List.monotone_filter_right _ fun j hj => ?_)))
  rcases Bool.or_eq_true_iff.mp hj with hfaulty | hcommitted
  · simp [hfaulty]
  · simp [Node.committed_mono hcommitted (hgrown j)]

/-! ## The histories of the correct nodes -/

structure HistoriesKept (c : Cluster) (s : ClusterState) : Prop where
  digest : Function.Injective c.digest
  votes : ∀ i, c.correct i = true → RecordHistory (c.config i) (fun _ => True) (s i).trace
  coverage : ∀ i, c.correct i = true → CoverageInvariant (c.config i) (s i)
  opening : ∀ i, c.correct i = true → OpeningInvariant (c.Runs s) (s i)

namespace HistoriesKept

variable (h : HistoriesKept c s)

include h

theorem commit_of_locked {i : Nat} (hi : c.correct i = true)
    (hcommitted : (s i).committed (c.digest p) = true) {md : ViewMetadata}
    (hmd : p.unmarshalMetadata = some md) :
    ∃ commit, .save (.commit commit) ∈ (s i).trace ∧ commit.digest = c.digest p ∧
      commit.view = md.viewId ∧ commit.seq = md.latestSequence := by
  obtain ⟨commit, hmem, hdigest⟩ := Node.committed_iff.mp hcommitted
  have hinjective : Function.Injective (c.config i).digest := c.digests i ▸ h.digest
  have hsame : (c.config i).digest p = commit.digest := by rw [c.digests i, hdigest]
  obtain ⟨other, hother, hview, hseq⟩ := (h.votes i hi).metadata hinjective hmem hsame
  obtain rfl := Option.some.inj (hmd.symm.trans hother)
  exact ⟨commit, hmem, hdigest, hview.symm, hseq.symm⟩

theorem locked_unique {p' : Proposal} (hlocked : c.LockedAt s view seq p)
    (hlocked' : c.LockedAt s view seq p') : p = p' := by
  obtain ⟨hp, md, hmd, rfl, rfl⟩ := hlocked
  obtain ⟨hp', md', hmd', hview, hseq⟩ := hlocked'
  obtain ⟨a, ha, hacard, havotes⟩ := locked_voters hp
  obtain ⟨b, hb, hbcard, hbvotes⟩ := locked_voters hp'
  obtain ⟨k, hka, hkb, hk⟩ := exists_correct ha hb hacard hbcard
  obtain ⟨commit, hmem, hdigest, hv, hs⟩ := h.commit_of_locked hk (havotes k hka hk) hmd
  obtain ⟨commit', hmem', hdigest', hv', hs'⟩ := h.commit_of_locked hk (hbvotes k hkb hk) hmd'
  apply h.digest
  rw [← hdigest, ← hdigest']
  exact (h.votes k hk).commit_unique hmem hmem' trivial (by omega) (by omega)

theorem voted_of_locked (hlocked : c.LockedAt s view seq p) : ∃ i, c.Voted s i view seq := by
  obtain ⟨hp, md, hmd, rfl, rfl⟩ := hlocked
  obtain ⟨a, ha, hacard, havotes⟩ := locked_voters hp
  obtain ⟨k, hka, -, hk⟩ := exists_correct ha ha hacard hacard
  obtain ⟨commit, hmem, -, hview, hseq⟩ := h.commit_of_locked hk (havotes k hka hk) hmd
  obtain ⟨pp, prepare, -, hrecord, -, hppView, hppSeq, -⟩ := (h.votes k hk).proposal hmem
  exact ⟨k, hk, pp, prepare, hrecord, hppView.trans hview, hppSeq.trans hseq⟩

theorem runs_of_voted {i : Nat} (hvoted : c.Voted s i view seq) : c.Runs s view seq := by
  obtain ⟨hi, pp, prepare, hmem, rfl, rfl⟩ := hvoted
  exact (h.opening i hi).opened _ hmem pp.view pp.seq rfl

theorem reports {earlier start : Nat} {entries : List (Nat × ViewData)}
    (hcertificate : c.NewViewCertificate s view start entries) (hearlier : earlier < view)
    {md : ViewMetadata} (hmd : p.unmarshalMetadata = some md) (hview : md.viewId = earlier)
    (hahead : start < md.latestSequence)
    (hbetween : ∀ voter between later, earlier < between → between < view →
      c.Voted s voter between later → md.latestSequence < later)
    {entry : Nat × ViewData} (hentry : entry ∈ entries) (hcorrect : c.correct entry.1 = true)
    (hcommitted : (s entry.1).committed (c.digest p) = true) :
    entry.2.inFlightProposal = some p ∧ entry.2.inFlightPrepared = true := by
  obtain ⟨commit, hmem, hdigest, hcommitView, hseq⟩ :=
    h.commit_of_locked hcorrect hcommitted hmd
  obtain ⟨purpose, hbuilt⟩ := hcertificate.reported entry hentry hcorrect
  have hnext := hcertificate.nextView entry hentry
  cases (h.coverage entry.1 hcorrect).reported purpose entry.2 commit hbuilt hmem (by omega) with
  | decided hlast hlastMD hle =>
    obtain ⟨lastDecision, last, hlast', hlastMD', hbound, -⟩ :=
      hcertificate.lastDecision entry hentry
    obtain rfl := Option.some.inj (hlast.symm.trans hlast')
    obtain rfl := Option.some.inj (hlastMD.symm.trans hlastMD')
    omega
  | @held other hother hprepared hsame =>
    rw [c.digests entry.1] at hsame
    obtain rfl : other = p := h.digest (hsame.trans hdigest)
    exact ⟨hother, hprepared⟩
  | @superseded pp prepare hrecord hlater hbefore hle =>
    have := hbetween entry.1 pp.view pp.seq (by omega) (by omega)
      ⟨hcorrect, pp, prepare, hrecord, rfl, rfl⟩
    omega

theorem carried {earlier start : Nat} {entries : List (Nat × ViewData)}
    (hcertificate : c.NewViewCertificate s view start entries) (hearlier : earlier < view)
    (hlocked : c.LockedAt s earlier seq p)
    (hbetween : ∀ voter between later, earlier < between → between < view →
      c.Voted s voter between later → seq < later) : seq ≤ start := by
  by_contra hahead
  obtain ⟨hp, md, hmd, hview, rfl⟩ := hlocked
  obtain ⟨voters, hvoters, hcard, hcommitted⟩ := locked_voters hp
  -- the correct nodes that have locked the proposal
  have hmany : c.quorum - c.f ≤ (voters \ c.faulty).card := by
    have hfew := Finset.le_card_sdiff c.faulty voters
    have := c.few
    simp only [f]
    omega
  have hreport : ∀ entry ∈ entries, entry.1 ∈ voters \ c.faulty →
      entry.2.inFlightProposal = some p ∧ entry.2.inFlightPrepared = true := by
    intro entry hentry hvoter
    obtain ⟨hvoter, hfaulty⟩ := Finset.mem_sdiff.mp hvoter
    have hcorrect := correct_iff.mpr ⟨hcertificate.members entry hentry, hfaulty⟩
    exact h.reports hcertificate hearlier hmd hview (by omega) hbetween hentry hcorrect
      (hcommitted _ hvoter hcorrect)
  -- one of them is in the quorum, so its last decision is the one before the proposal
  have hsigners : (entries.map Prod.fst).toFinset ⊆ c.nodes.toFinset := by
    intro j hj
    obtain ⟨entry, hentry, rfl⟩ := List.mem_map.mp (List.mem_toFinset.mp hj)
    exact List.mem_toFinset.mpr (hcertificate.members entry hentry)
  have hentries : c.quorum ≤ (entries.map Prod.fst).toFinset.card := by
    rw [List.toFinset_card_of_nodup hcertificate.distinct, List.length_map]
    exact hcertificate.quorum
  obtain ⟨i, hi, hvoter, hcorrect⟩ := exists_correct hsigners hvoters hentries hcard
  obtain ⟨entry, hentry, rfl⟩ := List.mem_map.mp (List.mem_toFinset.mp hi)
  obtain ⟨hinFlight, -⟩ := hreport entry hentry
    (Finset.mem_sdiff.mpr ⟨hvoter, (correct_iff.mp hcorrect).2⟩)
  obtain ⟨lastDecision, last, hlast, hlastMD, hbound, hfollows⟩ :=
    hcertificate.lastDecision entry hentry
  obtain ⟨other, hother, hnext⟩ := validateInFlight_ok hfollows p hinFlight
  obtain rfl := Option.some.inj (hmd.symm.trans hother.unmarshal)
  obtain ⟨latest, hlatest, hmax, hall⟩ := @maxLastDecisionSequence_bounded
    (entries.map Prod.snd) start (by
      intro vd hvd
      obtain ⟨other, hother, rfl⟩ := List.mem_map.mp hvd
      obtain ⟨decision, decisionMD, hdecision, hdecisionMD, hle, -⟩ :=
        hcertificate.lastDecision other hother
      exact ⟨decision, decisionMD, hdecision, hdecisionMD, hle⟩)
  have hreached := hall entry.2 (List.mem_map_of_mem hentry) lastDecision last hlast hlastMD
  -- the proposal is ahead of every entry, so this entry has the highest last decision
  obtain rfl : last.latestSequence = latest := by
    have := nextSequence_le last.latestSequence
    omega
  obtain ⟨result, hresult, hok, hanswer⟩ := hcertificate.checked
  rcases checkInFlight_prepared c.nodes.toFinset (voters \ c.faulty) entries p rfl c.card_nodes
    hcertificate.distinct
    (fun entry hentry => List.mem_toFinset.mpr (hcertificate.members entry hentry)) hmax hother
    hnext (Finset.sdiff_subset.trans hvoters) hmany hreport hresult with rfl | rfl
  · rcases hanswer with hnone | ⟨p', hp', hle⟩
    · simp at hnone
    · obtain rfl := Option.some.inj hp'
      rw [Node.sequence_of_metadata hmd] at hle
      omega
  · simp at hok

def lockedViews : LockedViews Nat Proposal where
  voted := c.Voted s
  locked := c.LockedAt s
  opened := c.Certified s
  unique := h.locked_unique
  voted_of_locked := h.voted_of_locked
  opening hvoted := h.runs_of_voted hvoted
  carried hcertified hearlier hlocked hbetween := by
    obtain ⟨entries, hcertificate⟩ := hcertified
    exact h.carried hcertificate hearlier hlocked hbetween

end HistoriesKept

end Cluster

end SmartBFT
