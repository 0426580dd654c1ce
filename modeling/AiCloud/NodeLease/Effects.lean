import AiCloud.NodeLease.Reachable

/-!
# Effect checkpoints of mutations

Four guards in four operations keep a mutation from running twice: reclaim needs a
retry-safe row without a commit, release needs a row without a started effect, requeue
refuses mutations, and a second effect start needs an empty column. Together they keep
started and committed effects on the newest attempt. A terminal row is the outcome of
its newest attempt, which carries the evidence.
-/
namespace AiCloud.NodeLease

open Lib Execution Identity List Option

/-- The columns of an attempt that no later operation takes back. -/
structure Evolves (a a' : AttemptRow) : Prop where
  key : a'.key = a.key
  attemptID : a'.attemptID = a.attemptID
  attemptNumber : a'.attemptNumber = a.attemptNumber
  leaseFence : a'.leaseFence = a.leaseFence
  started : a.effectStartedAt ≠ none → a'.effectStartedAt = a.effectStartedAt
  committed : a.effectCommittedAt ≠ none → a'.effectCommittedAt = a.effectCommittedAt
  closed : ¬ a.status.isOpen → a' = a

theorem Evolves.refl (a : AttemptRow) : Evolves a a :=
  ⟨rfl, rfl, rfl, rfl, fun _ => rfl, fun _ => rfl, fun _ => rfl⟩

variable {c : Cell} {base fence : Int} {c' : Cell}

theorem step_attempts {e : Event} (h : Coupled base fence c) (hs : CellStep e c c') :
    ∃ kept extra, c'.attempts = kept ++ extra ∧ Forall₂ Evolves c.attempts kept ∧
      (extra = [] ∨ ∃ now lease, e = .claim now lease ∧ extra = [newAttempt c.row lease now]) := by
  have hrefl : ∀ l : List AttemptRow, Forall₂ Evolves l l := fun l =>
    forall₂_same.mpr (fun a _ => Evolves.refl a)
  have hlast : ∀ (past : List AttemptRow) (cur cur' : AttemptRow), Evolves cur cur' →
      Forall₂ Evolves (past ++ [cur]) (past ++ [cur']) := fun past cur cur' he =>
    rel_append (hrefl past) (Forall₂.cons he Forall₂.nil)
  cases hs with
  | claimReady hready hl => exact ⟨_, _, rfl, hrefl _, .inr ⟨_, _, rfl, rfl⟩⟩
  | reclaim hrun hexp hretry hcom hopen hl =>
    exact ⟨_, _, rfl, hlast _ _ _ ⟨rfl, rfl, rfl, rfl, fun _ => rfl, fun _ => rfl,
      absurd hopen⟩, .inr ⟨_, _, rfl, rfl⟩⟩
  | renew hown => exact ⟨_, [], (append_nil _).symm, hrefl _, .inl rfl⟩
  | startAttempt hown hid hst hb =>
    exact ⟨_, [], (append_nil _).symm, hlast _ _ _ ⟨rfl, rfl, rfl, rfl, fun _ => rfl,
      fun _ => rfl, fun hc => absurd (.inl hst) hc⟩, .inl rfl⟩
  | @markEffectStarted row past cur now lease hown hid hst hnone =>
    have hcur : cur.effectStartedAt = none := h.started.symm.trans hnone
    exact ⟨_, [], (append_nil _).symm, hlast _ _ _ ⟨rfl, rfl, rfl, rfl,
      absurd hcur, fun _ => rfl, fun hc => absurd (.inr hst) hc⟩, .inl rfl⟩
  | @markEffectCommitted row past cur now lease hown hid hst hse hnone =>
    have hcur : cur.effectCommittedAt = none := h.committed.symm.trans hnone
    exact ⟨_, [], (append_nil _).symm, hlast _ _ _ ⟨rfl, rfl, rfl, rfl, fun _ => rfl,
      absurd hcur, fun hc => absurd (.inr hst) hc⟩, .inl rfl⟩
  | releaseBeforeEffect hown hopen hnone =>
    exact ⟨_, [], (append_nil _).symm, hlast _ _ _ ⟨rfl, rfl, rfl, rfl, fun _ => rfl,
      fun _ => rfl, absurd hopen⟩, .inl rfl⟩
  | complete hown hid hst hv hmut =>
    refine ⟨_, [], (append_nil _).symm, hlast _ _ _ ⟨rfl, rfl, rfl, rfl, fun _ => rfl,
      fun _ => rfl, absurd ?_⟩, .inl rfl⟩
    exact hst.elim .inr (fun hp => .inl hp.2)
  | requeueFailed hfailed hretry hmut =>
    exact ⟨_, [], (append_nil _).symm, hrefl _, .inl rfl⟩

variable {a : AttemptRow}

theorem Evolves.trans {b c : AttemptRow} (h : Evolves a b) (h' : Evolves b c) : Evolves a c := by
  refine ⟨h'.key.trans h.key, h'.attemptID.trans h.attemptID,
    h'.attemptNumber.trans h.attemptNumber, h'.leaseFence.trans h.leaseFence, ?_, ?_, ?_⟩
  · intro hne
    have hb := h.started hne
    exact (h'.started (by rw [hb]; exact hne)).trans hb
  · intro hne
    have hb := h.committed hne
    exact (h'.committed (by rw [hb]; exact hne)).trans hb
  · intro hcl
    have hb := h.closed hcl
    exact (h'.closed (by rw [hb]; exact hcl)).trans hb

structure EffectGuard (c : Cell) : Prop where
  ordered : c.row.effectCommittedAt ≠ none → c.row.effectStartedAt ≠ none
  ready : isMutation c.row.effectClass → c.row.state = .ready → c.row.effectStartedAt = none
  past : isMutation c.row.effectClass → ∀ a ∈ c.past,
    a.effectCommittedAt = none ∧ (c.row.retrySafe = false → a.effectStartedAt = none)

theorem effectGuard_init (k : NodeKey) (record : NodeRuntimeRecord) (now : Time) :
    EffectGuard (initCell k record now) :=
  ⟨absurd rfl, fun _ _ => rfl, fun _ _ ha => absurd ha not_mem_nil⟩

theorem EffectGuard.step {e : Event} (hc : Coupled base fence c)
    (h : EffectGuard c) (hs : CellStep e c c') : EffectGuard c' := by
  cases hs with
  | @claimReady row past last now lease leaseDuration hready hl =>
    refine ⟨absurd rfl, fun _ hst => (by cases hst), ?_⟩
    intro hm a ha
    rcases mem_append.mp ha with hp | hlast
    · exact h.past hm a hp
    have hla : last = some a := mem_toList.mp hlast
    subst hla
    have hstart : row.effectStartedAt = none := h.ready hm hready
    have hcom : row.effectCommittedAt = none := by
      by_contra hne
      exact h.ordered hne hstart
    exact ⟨hc.committed.symm.trans hcom, fun _ => hc.started.symm.trans hstart⟩
  | @reclaim row past cur now lease leaseDuration hrun hexp hretry hcom hopen hl =>
    refine ⟨absurd rfl, fun _ hst => (by cases hst), ?_⟩
    intro hm a ha
    rcases mem_append.mp ha with hp | hlast
    · exact h.past hm a hp
    rw [mem_singleton.mp hlast]
    refine ⟨hc.committed.symm.trans hcom, fun hsafe => ?_⟩
    have hsafe : row.retrySafe = false := hsafe
    rw [hretry] at hsafe
    cases hsafe
  | renew hown => exact ⟨h.ordered, h.ready, h.past⟩
  | startAttempt hown hid hst hb => exact ⟨h.ordered, h.ready, h.past⟩
  | markEffectStarted hown hid hst hnone =>
    refine ⟨fun _ => by simp, fun _ hready => ?_, h.past⟩
    rw [hown.1] at hready
    cases hready
  | markEffectCommitted hown hid hst hse hnone => exact ⟨fun _ => hse, h.ready, h.past⟩
  | releaseBeforeEffect hown hopen hnone => exact ⟨h.ordered, fun _ _ => hnone, h.past⟩
  | complete hown hid hst hv hmut =>
    refine ⟨h.ordered, fun _ hready => absurd hready (completion_state hv).1, h.past⟩
  | requeueFailed hfailed hretry hmut =>
    exact ⟨h.ordered, fun hm _ => absurd hm hmut, h.past⟩

variable {record : NodeRuntimeRecord} {k : NodeKey} {calls : List Call} {db : Db} {e : Event}

theorem Present.effectGuard (h : Present calls db k record c) : EffectGuard c :=
  h.invariant (effectGuard_init k record) (fun _ _ _ hc hi => hi.step hc)

theorem Present.registered_columns (h : Present calls db k record c) :
    c.row.effectClass = record.effectClass ∧ c.row.retrySafe = record.retrySafe := by
  refine h.invariant (I := fun x => x.row.effectClass = record.effectClass ∧
    x.row.retrySafe = record.retrySafe) (fun _ => ⟨rfl, rfl⟩) ?_
  rintro e x x' _ ⟨he, hr⟩ hs
  obtain ⟨_, he', hr'⟩ := step_registered hs
  exact ⟨he'.trans he, hr'.trans hr⟩

/-- On a mutation that is not retry-safe only the newest attempt can have
started its effect. -/
theorem EffectGuard.started_last (h : EffectGuard c) (hm : isMutation c.row.effectClass)
    (hsafe : c.row.retrySafe = false) (ha : a ∈ c.attempts) (hne : a.effectStartedAt ≠ none) :
    c.last = some a := by
  rcases mem_append.mp ha with hp | hlast
  · exact absurd ((h.past hm a hp).2 hsafe) hne
  · exact mem_toList.mp hlast

/-- The row of a mutation carries a committed effect. -/
def Sealed (c : Cell) : Prop := isMutation c.row.effectClass ∧ c.row.effectCommittedAt ≠ none

theorem sealed_of_committed (hc : Coupled base fence c) (h : EffectGuard c)
    (hm : isMutation c.row.effectClass) (ha : a ∈ c.attempts) (hne : a.effectCommittedAt ≠ none) :
    Sealed c := by
  refine ⟨hm, ?_⟩
  rcases mem_append.mp ha with hp | hlast
  · exact absurd (h.past hm a hp).1 hne
  rw [hc.committed, mem_toList.mp hlast]
  exact hne

theorem Sealed.step (hg : EffectGuard c) (h : Sealed c) (hs : CellStep e c c') :
    Sealed c' ∧ c'.attempts.map AttemptRow.attemptID = c.attempts.map AttemptRow.attemptID := by
  obtain ⟨hm, hne⟩ := h
  cases hs with
  | claimReady hready hl => exact absurd (hg.ready hm hready) (hg.ordered hne)
  | reclaim hrun hexp hretry hcom hopen hl => exact absurd hcom hne
  | renew hown => exact ⟨⟨hm, hne⟩, rfl⟩
  | startAttempt hown hid hst hb =>
    exact ⟨⟨hm, hne⟩, by simp [Cell.attempts, AttemptRow.start]⟩
  | markEffectStarted hown hid hst hnone => exact ⟨⟨hm, hne⟩, by simp [Cell.attempts]⟩
  | markEffectCommitted hown hid hst hse hnone => exact absurd hnone hne
  | releaseBeforeEffect hown hopen hnone =>
    exact ⟨⟨hm, hne⟩, by simp [Cell.attempts, AttemptRow.abandon]⟩
  | complete hown hid hst hv hmut =>
    exact ⟨⟨hm, hne⟩, by simp [Cell.attempts, AttemptRow.complete]⟩
  | requeueFailed hfailed hretry hmut => exact absurd hm hmut

/-- Once an attempt of a mutation has committed its effect, no call ever adds
another attempt to that node. -/
theorem committed_effect_final (pre post : List Call) (k : NodeKey) (record : NodeRuntimeRecord)
    (hr : Registered pre k record) (hm : isMutation record.effectClass) (a : AttemptRow)
    (ha : a ∈ (after pre).attemptsOf k) (hc : a.effectCommittedAt ≠ none) :
    ((after (pre ++ post)).attemptsOf k).map AttemptRow.attemptID =
      ((after pre).attemptsOf k).map AttemptRow.attemptID := by
  obtain ⟨c, hpres⟩ := present_of_registered hr
  have hattempts := (cellOf_some hpres.cell).2
  rw [hattempts] at ha
  have hsealed : Sealed c := sealed_of_committed hpres.coupled hpres.effectGuard
    (hpres.registered_columns.1 ▸ hm) ha hc
  have hrun : ∃ c', Present (pre ++ post) (after (pre ++ post)) k record c' ∧ Sealed c' ∧
      c'.attempts.map AttemptRow.attemptID = c.attempts.map AttemptRow.attemptID := by
    induction post using reverseRecOn with
    | nil => exact ⟨c, by simpa using hpres, hsealed, rfl⟩
    | append_singleton post d ih =>
      obtain ⟨c', hpres', hsealed', hids⟩ := ih
      rw [← append_assoc]
      rcases hpres'.after_next d with ⟨_, hsame⟩ | ⟨e, x, _, hs, hstep⟩
      · exact ⟨c', hsame, hsealed', hids⟩
      · obtain ⟨hx, hidx⟩ := hsealed'.step hpres'.effectGuard hs
        exact ⟨x, hstep, hx, hidx.trans hids⟩
  obtain ⟨c', hpres', _, hids⟩ := hrun
  rw [(cellOf_some hpres'.cell).2, hattempts]
  exact hids

def committedEffectRun : List Call :=
  startedEffectRun ++ [leaseCall 5 (.markEffectCommitted sampleLease)]

theorem committed_effect_final_reclaim :
    ((after (committedEffectRun ++ [claimCall 20 "c" "d"])).attemptsOf sampleKey).map
        AttemptRow.attemptID =
      ((after committedEffectRun).attemptsOf sampleKey).map AttemptRow.attemptID :=
  committed_effect_final committedEffectRun _ sampleKey (sampleRecord .nonIdempotentMutation false)
    (sample_registered .nonIdempotentMutation false _ (by decide)) (by decide)
    (((after committedEffectRun).attemptsOf sampleKey).head (by decide))
    (head_mem _) (by decide)

/-- The newest attempt exists and has this status. -/
def LastIs (last : Option AttemptRow) (status : AttemptStatus) : Prop :=
  ∃ a, last = some a ∧ a.status = status

theorem lastIs_some {status : AttemptStatus} : LastIs (some a) status ↔ a.status = status := by
  simp [LastIs]

structure Settled (c : Cell) : Prop where
  succeeded : c.row.state = .succeeded ↔ LastIs c.last .succeeded
  cancelled : c.row.state = .cancelled ↔ LastIs c.last .cancelled
  failed : c.row.state = .failed → LastIs c.last .failed

theorem settled_init {now : Time}
    (h : record.state = .ready) : Settled (initCell k record now) := by
  constructor <;> simp [initCell, registeredRow, h, LastIs]

theorem settled_of_open {row : NodeRow} {past : List AttemptRow} {cur : AttemptRow}
    (hrow : row.state = .running ∨ row.state = .ready)
    (hcur : cur.status = .pending ∨ cur.status = .running ∨ cur.status = .abandoned) :
    Settled ⟨row, past, some cur⟩ := by
  constructor <;> simp only [lastIs_some] <;>
    rcases hrow with hr | hr <;> rcases hcur with hc | hc | hc <;> simp [hr, hc]

theorem Settled.step (h : Settled c) (hs : CellStep e c c') : Settled c' := by
  cases hs with
  | claimReady hready hl => exact settled_of_open (.inl rfl) (.inl rfl)
  | reclaim hrun hexp hretry hcom hopen hl => exact settled_of_open (.inl rfl) (.inl rfl)
  | renew hown => exact ⟨h.succeeded, h.cancelled, h.failed⟩
  | startAttempt hown hid hst hb => exact settled_of_open (.inl hown.1) (.inr (.inl rfl))
  | markEffectStarted hown hid hst hnone =>
    exact settled_of_open (.inl hown.1) (.inr (.inl hst))
  | markEffectCommitted hown hid hst hse hnone =>
    exact settled_of_open (.inl hown.1) (.inr (.inl hst))
  | releaseBeforeEffect hown hopen hnone => exact settled_of_open (.inr rfl) (.inr (.inr rfl))
  | complete hown hid hst hv hmut =>
    rcases completion_cases hv with ⟨ht, hc⟩ | ⟨ht, hc⟩ | ⟨ht, hc⟩ <;> constructor <;>
      simp [lastIs_some, NodeRow.unleased, AttemptRow.complete, ht, hc]
  | @requeueFailed row past last now hfailed hretry hmut =>
    obtain ⟨a, rfl, ha⟩ := h.failed hfailed
    constructor <;> simp [lastIs_some, NodeRow.unleased, ha]

/-- A successful attempt of a mutation has committed its effect. -/
def CommittedSuccess (c : Cell) : Prop :=
  isMutation c.row.effectClass → ∀ a ∈ c.attempts, a.status = .succeeded →
    a.effectCommittedAt ≠ none

theorem CommittedSuccess.replace_last {row row' : NodeRow} {past : List AttemptRow}
    {cur cur' : AttemptRow} (h : CommittedSuccess ⟨row, past, some cur⟩)
    (hclass : row'.effectClass = row.effectClass)
    (hcur : cur'.status = .succeeded → isMutation row.effectClass → cur'.effectCommittedAt ≠ none) :
    CommittedSuccess ⟨row', past, some cur'⟩ := by
  intro hm a ha hst
  have hm : isMutation row.effectClass := hclass ▸ hm
  rcases mem_append.mp ha with hp | hlast
  · exact h hm a (mem_append_left _ hp) hst
  · cases mem_toList.mp hlast
    exact hcur hst hm

theorem CommittedSuccess.step (hc : Coupled base fence c)
    (h : CommittedSuccess c) (hs : CellStep e c c') : CommittedSuccess c' := by
  cases hs with
  | claimReady hready hl =>
    intro hm a ha hst
    rcases mem_append.mp ha with hp | hlast
    · exact h hm a hp hst
    · cases mem_toList.mp hlast
      cases hst
  | @reclaim row past cur now lease leaseDuration hrun hexp hretry hcom hopen hl =>
    intro hm a ha hst
    rcases mem_append.mp ha with hp | hlast
    · rcases mem_append.mp hp with hp | hab
      · exact h hm a (mem_append_left _ hp) hst
      · rw [mem_singleton.mp hab] at hst
        cases hst
    · cases mem_toList.mp hlast
      cases hst
  | renew hown => exact h
  | startAttempt hown hid hst hb => exact h.replace_last rfl (fun hsucc => by cases hsucc)
  | markEffectStarted hown hid hst hnone =>
    exact h.replace_last rfl (fun hsucc => by rw [hst] at hsucc; cases hsucc)
  | markEffectCommitted hown hid hst hse hnone =>
    exact h.replace_last rfl (fun hsucc => by rw [hst] at hsucc; cases hsucc)
  | releaseBeforeEffect hown hopen hnone => exact h.replace_last rfl (fun hsucc => by cases hsucc)
  | @complete row past cur now lease terminal completion hown hid hst hv hmut =>
    refine h.replace_last rfl (fun hsucc hm => ?_)
    have hsucc : completion.status = .succeeded := hsucc
    have hterm : terminal = .succeeded := by
      rcases completion_cases hv with ⟨ht, _⟩ | ⟨_, hs⟩ | ⟨_, hs⟩
      · exact ht
      · rw [hsucc] at hs; cases hs
      · rw [hsucc] at hs; cases hs
    intro hn
    exact hmut ⟨hterm, hm, hc.committed.trans hn⟩
  | requeueFailed hfailed hretry hmut => exact h

structure SuccessEvidence (effect : EffectClass) (a : AttemptRow) : Prop where
  target : present a.targetID
  revision : atLeastOne a.targetRevision
  snapshot : present a.targetSnapshotDigest
  policy : present a.policyDecisionID
  budget : present a.budgetReservationID
  started : a.startedAt ≠ none
  finished : a.finishedAt ≠ none
  committed : isMutation effect → a.effectCommittedAt ≠ none

theorem attempt_check (h : a ∈ db.attemptsOf k) :
    a.Check := db.attempts.checked a (Table.mem_select.mp h).1

theorem success_times (h : a.Check) (hs : a.status = .succeeded) :
    a.startedAt ≠ none ∧ a.finishedAt ≠ none := by
  rcases h.2.2.2.2.2.1 with ⟨hp, _⟩ | ⟨hr, _⟩ | ⟨_, hst, hfin⟩ | ⟨hc, _⟩
  · rw [hs] at hp; cases hp
  · rw [hs] at hr; cases hr
  · exact ⟨hst, hfin⟩
  · rw [hs] at hc; rcases hc with hc | hc <;> cases hc

theorem success_evidence {effect : EffectClass} (h : a.Check) (hs : a.status = .succeeded)
    (hc : isMutation effect → a.effectCommittedAt ≠ none) : SuccessEvidence effect a := by
  obtain ⟨hst, hfin⟩ := success_times h hs
  obtain ⟨ht, hrev, hsnap⟩ := h.2.2.2.2.2.2.1.resolve_left hst
  obtain ⟨hp, hb⟩ := h.2.2.2.2.2.2.2.1.resolve_left hst
  exact ⟨ht, hrev, hsnap, hp, hb, hst, hfin, hc⟩

structure OutcomeOf (effect : EffectClass) (row : NodeRow) (attempts : List AttemptRow) : Prop where
  succeeded : row.state = .succeeded ↔ LastIs attempts.getLast? .succeeded
  cancelled : row.state = .cancelled ↔ LastIs attempts.getLast? .cancelled
  failed : row.state = .failed → LastIs attempts.getLast? .failed
  success : ∀ a ∈ attempts, a.status = .succeeded → SuccessEvidence effect a
  failure : ∀ a ∈ attempts, a.status = .failed → present a.errorClass

theorem Present.committedSuccess (h : Present calls db k record c) : CommittedSuccess c :=
  h.invariant (I := CommittedSuccess) (fun _ _ _ hm => absurd hm not_mem_nil)
    (fun _ _ _ hc hi => hi.step hc)

/-- Over every run, the state of a node registered READY is the outcome of its
latest attempt, with the evidence that outcome needs. -/
theorem outcome_after (calls : List Call) (k : NodeKey) (record : NodeRuntimeRecord)
    (hr : Registered calls k record) (hready : record.state = .ready) :
    ∃ row, (after calls).node k = some row ∧
      OutcomeOf record.effectClass row ((after calls).attemptsOf k) := by
  obtain ⟨c, hpres⟩ := present_of_registered hr
  obtain ⟨hrow, ha⟩ := cellOf_some hpres.cell
  have hset : Settled c := hpres.invariant (fun _ => settled_init hready)
    (fun _ _ _ _ hi => hi.step)
  have hlast : ((after calls).attemptsOf k).getLast? = c.last := by
    have hcell := hpres.cell
    simp only [cellOf, hrow, map_some, some.injEq] at hcell
    rw [← hcell]
  refine ⟨c.row, hrow, ?_⟩
  refine ⟨hlast ▸ hset.succeeded, hlast ▸ hset.cancelled, hlast ▸ hset.failed, ?_, ?_⟩
  · intro a hm hs
    refine success_evidence (attempt_check hm) hs (fun hmut => ?_)
    exact hpres.committedSuccess (hpres.registered_columns.1 ▸ hmut) a (ha ▸ hm) hs
  · intro a hm hs
    exact (attempt_check hm).2.2.2.2.2.2.2.2.1.resolve_left (not_not.mpr hs)

theorem outcome_succeeded :
    ∃ row, (after (committedEffectRun ++ [leaseCall 6 (.complete sampleLease .succeeded
        ⟨.succeeded, "", Usage.zero⟩)])).node sampleKey = some row ∧
      OutcomeOf .nonIdempotentMutation row ((after (committedEffectRun ++ [leaseCall 6
        (.complete sampleLease .succeeded ⟨.succeeded, "", Usage.zero⟩)])).attemptsOf sampleKey) :=
  outcome_after _ sampleKey (sampleRecord .nonIdempotentMutation false)
    (sample_registered .nonIdempotentMutation false _ (by decide)) rfl

end AiCloud.NodeLease
