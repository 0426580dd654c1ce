import AiCloud.NodeLease.Reachable

/-!
# Stale leases are powerless

Fences grow by one with every claim, so a lease that carries the row's fence is the
newest one of its node. A lease of another node cannot match either, because it would
have to carry the token of that node's newest lease. Registration, releases, requeues
and takeovers bound the number of claims.
-/
namespace AiCloud.NodeLease

open Lib Execution Identity List Option

def Event.claimed : Event → Option NodeLease
  | .claim _ lease => some lease
  | _ => none

/-- The clock reading and the lease an event was authorized with. -/
def Event.held : Event → Option (Time × NodeLease)
  | .renew now lease => some (now, lease)
  | .startAttempt now lease _ => some (now, lease)
  | .markEffectStarted now lease => some (now, lease)
  | .markEffectCommitted now lease => some (now, lease)
  | .releaseBeforeEffect now lease => some (now, lease)
  | .complete now lease _ _ => some (now, lease)
  | .claim _ _ => none
  | .requeueFailed _ => none

/-- The lease an operation is presented with. -/
def Op.held : Op → Option NodeLease
  | .renew lease _ => some lease
  | .startAttempt lease _ => some lease
  | .markEffectStarted lease => some lease
  | .markEffectCommitted lease => some lease
  | .releaseBeforeEffect lease => some lease
  | .complete lease _ _ => some lease
  | .register _ => none
  | .claim .. => none
  | .requeueFailed .. => none

variable (calls : List Call)

/-- The leases `Claim` issued for a node, oldest first. -/
def leasesOf (k : NodeKey) : List NodeLease :=
  (eventsOf calls k).filterMap Event.claimed

/-- No two claims of the run drew the same token. -/
def UniqueTokens : Prop :=
  ∀ k k' lease lease', lease ∈ leasesOf calls k → lease' ∈ leasesOf calls k' →
    lease.token = lease'.token → k = k' ∧ lease = lease'

/-- The lease is the newest one of its node, whose row is RUNNING and not yet expired. -/
def Current (k : NodeKey) (lease : NodeLease) (now : Time) : Prop :=
  (leasesOf calls k).getLast? = some lease ∧ ∃ row, (after calls).node k = some row ∧
    row.state = .running ∧ later row.leaseExpiresAt (some now)

structure Issued (leases : List NodeLease) (c : Cell) : Prop where
  bounded : ∀ lease ∈ leases, lease.fence ≤ c.row.leaseFence
  newest : ∀ lease ∈ leases, lease.fence = c.row.leaseFence → leases.getLast? = some lease
  holder : c.row.state = .running → ∃ lease ∈ leases, c.row.leaseToken = some lease.token

variable {lease : NodeLease} {now : Time} {row : NodeRow}

theorem Issued.claimed {leases : List NodeLease} {past past' : List AttemptRow}
    {last last' : Option AttemptRow} {leaseDuration : Duration}
    (h : Issued leases ⟨row, past, last⟩) (hl : Continues row lease) :
    Issued (leases ++ [lease]) ⟨claimedRow row lease now leaseDuration, past', last'⟩ := by
  have hold : ∀ l ∈ leases, l.fence < lease.fence := by
    intro l hm
    have hb : l.fence ≤ row.leaseFence := h.bounded l hm
    have hn := hl.2.1
    omega
  refine ⟨?_, ?_, fun _ => ⟨lease, by simp, rfl⟩⟩
  · intro l hm
    rcases mem_append.mp hm with hm | hm
    · exact Int.le_of_lt (hold l hm)
    · rw [mem_singleton.mp hm]
      exact Int.le_refl _
  · intro l hm hf
    rcases mem_append.mp hm with hm | hm
    · exact absurd hf (Int.ne_of_lt (hold l hm))
    · simp [mem_singleton.mp hm]

theorem Issued.kept {leases : List NodeLease} {c c' : Cell} (h : Issued leases c)
    (hf : c'.row.leaseFence = c.row.leaseFence) (hr : c'.row.state = .running →
      c.row.state = .running ∧ c'.row.leaseToken = c.row.leaseToken) : Issued leases c' := by
  refine ⟨hf ▸ h.bounded, hf ▸ h.newest, fun hrun => ?_⟩
  obtain ⟨hrun', ht⟩ := hr hrun
  rw [ht]
  exact h.holder hrun'

variable {e : Event} {es : List Event}

theorem Issued.step {c c' : Cell} (h : Issued (es.filterMap Event.claimed) c)
    (hs : CellStep e c c') : Issued ((es ++ [e]).filterMap Event.claimed) c' := by
  rw [filterMap_append]
  cases hs with
  | claimReady hready hl => exact h.claimed hl
  | reclaim hrun hexp hretry hcom hopen hl => exact h.claimed hl
  | renew hown => exact (append_nil _).symm ▸ h.kept rfl (fun hr => ⟨hr, rfl⟩)
  | startAttempt hown hid hst hb => exact (append_nil _).symm ▸ h.kept rfl (fun hr => ⟨hr, rfl⟩)
  | markEffectStarted hown hid hst hnone =>
    exact (append_nil _).symm ▸ h.kept rfl (fun hr => ⟨hr, rfl⟩)
  | markEffectCommitted hown hid hst hse hnone =>
    exact (append_nil _).symm ▸ h.kept rfl (fun hr => ⟨hr, rfl⟩)
  | releaseBeforeEffect hown hopen hnone =>
    exact (append_nil _).symm ▸ h.kept rfl (fun hr => by cases hr)
  | complete hown hid hst hv hmut =>
    exact (append_nil _).symm ▸ h.kept rfl (fun hr => absurd hr (completion_state hv).2.1)
  | requeueFailed hfailed hretry hmut =>
    exact (append_nil _).symm ▸ h.kept rfl (fun hr => by cases hr)

theorem Present.issued {calls : List Call} {db : Db} {k : NodeKey} {record : NodeRuntimeRecord}
    {c : Cell} (h : Present calls db k record c) : Issued (leasesOf calls k) c := by
  refine h.history (I := fun es x => Issued (es.filterMap Event.claimed) x) (fun now => ?_)
    (fun es e x x' _ hi => hi.step)
  refine ⟨forall_mem_nil _, forall_mem_nil _, ?_⟩
  intro hrun
  exact absurd hrun h.idle

theorem step_held {c c' : Cell} (hs : CellStep e c c') (he : e.held = some (now, lease)) :
    c.row.state = .running ∧ c.row.leaseToken = some lease.token ∧
      c.row.leaseFence = lease.fence ∧ later c.row.leaseExpiresAt (some now) := by
  cases hs with
  | claimReady => cases he
  | reclaim => cases he
  | renew hown => cases he; exact ⟨hown.1, hown.2.2.1, hown.2.2.2.1, hown.2.2.2.2.2⟩
  | startAttempt hown => cases he; exact ⟨hown.1, hown.2.2.1, hown.2.2.2.1, hown.2.2.2.2.2⟩
  | markEffectStarted hown => cases he; exact ⟨hown.1, hown.2.2.1, hown.2.2.2.1, hown.2.2.2.2.2⟩
  | markEffectCommitted hown => cases he; exact ⟨hown.1, hown.2.2.1, hown.2.2.2.1, hown.2.2.2.2.2⟩
  | releaseBeforeEffect hown => cases he; exact ⟨hown.1, hown.2.2.1, hown.2.2.2.1, hown.2.2.2.2.2⟩
  | complete hown => cases he; exact ⟨hown.1, hown.2.2.1, hown.2.2.2.1, hown.2.2.2.2.2⟩
  | requeueFailed => cases he

theorem event_held {c : Call} {reply : Reply} (hc : c.op.held = some lease)
    (he : c.event reply = some e) : e.held = some (c.now, lease) := by
  obtain ⟨ctx, now, op⟩ := c
  cases op <;> cases hc <;> cases he <;> rfl

/-- An operation presented with an issued lease succeeds only while that lease
is the newest of its node, RUNNING and unexpired at the clock reading of the
transaction; otherwise it fails and changes nothing. -/
theorem lease_fenced (calls : List Call) (hu : UniqueTokens calls) (k : NodeKey)
    (lease : NodeLease) (hl : lease ∈ leasesOf calls k) (c : Call) (hc : c.op.held = some lease) :
    (Current calls k lease c.now ∧ ∃ reply, (exec (after calls) c).1 = .ok reply) ∨
      ∃ e, exec (after calls) c = (.error e, after calls) := by
  rcases Tx.commit_cases c.tx (after calls) with ⟨e, he⟩ | ⟨reply, db', hok, htx⟩
  · exact .inr ⟨e, he⟩
  refine .inl ⟨?_, reply, by rw [exec, hok]⟩
  obtain ⟨p, hp, ⟨_, record, hop, _⟩ | ⟨e, hev, x, x', hx, _, hs, _⟩⟩ :=
    tx_ok (coupledAt_after calls) htx
  · rw [hop] at hc
    cases hc
  · obtain ⟨hrun, htok, hfen, hexp⟩ := step_held hs (event_held hc hev)
    rcases tracked calls (c.key p) with habs | ⟨record, y, hpres⟩
    · simp [cellOf, habs.node] at hx
    rw [hpres.cell] at hx
    cases hx
    obtain ⟨lease', hl', htok'⟩ := hpres.issued.holder hrun
    have hkey : k = c.key p := (hu k _ lease lease' hl hl' (by
      rw [htok] at htok'
      exact some.inj htok')).1
    subst hkey
    exact ⟨hpres.issued.newest lease hl hfen.symm, x.row, (cellOf_some hpres.cell).1, hrun, hexp⟩

theorem eventsFrom_elsewhere {k k' : NodeKey} (hk : k ≠ k') {calls : List Call}
    (h : ∀ c ∈ calls, ∃ p, scopedPrincipal c.ctx = .ok p ∧ c.key p = k') (db : Db) :
    eventsFrom db k calls = [] := by
  induction calls generalizing db with
  | nil => rfl
  | cons c rest ih =>
    obtain ⟨p, hp, hkey⟩ := h c mem_cons_self
    have hne : c.key p ≠ k := fun he => hk (he.symm.trans hkey)
    have hat : eventsAt db c k = [] := by
      unfold eventsAt
      rw [hp]
      cases (exec db c).1 <;> simp [hne]
    rw [eventsFrom, hat, ih (fun d hd => h d (mem_cons_of_mem c hd))]
    rfl

/-- A read-only node claimed twice, the second time after its lease expired. -/
def reclaimedRun : List Call :=
  [registerCall .readOnly true, claimCall 2 "a" "b", claimCall 20 "c" "d"]

theorem reclaimedRun_leases : leasesOf reclaimedRun sampleKey =
    [sampleLease, ⟨"e", 1, "n", "att_d", "w", "c", 2, 2, 20, 20, 30⟩] := by
  decide

theorem reclaimedRun_unique : UniqueTokens reclaimedRun := by
  have hkey : ∀ {k : NodeKey} {lease : NodeLease}, lease ∈ leasesOf reclaimedRun k →
      k = sampleKey := by
    intro k lease hm
    by_contra hne
    have hnone : eventsOf reclaimedRun k = [] := eventsFrom_elsewhere hne (by
      simp only [reclaimedRun, forall_mem_cons]
      exact ⟨⟨_, sample_scope, rfl⟩, ⟨_, sample_scope, rfl⟩, ⟨_, sample_scope, rfl⟩, by simp⟩) _
    simp [leasesOf, hnone] at hm
  intro k k' lease lease' hl hl' ht
  obtain rfl := hkey hl
  obtain rfl := hkey hl'
  refine ⟨rfl, ?_⟩
  rw [reclaimedRun_leases] at hl hl'
  simp only [mem_cons, not_mem_nil, or_false] at hl hl'
  rcases hl with rfl | rfl <;> rcases hl' with rfl | rfl <;>
    first | rfl | exact absurd ht (by decide)

/-- The first lease of a reclaimed node can no longer start an effect. -/
theorem lease_fenced_reclaimed :
    ∃ e, exec (after reclaimedRun) (leaseCall 21 (.markEffectStarted sampleLease)) =
      (.error e, after reclaimedRun) := by
  rcases lease_fenced reclaimedRun reclaimedRun_unique sampleKey sampleLease (by decide)
    (leaseCall 21 (.markEffectStarted sampleLease)) rfl with ⟨⟨hlast, _⟩, _⟩ | herr
  · rw [reclaimedRun_leases] at hlast
    exact absurd hlast (by decide)
  · exact herr

def Event.released : Event → Option NodeLease
  | .releaseBeforeEffect _ lease => some lease
  | _ => none

def Event.isRequeue : Event → Bool
  | .requeueFailed _ => true
  | _ => false

def claims (es : List Event) : Nat := (es.filterMap Event.claimed).length

def releases (es : List Event) : Nat := (es.filterMap Event.released).length

def requeues (es : List Event) : Nat := es.countP Event.isRequeue

/-- Whether the node is held, and how often it was claimed while it was held. -/
def hold (t : Bool × Nat) : Event → Bool × Nat
  | .claim .. => (true, if t.1 then t.2 + 1 else t.2)
  | .releaseBeforeEffect .. => (false, t.2)
  | .complete .. => (false, t.2)
  | _ => t

/-- The claims that took the node over from an expired lease. -/
def reclaims (es : List Event) : Nat := (es.foldl hold (false, 0)).2

section

variable (es : List Event) (e : Event)

@[simp] theorem claims_snoc : claims (es ++ [e]) = claims es + e.claimed.toList.length := by
  unfold claims
  rw [filterMap_append]
  cases h : e.claimed <;> simp [h]

@[simp] theorem releases_snoc :
    releases (es ++ [e]) = releases es + e.released.toList.length := by
  unfold releases
  rw [filterMap_append]
  cases h : e.released <;> simp [h]

@[simp] theorem requeues_snoc : requeues (es ++ [e]) = requeues es + e.isRequeue.toNat := by
  unfold requeues
  rw [countP_append]
  cases h : e.isRequeue <;> simp [h]

theorem held_snoc : (es ++ [e]).foldl hold (false, 0) = hold (es.foldl hold (false, 0)) e := by
  rw [foldl_append]
  rfl

theorem reclaims_snoc : reclaims (es ++ [e]) = (hold (es.foldl hold (false, 0)) e).2 := by
  unfold reclaims
  rw [held_snoc]

end

/-- 0 on a ready node, 1 on any other. -/
def NodeRow.spent (row : NodeRow) : Nat := if row.state = .ready then 0 else 1

/-- The counts along the history of a node that was registered ready. -/
structure Tallied (es : List Event) (c : Cell) : Prop where
  held : (es.foldl hold (false, 0)).1 = true ↔ c.row.state = .running
  attempts : c.attempts.length = claims es
  claimed : claims es ≤ reclaims es + releases es + requeues es + c.row.spent
  requeued : requeues es + c.row.spent ≤ claims es

theorem tallied_init {k : NodeKey} {record : NodeRuntimeRecord}
    (h : record.state = .ready) : Tallied [] (initCell k record now) := by
  constructor <;> simp [initCell, registeredRow, Cell.attempts, claims, reclaims,
    releases, requeues, NodeRow.spent, h]

theorem spent_ready (h : row.state = .ready) : row.spent = 0 := if_pos h

theorem spent_other (h : row.state ≠ .ready) : row.spent = 1 := if_neg h

section

variable {es : List Event} {c c' : Cell} (h : Tallied es c)

include h

theorem Tallied.kept (hstate : c'.row.state = c.row.state)
    (hatt : c'.attempts.length = c.attempts.length) (hhold : ∀ t, hold t e = t)
    (hc : e.claimed = none) (hr : e.released = none) (hq : e.isRequeue = false) :
    Tallied (es ++ [e]) c' := by
  have hspent : c'.row.spent = c.row.spent := by
    unfold NodeRow.spent
    rw [hstate]
  refine ⟨?_, ?_, ?_, ?_⟩
  · rw [held_snoc, hhold, hstate]
    exact h.held
  · simpa [hc] using hatt.trans h.attempts
  · have hsame : reclaims (es ++ [e]) = reclaims es := by
      rw [reclaims_snoc, hhold]
      rfl
    rw [hsame, hspent]
    simpa [hc, hr, hq] using h.claimed
  · rw [hspent]
    simpa [hc, hq] using h.requeued

/-- A claim adds an attempt, and it is a takeover if the node was running. -/
theorem Tallied.claim
    (hfrom : c.row.state = .ready ∨ c.row.state = .running) (hstate : c'.row.state = .running)
    (hatt : c'.attempts.length = c.attempts.length + 1) :
    Tallied (es ++ [.claim now lease]) c' := by
  have hspent : c'.row.spent = 1 := spent_other (by rw [hstate]; decide)
  have hclaimed := h.claimed
  have hrequeued := h.requeued
  refine ⟨?_, ?_, ?_, ?_⟩
  · simp [hold, hstate]
  · rw [hatt, h.attempts]
    simp [Event.claimed]
  · rw [reclaims_snoc, hspent]
    simp only [claims_snoc, releases_snoc, requeues_snoc, Event.claimed, Event.released,
      Event.isRequeue, toList_some, toList_none, length_cons, length_nil, Bool.toNat_false, hold]
    unfold reclaims at hclaimed
    rcases hfrom with hready | hrun
    · rw [spent_ready hready] at hclaimed
      split <;> omega
    · rw [if_pos (h.held.mpr hrun)]
      rw [spent_other (by rw [hrun]; decide)] at hclaimed
      omega
  · rw [hspent]
    simp only [claims_snoc, requeues_snoc, Event.claimed, Event.isRequeue, toList_some,
      length_cons, length_nil, Bool.toNat_false]
    omega

theorem Tallied.freed (hrun : c.row.state = .running) (hstate : c'.row.state ≠ .running)
    (hatt : c'.attempts.length = c.attempts.length) (hhold : ∀ t, hold t e = (false, t.2))
    (hc : e.claimed = none) (hq : e.isRequeue = false)
    (hr : c'.row.state = .ready → e.released ≠ none) : Tallied (es ++ [e]) c' := by
  have hspent : c.row.spent = 1 := spent_other (by rw [hrun]; decide)
  have hclaimed := h.claimed
  have hrequeued := h.requeued
  rw [hspent] at hclaimed hrequeued
  have hle : 1 ≤ e.released.toList.length + c'.row.spent := by
    by_cases hready : c'.row.state = .ready
    · obtain ⟨lease, hlease⟩ := ne_none_iff_exists'.mp (hr hready)
      rw [hlease]
      simp
    · rw [spent_other hready]
      omega
  have hspent' : c'.row.spent ≤ 1 := by
    unfold NodeRow.spent
    split <;> omega
  refine ⟨?_, ?_, ?_, ?_⟩
  · simp [hhold, hstate]
  · simpa [hc] using hatt.trans h.attempts
  · rw [reclaims_snoc, hhold]
    unfold reclaims at hclaimed
    simp only [claims_snoc, releases_snoc, requeues_snoc, hc, hq, toList_none,
      length_nil, Bool.toNat_false]
    omega
  · simp only [claims_snoc, requeues_snoc, hc, hq, toList_none, length_nil, Bool.toNat_false]
    omega

theorem Tallied.step (hs : CellStep e c c') : Tallied (es ++ [e]) c' := by
  cases hs with
  | claimReady hready hl =>
    exact h.claim (.inl hready) rfl (by simp [Cell.attempts, Nat.add_assoc])
  | reclaim hrun hexp hretry hcom hopen hl =>
    exact h.claim (.inr hrun) rfl (by simp [Cell.attempts])
  | renew hown => exact h.kept rfl rfl (fun _ => rfl) rfl rfl rfl
  | startAttempt hown hid hst hb =>
    exact h.kept rfl (by simp [Cell.attempts]) (fun _ => rfl) rfl rfl rfl
  | markEffectStarted hown hid hst hnone =>
    exact h.kept rfl (by simp [Cell.attempts]) (fun _ => rfl) rfl rfl rfl
  | markEffectCommitted hown hid hst hse hnone =>
    exact h.kept rfl (by simp [Cell.attempts]) (fun _ => rfl) rfl rfl rfl
  | releaseBeforeEffect hown hopen hnone =>
    exact h.freed hown.1 (by simp [NodeRow.unleased]) (by simp [Cell.attempts]) (fun _ => rfl) rfl
      rfl (by simp [Event.released])
  | complete hown hid hst hv hmut =>
    obtain ⟨hready, hrun, _⟩ := completion_state hv
    exact h.freed hown.1 hrun (by simp [Cell.attempts]) (fun _ => rfl) rfl rfl
      (fun hr => absurd hr hready)
  | @requeueFailed row past last now hfailed hretry hmut =>
    have hclaimed := h.claimed
    have hrequeued := h.requeued
    have hspent : row.spent = 1 := spent_other (by rw [hfailed]; decide)
    change claims es ≤ reclaims es + releases es + requeues es + row.spent at hclaimed
    change requeues es + row.spent ≤ claims es at hrequeued
    have hspent' : (row.unleased .ready now).spent = 0 := spent_ready rfl
    refine ⟨?_, ?_, ?_, ?_⟩
    · have hheld := h.held
      simp only [hfailed] at hheld
      simpa [hold, NodeRow.unleased] using hheld
    · rw [claims_snoc]
      exact h.attempts
    · simp only [reclaims_snoc, hold, claims_snoc, releases_snoc, requeues_snoc, Event.claimed,
        Event.released, Event.isRequeue, toList_none, length_nil, Bool.toNat_true, hspent']
      unfold reclaims at hclaimed
      omega
    · simp only [claims_snoc, requeues_snoc, Event.claimed, Event.isRequeue, toList_none,
        length_nil, Bool.toNat_true, hspent']
      omega

end

variable {record : NodeRuntimeRecord} {calls : List Call} {c : Cell} {k : NodeKey}

theorem Present.tallied {db : Db} (h : Present calls db k record c)
    (hready : record.state = .ready) : Tallied (eventsOf calls k) c :=
  h.history (fun _ => tallied_init hready) (fun _ _ _ _ _ hi => hi.step)

/-- Every requeue happens after fewer than `bound` claims. -/
def RequeuesBelow (bound : Int) (es : List Event) : Prop :=
  ∀ pre now post, es = pre ++ .requeueFailed now :: post → (claims pre : Int) < bound

theorem RequeuesBelow.init {bound : Int} (h : RequeuesBelow bound (es ++ [e])) :
    RequeuesBelow bound es := by
  intro pre now post heq
  exact h pre now (post ++ [e]) (by rw [heq]; simp)

/-- A node that is only requeued below a bound is requeued less often than that. -/
theorem Present.requeues_lt {db : Db} (h : Present calls db k record c)
    (hready : record.state = .ready) {bound : Int} (hpos : 0 < bound)
    (hb : RequeuesBelow bound (eventsOf calls k)) :
    (requeues (eventsOf calls k) : Int) < bound := by
  have hboth := h.history
    (I := fun es x => Tallied es x ∧ (RequeuesBelow bound es → (requeues es : Int) < bound))
    (fun _ => ⟨tallied_init hready, fun _ => by simpa [requeues] using hpos⟩) ?_
  · exact hboth.2 hb
  · rintro es e x x' _ ⟨ht, hi⟩ hs
    refine ⟨ht.step hs, fun hbelow => ?_⟩
    have hold := hi hbelow.init
    rw [requeues_snoc]
    cases hs with
    | @requeueFailed row past last now hfailed hretry hmut =>
      have hlt := hbelow es now [] rfl
      have hle : requeues es + row.spent ≤ claims es := ht.requeued
      rw [spent_other (by rw [hfailed]; decide)] at hle
      simp only [Event.isRequeue, Bool.toNat_true]
      omega
    | claimReady | reclaim | renew | startAttempt | markEffectStarted | markEffectCommitted |
      releaseBeforeEffect | complete => exact hold

/-- No two releases carry the same fence. -/
structure ReleasesDistinct (es : List Event) (c : Cell) : Prop where
  distinct : ((es.filterMap Event.released).map NodeLease.fence).Nodup
  bounded : ∀ lease ∈ es.filterMap Event.released, lease.fence ≤ c.row.leaseFence
  past : c.row.state = .running → ∀ lease ∈ es.filterMap Event.released,
    lease.fence < c.row.leaseFence

theorem ReleasesDistinct.kept {c c' : Cell} (h : ReleasesDistinct es c) (hr : e.released = none)
    (hf : c.row.leaseFence ≤ c'.row.leaseFence)
    (hrun : c'.row.state = .running → c.row.state = .running ∨
      c.row.leaseFence < c'.row.leaseFence) :
    ReleasesDistinct (es ++ [e]) c' := by
  have hsame : (es ++ [e]).filterMap Event.released = es.filterMap Event.released := by
    simp [filterMap_append, hr]
  constructor
  · rw [hsame]
    exact h.distinct
  · rw [hsame]
    intro lease hm
    exact Int.le_trans (h.bounded lease hm) hf
  · rw [hsame]
    intro hstate lease hm
    rcases hrun hstate with hrunning | hlt
    · exact Int.lt_of_lt_of_le (h.past hrunning lease hm) hf
    · exact Int.lt_of_le_of_lt (h.bounded lease hm) hlt

theorem ReleasesDistinct.step {c c' : Cell} (h : ReleasesDistinct es c) (hs : CellStep e c c') :
    ReleasesDistinct (es ++ [e]) c' := by
  have hclaim : ∀ {row : NodeRow} {lease : NodeLease}, Continues row lease →
      row.leaseFence < lease.fence := by
    intro row lease hl
    rw [hl.2.1]
    omega
  cases hs with
  | claimReady hready hl =>
    exact h.kept rfl (Int.le_of_lt (hclaim hl)) (fun _ => .inr (hclaim hl))
  | reclaim hrun hexp hretry hcom hopen hl =>
    exact h.kept rfl (Int.le_of_lt (hclaim hl)) (fun _ => .inr (hclaim hl))
  | renew hown => exact h.kept rfl (Int.le_refl _) .inl
  | startAttempt hown hid hst hb => exact h.kept rfl (Int.le_refl _) .inl
  | markEffectStarted hown hid hst hnone => exact h.kept rfl (Int.le_refl _) .inl
  | markEffectCommitted hown hid hst hse hnone => exact h.kept rfl (Int.le_refl _) .inl
  | complete hown hid hst hv hmut => exact h.kept rfl (Int.le_refl _) (fun _ => .inl hown.1)
  | requeueFailed hfailed hretry hmut =>
    exact h.kept rfl (Int.le_refl _) (fun hrun => by cases hrun)
  | @releaseBeforeEffect row past cur now lease hown hopen hnone =>
    have hlt := h.past hown.1
    have hfence : row.leaseFence = lease.fence := hown.2.2.2.1
    have hadd : (es ++ [Event.releaseBeforeEffect now lease]).filterMap Event.released =
        es.filterMap Event.released ++ [lease] := by
      simp [filterMap_append, Event.released]
    constructor
    · rw [hadd, map_append, nodup_append]
      refine ⟨h.distinct, by simp, ?_⟩
      intro f hf f' hf' heq
      obtain ⟨old, hm, rfl⟩ := mem_map.mp hf
      obtain rfl : f' = lease.fence := by simpa using hf'
      have hold : old.fence < row.leaseFence := hlt old hm
      omega
    · rw [hadd]
      intro old hm
      rcases mem_append.mp hm with hm | hm
      · exact h.bounded old hm
      · rw [mem_singleton.mp hm]
        exact Int.le_of_eq hfence.symm
    · intro hrun
      cases hrun

theorem released_nodup (calls : List Call) (k : NodeKey) :
    (((eventsOf calls k).filterMap Event.released).map NodeLease.fence).Nodup := by
  rcases tracked calls k with habs | ⟨record, c, hpres⟩
  · rw [habs.events]
    simp
  · have hall : ReleasesDistinct (eventsOf calls k) c := by
      refine hpres.history (fun _ => ⟨by simp, ?_, ?_⟩) (fun _ _ _ _ _ hi => hi.step)
      · intro lease hm
        cases hm
      · intro _ lease hm
        cases hm
    exact hall.distinct

theorem listAttempts_ok {ctx : Context} {executionID : String} {planRevision : Int}
    {nodeID : String} {attempts : List AttemptRow} {db db' : Db}
    (h : listAttempts ctx executionID planRevision nodeID db = .ok (attempts, db')) :
    ∃ p, scopedPrincipal ctx = .ok p ∧
      attempts = (db.attemptsOf (nodeKey p executionID planRevision nodeID)).mergeSort
        (fun a b => decide (a.attemptNumber ≤ b.attemptNumber)) := by
  unfold listAttempts at h
  simp only [↓Tx.failIf_bind_ok, Tx.bind_ok, Tx.read_ok, Tx.pure_ok] at h
  obtain ⟨_, p, u, hw, _, _, ⟨rfl, rfl⟩, rfl, _⟩ := h
  obtain ⟨hp, rfl⟩ := withScopedTx_ok hw
  exact ⟨p, hp, rfl⟩

theorem Coupled.sorted {base fence : Int} (h : Coupled base fence c) :
    c.attempts.Pairwise (fun a b => decide (a.attemptNumber ≤ b.attemptNumber) = true) := by
  have hn : (c.attempts.map AttemptRow.attemptNumber).Pairwise (· ≤ ·) := by
    rw [h.numbers]
    unfold numbersFrom
    refine Pairwise.map _ ?_ pairwise_lt_range
    intro i j hij
    omega
  rw [pairwise_map] at hn
  exact hn.imp (fun hle => by simpa using hle)

/-- The number of the last listed attempt counts at least all claims so far. -/
theorem listed_claims (h : Present calls (after calls) k record c) (hready : record.state = .ready)
    (hbase : 0 ≤ record.attemptNumber) {latest : AttemptRow}
    (hlast : (((after calls).attemptsOf k).mergeSort
      (fun a b => decide (a.attemptNumber ≤ b.attemptNumber))).getLast? = some latest) :
    (claims (eventsOf calls k) : Int) ≤ latest.attemptNumber := by
  have hcoupled := h.coupled
  have htally := (h.tallied hready).attempts
  rw [(cellOf_some h.cell).2, mergeSort_of_pairwise hcoupled.sorted] at hlast
  have hrow := hcoupled.rowNumber
  obtain ⟨row, past, last⟩ := c
  cases last with
  | none =>
    have hpast := hcoupled.first rfl
    subst hpast
    cases hlast
  | some cur =>
    obtain rfl : cur = latest := by simpa [Cell.attempts] using hlast
    have hnum := hcoupled.last_number.1
    rw [← htally, hnum, hrow]
    omega

end AiCloud.NodeLease
