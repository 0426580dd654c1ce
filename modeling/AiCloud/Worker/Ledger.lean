import AiCloud.Worker.Execute
import AiCloud.NodeLease.History

/-!
# Worker histories and the store agree

A worker only knows the answers it got. The ledger ties these to the store: an
acknowledged operation is an event of its node, an event that needed a lease
was asked by some worker, and no two workers ever hold the same lease. An
unacknowledged operation may or may not have happened.
-/
namespace AiCloud.Worker

open Lib Execution NodeLease Identity List

def Coordinate.op (tokenRand attemptRand : Option String) : Coordinate → Op
  | .claim executionID planRevision nodeID owner leaseDuration =>
    .claim tokenRand attemptRand executionID planRevision nodeID owner leaseDuration
  | .startAttempt lease binding => .startAttempt lease binding
  | .markEffectStarted lease => .markEffectStarted lease
  | .markEffectCommitted lease => .markEffectCommitted lease
  | .releaseBeforeEffect lease => .releaseBeforeEffect lease
  | .complete lease terminal completion => .complete lease terminal completion

def Coordinate.reply : (r : Coordinate) → r.Result → Reply
  | .claim .., lease => .lease lease
  | .startAttempt .., attempt => .attempt attempt
  | .markEffectStarted _, _ => .done
  | .markEffectCommitted _, _ => .done
  | .releaseBeforeEffect _, _ => .done
  | .complete .., _ => .done

def Coordinate.key (p : Principal) : Coordinate → NodeKey
  | .claim executionID planRevision nodeID _ _ => nodeKey p executionID planRevision nodeID
  | .startAttempt lease _ => leaseKey p lease
  | .markEffectStarted lease => leaseKey p lease
  | .markEffectCommitted lease => leaseKey p lease
  | .releaseBeforeEffect lease => leaseKey p lease
  | .complete lease _ _ => leaseKey p lease

/-- The event an acknowledged request was. -/
def Coordinate.event (now : Time) : (r : Coordinate) → r.Result → Event
  | .claim .., lease => .claim now lease
  | .startAttempt lease binding, _ => .startAttempt now lease binding
  | .markEffectStarted lease, _ => .markEffectStarted now lease
  | .markEffectCommitted lease, _ => .markEffectCommitted now lease
  | .releaseBeforeEffect lease, _ => .releaseBeforeEffect now lease
  | .complete lease terminal completion, _ => .complete now lease terminal completion

def Coordinate.call (ctx : Context) (now : Time) (tokenRand attemptRand : Option String)
    (r : Coordinate) : Call := ⟨ctx, now, r.op tokenRand attemptRand⟩

variable {reply : Reply}

section

variable {ctx : Context} {now : Time} {tokenRand attemptRand : Option String} {r : Coordinate}

theorem call_event (x : r.Result) :
    (r.call ctx now tokenRand attemptRand).event (r.reply x) = some (r.event now x) := by
  cases r <;> rfl

theorem call_key (p : Principal) : (r.call ctx now tokenRand attemptRand).key p = r.key p := by
  cases r <;> rfl

/-- Whatever a lease-holding request was answered, only one event can come of it. -/
theorem call_event_held {e : Event} {held : Time × NodeLease}
    (he : (r.call ctx now tokenRand attemptRand).event reply = some e)
    (hh : e.held = some held) : ∀ x : r.Result, r.event now x = e := by
  intro x
  cases r with
  | claim executionID planRevision nodeID owner leaseDuration =>
    cases reply <;> cases he
    cases hh
  | startAttempt lease binding => cases reply <;> cases he <;> rfl
  | markEffectStarted lease => cases reply <;> cases he <;> rfl
  | markEffectCommitted lease => cases reply <;> cases he <;> rfl
  | releaseBeforeEffect lease => cases reply <;> cases he <;> rfl
  | complete lease terminal completion => cases reply <;> cases he <;> rfl

end

/-- What the coordinator may answer. A success is the transaction's own reply; an
error says nothing about whether the transaction happened. -/
def Coordinated (ctx : Context) (calls : List Call) (r : Coordinate)
    (a : Except StoreError r.Result) (calls' : List Call) : Prop :=
  ∃ now tokenRand attemptRand,
    match a with
    | .ok x => (exec (after calls) (r.call ctx now tokenRand attemptRand)).1 = .ok (r.reply x) ∧
        calls' = calls ++ [r.call ctx now tokenRand attemptRand]
    | .error _ => calls' = calls ∨ calls' = calls ++ [r.call ctx now tokenRand attemptRand]

abbrev Histories := Nat → List (Sigma Answer)

/-- Thread `i` was acknowledged a claim of node `k`. -/
def ClaimedAt (ctx : Nat → Option Context) (hist : Histories) (i : Nat) (k : NodeKey)
    (lease : NodeLease) : Prop :=
  ∃ c p executionID planRevision nodeID owner leaseDuration,
    ctx i = some c ∧ scopedPrincipal c = .ok p ∧ nodeKey p executionID planRevision nodeID = k ∧
    (⟨.coordinate (.claim executionID planRevision nodeID owner leaseDuration), .ok lease⟩ :
      Sigma Answer) ∈ hist i

structure Ledger (calls : List Call) (ctx : Nat → Option Context) (hist : Histories) : Prop where
  recorded : ∀ i (r : Coordinate) (x : r.Result), (⟨.coordinate r, .ok x⟩ : Sigma Answer) ∈ hist i →
    ∃ c p now, ctx i = some c ∧ scopedPrincipal c = .ok p ∧ r.event now x ∈ eventsOf calls (r.key p)
  distinct : ∀ i j k lease lease', ClaimedAt ctx hist i k lease → ClaimedAt ctx hist j k lease' →
    lease.fence = lease'.fence → i = j ∧ lease = lease'
  origin : ∀ k e held, e ∈ eventsOf calls k → e.held = some held →
    ∃ i c p now r a, ctx i = some c ∧ scopedPrincipal c = .ok p ∧ Coordinate.key p r = k ∧
      (⟨.coordinate r, a⟩ : Sigma Answer) ∈ hist i ∧ ∀ x, r.event now x = e

variable {k : NodeKey} {c : Call} {calls : List Call}

theorem mem_eventsOf_snoc {e : Event} (h : e ∈ eventsOf calls k) :
    e ∈ eventsOf (calls ++ [c]) k := by
  rw [eventsOf_snoc]
  exact mem_append_left _ h

/-- The one event of a successful call. -/
theorem eventsAt_ok {db : Db} {p : Principal} {e : Event}
    (hp : scopedPrincipal c.ctx = .ok p) (hr : (exec db c).1 = .ok reply)
    (he : c.event reply = some e) : eventsAt db c (c.key p) = [e] := by
  simp [eventsAt, hp, hr, he]

theorem scope_of_ok (hr : (exec (after calls) c).1 = .ok reply) :
    ∃ p, scopedPrincipal c.ctx = .ok p := by
  have htx : c.tx (after calls) = .ok (reply, (exec (after calls) c).2) :=
    Tx.commit_ok.mp (Prod.ext hr rfl)
  obtain ⟨p, hp, _⟩ := tx_ok (coupledAt_after calls) htx
  exact ⟨p, hp⟩

variable {lease : NodeLease} {now : Time}

/-- A fresh claim carries a larger fence than every lease issued before. -/
theorem claim_fence (h : eventsAt (after calls) c k = [.claim now lease]) :
    ∀ lease' ∈ leasesOf calls k, lease'.fence < lease.fence := by
  intro lease' hm
  rcases tracked calls k with habs | ⟨record, x, hpres⟩
  · rw [leasesOf, habs.events] at hm
    cases hm
  · have hb := hpres.issued.bounded lease' hm
    rcases hpres.after_next c with ⟨hnone, _⟩ | ⟨e, x', he, hs, _⟩
    · rw [h] at hnone
      cases hnone
    · rw [h] at he
      cases he
      have hfence : lease.fence = x.row.leaseFence + 1 := by
        cases hs with
        | claimReady _ hl => exact hl.2.1
        | reclaim _ _ _ _ _ hl => exact hl.2.1
      omega

variable {calls : List Call} {hist : Histories} {ctx : Nat → Option Context} {i : Nat}

theorem Ledger.claimed_lease (h : Ledger calls ctx hist) {k : NodeKey} {lease : NodeLease}
    (hc : ClaimedAt ctx hist i k lease) : ∃ now, Event.claim now lease ∈ eventsOf calls k := by
  obtain ⟨c, p, executionID, planRevision, nodeID, owner, leaseDuration, hctx, hp, rfl, hm⟩ := hc
  obtain ⟨c', p', now, hctx', hp', he⟩ := h.recorded i _ _ hm
  rw [hctx] at hctx'
  cases hctx'
  rw [hp] at hp'
  cases hp'
  exact ⟨now, he⟩

theorem Ledger.claim_key (h : Ledger calls ctx hist) {k : NodeKey} {lease : NodeLease}
    (hc : ClaimedAt ctx hist i k lease) {c : Context} {p : Principal} (hctx : ctx i = some c)
    (hp : scopedPrincipal c = .ok p) : leaseKey p lease = k := by
  obtain ⟨now, he⟩ := h.claimed_lease hc
  obtain ⟨record, x, hpres⟩ := present_of_event he
  obtain ⟨⟨hexec, hrev, hnode⟩, _⟩ := hpres.shown.claimed now lease he
  rw [node_key (cellOf_some hpres.cell).1] at hexec hrev hnode
  obtain ⟨c', p', executionID, planRevision, nodeID, _, _, hctx', hp', rfl, _⟩ := hc
  rw [hctx] at hctx'
  cases hctx'
  rw [hp] at hp'
  cases hp'
  unfold leaseKey
  rw [hexec, hrev, hnode]
  rfl

theorem mem_leasesOf (h : Event.claim now lease ∈ eventsOf calls k) : lease ∈ leasesOf calls k :=
  mem_filterMap.mpr ⟨_, h, rfl⟩

theorem ledger_start : Ledger [] (fun _ => none) (fun _ => []) := by
  refine ⟨?_, ?_, ?_⟩
  · intro i r x hm
    cases hm
  · rintro i j k lease lease' ⟨_, _, _, _, _, _, _, _, _, _, hm⟩
    cases hm
  · intro k e held hm
    cases hm

theorem Ledger.spawned {ctx' : Nat → Option Context} (h : Ledger calls ctx hist)
    (hctx : ∀ i, hist i ≠ [] → ctx' i = ctx i) : Ledger calls ctx' hist := by
  have hsame : ∀ {i : Nat} {e : Sigma Answer}, e ∈ hist i → ctx' i = ctx i := by
    intro i e he
    exact hctx i (ne_nil_of_mem he)
  have hclaim : ∀ {i k lease}, ClaimedAt ctx' hist i k lease → ClaimedAt ctx hist i k lease := by
    rintro i k lease ⟨c, p, a1, a2, a3, a4, a5, hc, hp, hk, hm⟩
    rw [hsame hm] at hc
    exact ⟨c, p, a1, a2, a3, a4, a5, hc, hp, hk, hm⟩
  refine ⟨?_, ?_, ?_⟩
  · intro i r x hm
    rw [hsame hm]
    exact h.recorded i r x hm
  · intro i j k lease lease' hi hj
    exact h.distinct i j k lease lease' (hclaim hi) (hclaim hj)
  · intro k e held he hh
    obtain ⟨i, c, p, now, r, a, hc, hp, hk, hm, hx⟩ := h.origin k e held he hh
    exact ⟨i, c, p, now, r, a, (hsame hm).trans hc, hp, hk, hm, hx⟩

/-- A call that presents no lease, made outside the workers. -/
theorem Ledger.outside (h : Ledger calls ctx hist) {c : Call} (hc : c.op.held = none) :
    Ledger (calls ++ [c]) ctx hist := by
  refine ⟨?_, h.distinct, ?_⟩
  · intro i r x hm
    obtain ⟨d, p, now, hd, hp, he⟩ := h.recorded i r x hm
    exact ⟨d, p, now, hd, hp, mem_eventsOf_snoc he⟩
  · intro k e held he hh
    rw [eventsOf_snoc] at he
    rcases mem_append.mp he with he | he
    · exact h.origin k e held he hh
    · obtain ⟨p, reply, _, _, _, hev⟩ := mem_eventsAt he
      obtain ⟨cctx, cnow, op⟩ := c
      cases op <;> cases hc <;> cases reply <;> cases hev <;> cases hh

def extend (hist : Histories) (i : Nat) (e : Sigma Answer) : Histories := fun j =>
  hist j ++ if i = j then [e] else []

theorem mem_extend {j : Nat} {e d : Sigma Answer} :
    d ∈ extend hist i e j ↔ d ∈ hist j ∨ (i = j ∧ d = e) := by
  unfold extend
  by_cases hij : i = j <;> simp [hij]

theorem claimedAt_extend {j : Nat} {e : Sigma Answer}
    (he : ∀ (r : Coordinate) (x : r.Result), e ≠ ⟨.coordinate r, .ok x⟩)
    (h : ClaimedAt ctx (extend hist i e) j k lease) : ClaimedAt ctx hist j k lease := by
  obtain ⟨c, p, a1, a2, a3, a4, a5, hc, hp, hk, hm⟩ := h
  rcases mem_extend.mp hm with hm | ⟨_, heq⟩
  · exact ⟨c, p, a1, a2, a3, a4, a5, hc, hp, hk, hm⟩
  · exact absurd heq.symm (he _ _)

/-- An entry that acknowledges nothing, with a store that at most grew by a
call whose lease-holding events this entry accounts for. -/
theorem Ledger.unacknowledged {calls' : List Call} (h : Ledger calls ctx hist) {e : Sigma Answer}
    (he : ∀ (r : Coordinate) (x : r.Result), e ≠ ⟨.coordinate r, .ok x⟩)
    (hold : ∀ k d, d ∈ eventsOf calls k → d ∈ eventsOf calls' k)
    (hnew : ∀ k d held, d ∈ eventsOf calls' k → d.held = some held → d ∈ eventsOf calls k ∨
      ∃ c p now r a, ctx i = some c ∧ scopedPrincipal c = .ok p ∧ Coordinate.key p r = k ∧
        e = ⟨.coordinate r, a⟩ ∧ ∀ x, r.event now x = d) :
    Ledger calls' ctx (extend hist i e) := by
  refine ⟨?_, ?_, ?_⟩
  · intro j r x hm
    rcases mem_extend.mp hm with hm | ⟨_, heq⟩
    · obtain ⟨c, p, now, hc, hp, hev⟩ := h.recorded j r x hm
      exact ⟨c, p, now, hc, hp, hold _ _ hev⟩
    · exact absurd heq.symm (he r x)
  · intro j j' k lease lease' hj hj'
    exact h.distinct j j' k lease lease' (claimedAt_extend he hj) (claimedAt_extend he hj')
  · intro k d held hd hh
    rcases hnew k d held hd hh with hd | ⟨c, p, now, r, a, hc, hp, hk, heq, hx⟩
    · obtain ⟨j, c, p, now, r, a, hc, hp, hk, hm, hx⟩ := h.origin k d held hd hh
      exact ⟨j, c, p, now, r, a, hc, hp, hk, mem_extend.mpr (.inl hm), hx⟩
    · exact ⟨i, c, p, now, r, a, hc, hp, hk, mem_extend.mpr (.inr ⟨rfl, heq.symm⟩), hx⟩

/-- The events of a coordinator call that needed a lease are its own. -/
theorem call_origin {ctx : Context} {tokenRand attemptRand : Option String} {r : Coordinate}
    {d : Event} {held : Time × NodeLease}
    (hd : d ∈ eventsOf (calls ++ [r.call ctx now tokenRand attemptRand]) k)
    (hh : d.held = some held) : d ∈ eventsOf calls k ∨
    ∃ p, scopedPrincipal ctx = .ok p ∧ r.key p = k ∧ ∀ x : r.Result, r.event now x = d := by
  rw [eventsOf_snoc] at hd
  rcases mem_append.mp hd with hd | hd
  · exact .inl hd
  · obtain ⟨p, reply, hp, hk, _, hev⟩ := mem_eventsAt hd
    rw [call_key] at hk
    exact .inr ⟨p, hp, hk, call_event_held hev hh⟩

section

variable {calls calls' : List Call} {ctx : Nat → Option Context} {i : Nat} {c : Context}
  {r : Coordinate} (h : Ledger calls ctx hist) (hc : ctx i = some c)

include h hc

theorem Ledger.failed {err : StoreError} (ha : Coordinated c calls r (.error err) calls') :
    Ledger calls' ctx (extend hist i ⟨.coordinate r, .error err⟩) := by
  obtain ⟨now, tokenRand, attemptRand, hcalls⟩ := ha
  have hne : ∀ (r' : Coordinate) (x : r'.Result),
      (⟨.coordinate r, .error err⟩ : Sigma Answer) ≠ ⟨.coordinate r', .ok x⟩ := by
    intro r' x heq
    cases heq
  rcases hcalls with rfl | rfl
  · exact h.unacknowledged hne (fun _ _ hd => hd) (fun _ _ _ hd _ => .inl hd)
  refine h.unacknowledged hne (fun _ _ => mem_eventsOf_snoc) ?_
  intro k d held hd hh
  rcases call_origin hd hh with hd | ⟨p, hp, hk, hx⟩
  · exact .inl hd
  · exact .inr ⟨c, p, now, r, _, hc, hp, hk, rfl, hx⟩

theorem Ledger.acknowledged {x : r.Result} (ha : Coordinated c calls r (.ok x) calls') :
    Ledger calls' ctx (extend hist i ⟨.coordinate r, .ok x⟩) := by
  obtain ⟨now, tokenRand, attemptRand, hr, rfl⟩ := ha
  obtain ⟨p, hp⟩ := scope_of_ok hr
  have hat : eventsAt (after calls) (r.call c now tokenRand attemptRand) (r.key p) =
      [r.event now x] := by
    have hat := eventsAt_ok hp hr (call_event x)
    rwa [call_key] at hat
  refine ⟨?_, ?_, ?_⟩
  · intro j r' x' hm
    rcases mem_extend.mp hm with hm | ⟨rfl, heq⟩
    · obtain ⟨c', p', now', hc', hp', hev⟩ := h.recorded j r' x' hm
      exact ⟨c', p', now', hc', hp', mem_eventsOf_snoc hev⟩
    · cases heq
      refine ⟨c, p, now, hc, hp, ?_⟩
      rw [eventsOf_snoc, hat]
      exact mem_concat_self
  · have hsplit : ∀ {j k lease}, ClaimedAt ctx (extend hist i ⟨.coordinate r, .ok x⟩) j k lease →
        ClaimedAt ctx hist j k lease ∨
          (j = i ∧ k = r.key p ∧ r.event now x = .claim now lease) := by
      rintro j k lease ⟨c', p', a1, a2, a3, a4, a5, hc', hp', hk, hm⟩
      rcases mem_extend.mp hm with hm | ⟨rfl, heq⟩
      · exact .inl ⟨c', p', a1, a2, a3, a4, a5, hc', hp', hk, hm⟩
      cases heq
      rw [hc] at hc'
      cases hc'
      have hpp : scopedPrincipal c = .ok p := hp
      rw [hpp] at hp'
      cases hp'
      exact .inr ⟨rfl, hk.symm, rfl⟩
    have hfence : ∀ {j k lease lease'}, ClaimedAt ctx hist j k lease → k = r.key p →
        r.event now x = .claim now lease' → lease.fence < lease'.fence := by
      intro j k lease lease' hj hk he
      subst hk
      obtain ⟨now', hold⟩ := h.claimed_lease hj
      exact claim_fence (hat.trans (by rw [he])) lease (mem_leasesOf hold)
    intro j j' k lease lease' hj hj' heq
    rcases hsplit hj with hold | ⟨hji, hk, he⟩
    · rcases hsplit hj' with hold' | ⟨_, hk', he'⟩
      · exact h.distinct j j' k lease lease' hold hold' heq
      · have hlt := hfence hold hk' he'
        omega
    · rcases hsplit hj' with hold' | ⟨hji', _, he'⟩
      · have hlt := hfence hold' hk he
        omega
      · rw [he] at he'
        cases he'
        exact ⟨hji.trans hji'.symm, rfl⟩
  · intro k d held hd hh
    rcases call_origin hd hh with hd | ⟨p', hp', hk, hx⟩
    · obtain ⟨j, c', p'', now', r', a, hc', hp'', hk, hm, hx⟩ := h.origin k d held hd hh
      exact ⟨j, c', p'', now', r', a, hc', hp'', hk, mem_extend.mpr (.inl hm), hx⟩
    · exact ⟨i, c, p', now, r, _, hc, hp', hk, mem_extend.mpr (.inr ⟨rfl, rfl⟩), hx⟩

theorem Ledger.coordinated {a : Except StoreError r.Result} (ha : Coordinated c calls r a calls') :
    Ledger calls' ctx (extend hist i ⟨.coordinate r, a⟩) := by
  cases a with
  | error err => exact h.failed hc ha
  | ok x => exact h.acknowledged hc ha

end

/-- The coordinator answers from the store; budget and target answer anything. -/
def answers (ctx : Context) (calls : List Call) : (q : Request) → Answer q → List Call → Prop
  | .coordinate r, a, calls' => Coordinated ctx calls r a calls'
  | .reserve .., _, calls' => calls' = calls
  | .settle .., _, calls' => calls' = calls
  | .release .., _, calls' => calls' = calls
  | .invoke .., _, calls' => calls' = calls

theorem Ledger.answered {calls' : List Call} (h : Ledger calls ctx hist) {c : Context} {q : Request}
    {a : Answer q} (hc : ctx i = some c) (ha : answers c calls q a calls') :
    Ledger calls' ctx (extend hist i ⟨q, a⟩) := by
  have hother : calls' = calls →
      (∀ (r : Coordinate) (x : r.Result), (⟨q, a⟩ : Sigma Answer) ≠ ⟨.coordinate r, .ok x⟩) →
      Ledger calls' ctx (extend hist i ⟨q, a⟩) := by
    intro hcalls hne
    rw [hcalls]
    exact h.unacknowledged hne (fun _ _ hd => hd) (fun _ _ _ hd _ => .inl hd)
  cases q with
  | coordinate r => exact h.coordinated hc ha
  | reserve => exact hother ha (fun r x he => by cases he)
  | settle => exact hother ha (fun r x he => by cases he)
  | release => exact hother ha (fun r x he => by cases he)
  | invoke => exact hother ha (fun r x he => by cases he)

end AiCloud.Worker
