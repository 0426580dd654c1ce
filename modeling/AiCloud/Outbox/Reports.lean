import AiCloud.Outbox.Leases

/-!
# Reports and attempts

A report is guarded by the owner name of the message's current lease, not by the
lease itself: a run whose lease was taken over by a run of the same name still
reports. The attempt limit is enforced when a failure is reported, so leases
that end without a report come on top of it.
-/
namespace AiCloud.Outbox

open Lib Text Identity Execution Tasks Workflow List

variable {codec : Codec} {unmarshalPayload : String → Option StartPayload} {s : DispatchSystem}

/-- The name the message's last lease was taken under. -/
def World.lastOwner (w : World) (outboxID : String) : Option String :=
  (w.takenOf outboxID).getLast?.map Taken.owner

variable {r : OutboxRow}

theorem reachable_lastOwner (h : Reachable codec unmarshalPayload s) {owner : String}
    (hr : r ∈ s.shared.rows) (howner : r.leaseOwner = some owner) :
    s.shared.lastOwner r.message.outboxID = some owner := by
  refine reach_messages (C := fun _ => True)
    (P := fun _ r ts => ∀ owner, r.leaseOwner = some owner →
      ts.getLast?.map Taken.owner = some owner)
    (fun _ _ hc => hc) (fun _ _ => commands_post) ?_ (fun _ _ _ _ _ hp => hp) ?_ h
    (fun _ _ _ => trivial) r hr owner howner
  · rintro _ _ ⟨m, rfl, hm⟩ owner howner
    cases howner
  · intro s i θ q k a w r r' ts _ _ _ _ _ hstep hold
    cases hstep with
    | kept q => exact hold
    | leased owner limit now leaseDuration status =>
      intro owner' howner
      rw [getLast?_concat]
      exact howner
    | delivered owner deliveredAt status held =>
      intro owner' howner
      cases howner
    | failed owner now nextAvailableAt maxAttempts reason availableAt status held =>
      intro owner' howner
      cases howner

/-- The message is out for delivery, leased last under the owner's name. -/
def CurrentLease (w : World) (outboxID owner : String) : Prop :=
  w.lastOwner outboxID = some owner ∧
    ∃ r ∈ w.rows, r.message.outboxID = outboxID ∧ r.message.status = .delivering

/-- A report that changes something only under the name of the current lease,
and is turned away as lost under any other. -/
def Guarded {α : Type} (w : World) (outboxID owner : String) (tx : OutboxTx α) : Prop :=
  ((report tx w).2 ≠ w → CurrentLease w outboxID owner) ∧
    (¬ CurrentLease w outboxID owner → report tx w = (.error .leaseLost, w))

variable {outboxID owner : String}

theorem guarded_of_lost {α : Type} {w : World} {tx : OutboxTx α}
    (h : ¬ CurrentLease w outboxID owner → tx w.db = .error .leaseLost) :
    Guarded w outboxID owner tx := by
  have hlost : ¬ CurrentLease w outboxID owner → report tx w = (.error .leaseLost, w) := by
    intro hc
    unfold report
    rw [h hc]
  refine ⟨?_, hlost⟩
  intro hchanged
  by_contra hc
  rw [hlost hc] at hchanged
  exact hchanged rfl

theorem not_held (h : Reachable codec unmarshalPayload s) {outboxID owner : String} {p : Principal}
    (hc : ¬ CurrentLease s.shared outboxID owner) :
    ∀ r ∈ s.shared.db.outbox.rows, ¬ Held p outboxID owner r := by
  rintro r hr ⟨⟨hid, _⟩, hst, howner⟩
  refine hc ⟨?_, r, hr, hid, hst⟩
  rw [← hid]
  exact reachable_lastOwner h hr howner

theorem Dispatcher.owner_named (d : Dispatcher) : ¬ Blank d.owner := by
  intro hb
  exact d.named (d.trimmed.symm.trans hb)

section

variable {i : Nat} {θ : Run} (h : Reachable codec unmarshalPayload s)

include h

theorem reachable_reportable {item : LeasedOutboxMessage} (hj : s.job i = some θ)
    (hl : Leased (s.history i) item) :
    (∃ p, scope θ.ctx = .ok p) ∧ 1 ≤ item.message.attempts ∧ ¬ Blank item.message.outboxID := by
  obtain ⟨hscope, hone, r, hr, hfixed, _⟩ := reachable_leased h hj hl
  refine ⟨hscope, hone, ?_⟩
  rw [← fixedColumns_outboxID hfixed]
  exact reachable_named h r hr

theorem clocked_pos {t : Time} (hj : s.job i = some θ) (hc : Clocked (s.history i) t) : 0 < t :=
  reachable_known h hj hc

theorem markDelivered_guarded {deliveredAt : Time}
    {k : Answer (.markDelivered outboxID owner deliveredAt) →
      DispatchProg (Except OutboxError Progress)}
    (hi : s.threads[i]? = some (θ, .ask (.markDelivered outboxID owner deliveredAt) k)) :
    Guarded s.shared outboxID θ.dispatcher.owner
      (markDelivered θ.ctx outboxID owner deliveredAt) := by
  obtain ⟨hj, rfl, hclock, item, hl, rfl, _⟩ := reachable_allowed h hi
  obtain ⟨⟨p, hp⟩, _, hnamed⟩ := reachable_reportable h hj hl
  have hpos := clocked_pos h hj hclock
  refine guarded_of_lost (fun hc => ?_)
  exact markDelivered_lost hnamed θ.dispatcher.owner_named (Int.ne_of_gt hpos) hp (not_held h hc)

theorem failDelivery_guarded {now nextAvailableAt : Time} {maxAttempts : Int} {reason : String}
    {k : Answer (.failDelivery outboxID owner now nextAvailableAt maxAttempts reason) →
      DispatchProg (Except OutboxError Progress)}
    (hi : s.threads[i]? = some (θ, .ask
      (.failDelivery outboxID owner now nextAvailableAt maxAttempts reason) k)) :
    Guarded s.shared outboxID θ.dispatcher.owner
      (failDelivery θ.ctx outboxID owner now nextAvailableAt maxAttempts reason) := by
  obtain ⟨hj, rfl, hclock, hnext, item, hl, rfl, hmax⟩ := reachable_allowed h hi
  obtain ⟨⟨p, hp⟩, hone, hnamed⟩ := reachable_reportable h hj hl
  have hpos := clocked_pos h hj hclock
  have hlimit : 1 ≤ maxAttempts := by
    rcases hmax with rfl | rfl
    · exact θ.dispatcher.positive.2.1
    · exact hone
  refine guarded_of_lost (fun hc => ?_)
  exact failDelivery_lost hnamed θ.dispatcher.owner_named (Int.ne_of_gt hpos)
    (Int.ne_of_gt (Int.lt_of_lt_of_le hpos hnext)) hlimit hp (not_held h hc)

end

/-- In every interleaving a run's report changes something only if the message's
current lease has the run's owner name; otherwise the lease is lost. -/
theorem report_needs_current_lease (codec : Codec) (unmarshalPayload : String → Option StartPayload)
    (s : DispatchSystem) (h : Reachable codec unmarshalPayload s) (i : Nat) (θ : Run)
    (hj : s.job i = some θ) : (∀ outboxID owner deliveredAt,
      s.asks i = some (.markDelivered outboxID owner deliveredAt) →
      Guarded s.shared outboxID θ.dispatcher.owner
        (markDelivered θ.ctx outboxID owner deliveredAt)) ∧
    (∀ outboxID owner now nextAvailableAt maxAttempts reason,
      s.asks i = some (.failDelivery outboxID owner now nextAvailableAt maxAttempts reason) →
      Guarded s.shared outboxID θ.dispatcher.owner
        (failDelivery θ.ctx outboxID owner now nextAvailableAt maxAttempts reason)) := by
  constructor
  · intro outboxID owner deliveredAt hq
    obtain ⟨k, hi⟩ := System.thread_of_asks hj hq
    exact markDelivered_guarded h hi
  · intro outboxID owner now nextAvailableAt maxAttempts reason hq
    obtain ⟨k, hi⟩ := System.thread_of_asks hj hq
    exact failDelivery_guarded h hi

/-- The leases of a message against the attempt limit: below it while the
message may still be retried, and above it only by leases that were reclaimed. -/
structure Limited (limit : Int) (r : OutboxRow) (ts : List Taken) : Prop where
  attempts : ts.length ≤ r.message.attempts
  pending : r.message.status = .pending → ts.length < limit
  bound : ts.length ≤ limit + ts.countP Taken.reclaimed

theorem limited_fresh {limit : Int} (hlimit : 1 ≤ limit) (hr : Fresh r) : Limited limit r [] := by
  obtain ⟨m, rfl, _, hattempts⟩ := hr
  refine ⟨hattempts, fun _ => ?_, ?_⟩
  · simp only [length_nil]
    omega
  · simp only [length_nil, countP_nil]
    omega

/-- A lease of a pending message stays within the limit; a reclaimed one counts
on both sides. -/
theorem Limited.leased {limit : Int} {r' : OutboxRow} {ts : List Taken} {owner : String}
    (h : Limited limit r ts) (hattempts : r'.message.attempts = r.message.attempts + 1)
    (hstatus : r'.message.status = .delivering)
    (hr : r.message.status = .pending ∨ r.message.status = .delivering) :
    Limited limit r' (ts ++ [⟨r.message.outboxID, owner,
      decide (r.message.status = .delivering)⟩]) := by
  obtain ⟨hold, hpending, hbound⟩ := h
  have hlength : ∀ t : Taken, (ts ++ [t]).length = ts.length + 1 := fun t => by simp
  refine ⟨?_, fun hst => ?_, ?_⟩
  · rw [hlength, hattempts]
    omega
  · rw [hstatus] at hst
    cases hst
  · rw [hlength, countP_append]
    rcases hr with hst | hst
    · have hlt := hpending hst
      omega
    · simp only [hst, decide_true, countP_singleton, if_true]
      omega

/-- A reported failure leaves a message pending only below the limit. -/
theorem Limited.released {limit maxAttempts : Int} {ts : List Taken} {availableAt : Time}
    {reason : String} (h : Limited limit r ts)
    (hmax : maxAttempts = limit ∨ maxAttempts ≤ r.message.attempts) :
    Limited limit (releaseRow (if maxAttempts ≤ r.message.attempts then .deadLetter else .pending)
      availableAt reason r) ts := by
  refine ⟨h.attempts, ?_, h.bound⟩
  intro hst
  have hold := h.attempts
  change (if maxAttempts ≤ r.message.attempts then OutboxStatus.deadLetter else .pending) =
    .pending at hst
  split at hst
  · cases hst
  · rcases hmax with rfl | hle <;> omega

theorem reachable_limited {d : Dispatcher} (h : Reachable codec unmarshalPayload s)
    (hsame : ∀ i θ, s.job i = some θ → θ.dispatcher.maxAttempts = d.maxAttempts) :
    ∀ r ∈ s.shared.rows, Limited d.maxAttempts r (s.shared.takenOf r.message.outboxID) := by
  refine reach_messages (C := fun θ => θ.dispatcher.maxAttempts = d.maxAttempts)
    (P := fun _ => Limited d.maxAttempts) (fun _ _ hc => hc) (fun _ _ => commands_post)
    (fun _ r => limited_fresh d.positive.2.1) (fun _ _ _ _ _ hp => hp) ?_ h hsame
  intro s i θ q k a w r r' ts hreach hi _ hmax hr hstep hold
  cases hstep with
  | kept q => exact hold
  | leased owner limit now leaseDuration status => exact hold.leased rfl rfl status
  | delivered owner deliveredAt status held =>
    refine ⟨hold.attempts, fun hst => ?_, hold.bound⟩
    cases hst
  | failed owner now nextAvailableAt maxAttempts reason availableAt status held =>
    obtain ⟨hj, _, _, _, item, hl, hid, hlimit⟩ := reachable_allowed hreach hi
    -- a message without an adapter was leased by the run, so its attempts only grew
    obtain ⟨_, _, r₀, hr₀, hfixed, hattempts⟩ := reachable_leased hreach hj hl
    obtain rfl : r₀ = r := row_unique hr₀ hr ((fixedColumns_outboxID hfixed).trans hid)
    refine hold.released ?_
    rcases hlimit with rfl | rfl
    · exact Or.inl hmax
    · exact Or.inr hattempts

/-- In every run of dispatchers with one attempt limit, a message is leased at most
that often, not counting the times an expired lease was reclaimed. Once it was
leased that often it is not pending again. -/
theorem leases_within_limit (codec : Codec) (unmarshalPayload : String → Option StartPayload)
    (d : Dispatcher) (s : DispatchSystem) (h : Reachable codec unmarshalPayload s)
    (hsame : ∀ i θ, s.job i = some θ → θ.dispatcher.maxAttempts = d.maxAttempts) (r : OutboxRow)
    (hr : r ∈ s.shared.rows) : (s.shared.takenOf r.message.outboxID).length ≤
      d.maxAttempts + (s.shared.takenOf r.message.outboxID).countP Taken.reclaimed ∧
    (d.maxAttempts ≤ (s.shared.takenOf r.message.outboxID).length →
      r.message.status = .delivering ∨ r.message.status = .delivered ∨
        r.message.status = .deadLetter) := by
  have hlimited := reachable_limited h hsame r hr
  refine ⟨hlimited.bound, ?_⟩
  intro hfull
  have hstatus := (s.shared.db.outbox.checked r hr).1.2
  simp only [mem_cons, not_mem_nil, or_false] at hstatus
  rcases hstatus with hst | hst
  · have hlt := hlimited.pending hst
    omega
  · exact hst

/-- The slow run is about to confirm the message that the second run holds. -/
theorem slow_reached : ∃ s θ, Reachable sampleCodec samplePayload s ∧ s.job 0 = some θ ∧
    lessees s "outbox-o" = [0, 1] ∧ s.threads.map (fun t => t.1.dispatcher.maxAttempts) = [1, 1] ∧
    s.asks 0 = some (.markDelivered "outbox-o" "w" 21) ∧ statuses s.shared = [.delivering] ∧
    statuses (report (markDelivered θ.ctx "outbox-o" "w" 21) s.shared).2 = [.delivered] ∧
    (s.shared.rows.map (fun r => r.message.outboxID) = ["outbox-o"] ∧
      (s.shared.takenOf "outbox-o").map Taken.reclaimed = [false, true]) := by
  have hview : (scheduled sampleCodec samplePayload slowMoves).any (fun s =>
      (s.job 0).map (fun θ => statuses (report (markDelivered θ.ctx "outbox-o" "w" 21)
        s.shared).2) = some [.delivered] ∧
      lessees s "outbox-o" = [0, 1] ∧
      s.threads.map (fun t => t.1.dispatcher.maxAttempts) = [1, 1] ∧
      s.asks 0 = some (.markDelivered "outbox-o" "w" 21) ∧ statuses s.shared = [.delivering] ∧
      s.shared.rows.map (fun r => r.message.outboxID) = ["outbox-o"] ∧
      (s.shared.takenOf "outbox-o").map Taken.reclaimed = [false, true]) = true := by
    decide +kernel
  obtain ⟨s, hreach, hjob, hlessees, hmax, hasks, hbefore, hids, htaken⟩ :=
    System.exists_schedule reply_answers change_commands hview
  obtain ⟨θ, hj, hafter⟩ := Option.map_eq_some_iff.mp hjob
  exact ⟨s, θ, hreach, hj, hlessees, hmax, hasks, hbefore, hafter, hids, htaken⟩

theorem report_needs_current_lease_slow :
    ∃ s θ, Reachable sampleCodec samplePayload s ∧ s.job 0 = some θ ∧
      s.asks 0 = some (.markDelivered "outbox-o" "w" 21) ∧
      Guarded s.shared "outbox-o" θ.dispatcher.owner (markDelivered θ.ctx "outbox-o" "w" 21) := by
  obtain ⟨s, θ, hs, hj, _, _, hasks, _⟩ := slow_reached
  refine ⟨s, θ, hs, hj, hasks, ?_⟩
  exact (report_needs_current_lease sampleCodec samplePayload s hs 0 θ hj).1 _ _ _ hasks

/-- Run 0 leased the message, run 1 leased it again, and run 0 still marks it
delivered. -/
theorem stale_run_reports :
    ∃ s θ, Reachable sampleCodec samplePayload s ∧ lessees s "outbox-o" = [0, 1] ∧
      s.job 0 = some θ ∧ s.asks 0 = some (.markDelivered "outbox-o" "w" 21) ∧
      statuses s.shared = [.delivering] ∧
      statuses (report (markDelivered θ.ctx "outbox-o" "w" 21) s.shared).2 = [.delivered] := by
  obtain ⟨s, θ, hs, hj, hlessees, _, hasks, hbefore, hafter, _⟩ := slow_reached
  exact ⟨s, θ, hs, hlessees, hj, hasks, hbefore, hafter⟩

theorem same_limit {s : DispatchSystem}
    (h : s.threads.map (fun t => t.1.dispatcher.maxAttempts) = [1, 1]) (i : Nat) (θ : Run)
    (hj : s.job i = some θ) : θ.dispatcher.maxAttempts = sampleDispatcher.maxAttempts := by
  obtain ⟨t, ht, rfl⟩ := Option.map_eq_some_iff.mp hj
  have hmem := mem_map_of_mem (f := fun t => t.1.dispatcher.maxAttempts) (mem_of_getElem? ht)
  rw [h] at hmem
  have hone : t.1.dispatcher.maxAttempts = 1 := by simpa using hmem
  exact hone

theorem leases_within_limit_slow :
    ∃ s : DispatchSystem, ∃ r ∈ s.shared.rows, Reachable sampleCodec samplePayload s ∧
      (s.shared.takenOf r.message.outboxID).length ≤ sampleDispatcher.maxAttempts +
          (s.shared.takenOf r.message.outboxID).countP Taken.reclaimed := by
  obtain ⟨s, θ, hs, _, _, hmax, _, _, _, hids, _⟩ := slow_reached
  obtain ⟨r, hr, _⟩ := mem_map.mp (hids ▸ mem_singleton_self _ :
    "outbox-o" ∈ s.shared.rows.map (fun r => r.message.outboxID))
  refine ⟨s, r, hr, hs, ?_⟩
  exact (leases_within_limit sampleCodec samplePayload sampleDispatcher s hs (same_limit hmax) r
    hr).1

/-- Dispatchers with a limit of one attempt lease a message twice. -/
theorem leased_beyond_limit : ∃ s, Reachable sampleCodec samplePayload s ∧
    (∀ i θ, s.job i = some θ → θ.dispatcher.maxAttempts = 1) ∧
    lessees s "outbox-o" = [0, 1] ∧ (s.shared.takenOf "outbox-o").length = 2 := by
  obtain ⟨s, θ, hs, _, hlessees, hmax, _, _, _, _, htaken⟩ := slow_reached
  refine ⟨s, hs, same_limit hmax, hlessees, ?_⟩
  have hlength := congrArg length htaken
  simpa using hlength

end AiCloud.Outbox
