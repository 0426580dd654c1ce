import AiCloud.Worker.Protocol

/-!
# Workers over the durable store

Any number of `Execute` runs interleave over the store, with registrations and
requeues in between. Their histories and the ledger give what holds in every
reachable system, whatever the collaborators answered and wherever runs crashed.
-/
namespace AiCloud.Worker

open Lib Execution NodeLease Identity System List Option

abbrev WorkerSystem := System (List Call) Job Request Answer Outcome

def body (θ : Job) : WorkerProg := execute θ.worker θ.execution θ.candidate

/-- Registrations and requeues by anyone, at any time. -/
def environment (calls calls' : List Call) : Prop :=
  ∃ c : Call, calls' = calls ++ [c] ∧ ((∃ record, c.op = .register record) ∨
      ∃ executionID planRevision nodeID, c.op = .requeueFailed executionID planRevision nodeID)

abbrev Reachable (s : WorkerSystem) : Prop :=
  Reach body (fun θ => answers θ.ctx) environment [] s

def contexts (s : WorkerSystem) (i : Nat) : Option Context := (s.job i).map Job.ctx

variable {s : WorkerSystem} {θ : Job}

theorem context_of {i : Nat} (hj : s.job i = some θ) : contexts s i = some θ.ctx := by
  rw [contexts, hj]
  rfl

theorem reachable_protocol (h : Reachable s) :
    Protocol allowed final s := h.protocol execute_conforms

theorem history_extend (s : WorkerSystem) (i : Nat) (θ : Job) (q : Request) (a : Answer q)
    (p : WorkerProg) (t : List Call) :
    (s.advance i θ q a p t).history = extend s.history i ⟨q, a⟩ := by
  funext j
  rw [history_advance]
  rfl

theorem reachable_ledger (h : Reachable s) : Ledger s.shared (contexts s) s.history := by
  induction h with
  | start => exact ledger_start
  | @next s s' hr hs ih =>
    cases hs with
    | spawn θ =>
      refine ih.spawned ?_
      intro i hne
      unfold contexts
      rw [job_spawn_of_lt s θ (body θ) (hr.lt_of_history hne)]
    | run i θ q k a t hi ha =>
      have hjob := job_of_thread hi
      have hctx : contexts (s.advance i θ q a (k a) t) = contexts s :=
        funext fun j => congrArg (Option.map Job.ctx) (job_advance s q a (k a) t hi j)
      rw [hctx, history_extend]
      exact ih.answered (context_of hjob) ha
    | env t ht =>
      obtain ⟨c, rfl, hc⟩ := ht
      refine ih.outside ?_
      rcases hc with ⟨record, hop⟩ | ⟨_, _, _, hop⟩
      · rw [hop]; rfl
      · rw [hop]; rfl

def invocations (s : WorkerSystem) (k : NodeKey) : Nat :=
  s.log.countP (fun x => isInvoke x.2.1 && decide ((s.job x.1).bind Job.node = some k))

variable {k : NodeKey}

/-- If all invocations of a node come from one run, there is at most one. -/
theorem invocations_le_one (h : Reachable s)
    (hone : ∀ i j e e' θ θ', (i, e) ∈ s.log → (j, e') ∈ s.log → isInvoke e.1 = true →
      isInvoke e'.1 = true → s.job i = some θ → s.job j = some θ' → θ.node = some k →
        θ'.node = some k → i = j) :
    invocations s k ≤ 1 := by
  by_contra hgt
  have hpos : 0 < invocations s k := by omega
  obtain ⟨⟨i, e⟩, hm, hp⟩ := countP_pos_iff.mp hpos
  simp only [Bool.and_eq_true, decide_eq_true_eq, bind_eq_some_iff] at hp
  obtain ⟨he, θ, hj, hk⟩ := hp
  have hle : invocations s k ≤ (s.history i).countP (fun e => isInvoke e.1) := by
    unfold invocations history
    rw [countP_filterMap]
    apply countP_mono_left
    rintro ⟨j, e'⟩ hm' hp'
    simp only [Bool.and_eq_true, decide_eq_true_eq, bind_eq_some_iff] at hp'
    obtain ⟨he', θ', hj', hk'⟩ := hp'
    have hij := hone i j e e' θ θ' hm hm' he he' hj hj' hk hk'
    subst hij
    simpa using he'
  have hone := invokes_once ((reachable_protocol h).lawful i θ hj)
  omega

def sampleJob : Job where
  ctx := some samplePrincipal
  worker := ⟨"w", 10, true⟩
  execution := ⟨"e", "task", "goal", ⟨"plan", 1⟩, ⟨"", ""⟩, .running, 1, 1⟩
  candidate := ⟨⟨"n", .tool, [], ⟨1, []⟩, ⟨.nonIdempotentMutation, "key", false⟩⟩,
    ⟨"target", 1, .tool, ⟨"digest"⟩⟩, ⟨"policy", "v", "", 0, "", .allow⟩, ⟨0, 1, 0, 1⟩⟩

/-- The attempt `StartAttempt` returns to the sample run. -/
def sampleAttempt : AttemptRow :=
  { AttemptRow.pending sampleKey "att_b" 1 1 "w" "key" 2 with
    status := .running, targetID := some "target", targetRevision := some 1
    targetSnapshotDigest := some "digest", policyDecisionID := some "policy"
    budgetReservationID := some "budget", startedAt := some 3, updatedAt := 3 }

def sampleInvocation : InvocationResult := ⟨Usage.zero, [], .committed⟩

def sampleRequests : List (Sigma Answer) :=
  [⟨.coordinate sampleJob.claim, .ok sampleLease⟩,
    ⟨.reserve "attempt/att_b" "e" "n" ⟨0, 1, 0, 1⟩, .ok ⟨"budget"⟩⟩,
    ⟨.coordinate (.startAttempt sampleLease sampleBinding), .ok sampleAttempt⟩,
    ⟨.coordinate (.markEffectStarted sampleLease), .ok ()⟩,
    ⟨.invoke sampleJob.execution sampleJob.candidate.node sampleJob.candidate.target,
      (sampleInvocation, none)⟩, ⟨.settle "budget" ⟨0, 1, 0, 1⟩, .ok ()⟩,
    ⟨.coordinate (.markEffectCommitted sampleLease), .ok ()⟩,
    ⟨.coordinate (.complete sampleLease .succeeded ⟨.succeeded, "", Usage.zero⟩), .ok ()⟩]

def sampleSystem : WorkerSystem where
  shared := committedEffectRun ++ [leaseCall 6 (.complete sampleLease .succeeded
    ⟨.succeeded, "", Usage.zero⟩)]
  threads := [(sampleJob, .ret (⟨some sampleLease, "budget", sampleInvocation⟩, []))]
  log := sampleRequests.map (fun e => (0, e))

section

variable {s : WorkerSystem} {i : Nat} {θ : Job}

theorem reachable_coordinate (h : Reachable s) {r : Coordinate}
    {k : Answer (.coordinate r) → WorkerProg}
    (hi : s.threads[i]? = some (θ, .ask (.coordinate r) k)) (x : r.Result) (now : Time)
    (tokenRand attemptRand : Option String)
    (hx : (exec (after s.shared) (r.call θ.ctx now tokenRand attemptRand)).1 = .ok (r.reply x)) :
    Reachable (s.advance i θ (.coordinate r) (.ok x) (k (.ok x))
      (s.shared ++ [r.call θ.ctx now tokenRand attemptRand])) :=
  h.next (.run s i θ _ k _ _ hi ⟨now, tokenRand, attemptRand, hx, rfl⟩)

theorem reachable_elsewhere (h : Reachable s) {q : Request} {k : Answer q → WorkerProg}
    (hi : s.threads[i]? = some (θ, .ask q k)) (a : Answer q)
    (ha : answers θ.ctx s.shared q a s.shared) : Reachable (s.advance i θ q a (k a) s.shared) :=
  h.next (.run s i θ q k a _ hi ha)

end

/-- The mutation is about to invoke its target. -/
def startedSystem : WorkerSystem where
  shared := startedEffectRun
  threads := [(sampleJob, invokeAndFinish sampleLease sampleJob.execution sampleJob.candidate
    ⟨"budget"⟩ true)]
  log := (sampleRequests.take 4).map (fun e => (0, e))

theorem started_reachable : Reachable startedSystem := by
  have h1 : Reachable ⟨[registerCall .nonIdempotentMutation false], [], []⟩ :=
    .next .start (.env _ _ ⟨_, rfl, .inl ⟨_, rfl⟩⟩)
  have h2 := h1.next (.spawn _ sampleJob)
  have h3 := reachable_coordinate (i := 0) h2 rfl sampleLease 2 (some "a") (some "b")
    (by decide)
  have h4 := reachable_elsewhere (i := 0) h3 rfl (.ok ⟨"budget"⟩) rfl
  have h5 := reachable_coordinate (i := 0) h4 rfl sampleAttempt 3 none none (by decide)
  exact reachable_coordinate (i := 0) h5 rfl () 4 none none (by decide)

theorem sample_reachable : Reachable sampleSystem := by
  have h1 := reachable_elsewhere (i := 0) started_reachable rfl (sampleInvocation, none) rfl
  have h2 := reachable_elsewhere (i := 0) h1 rfl (.ok ()) rfl
  have h3 := reachable_coordinate (i := 0) h2 rfl () 5 none none (by decide)
  exact reachable_coordinate (i := 0) h3 rfl () 6 none none (by decide)

/-- A registered non-idempotent mutation is not retry-safe. -/
theorem nonIdempotent_guard {calls : List Call} {record : NodeRuntimeRecord} {c : Cell}
    (h : Present calls (after calls) k record c)
    (hclass : record.effectClass = .nonIdempotentMutation) :
    isMutation c.row.effectClass ∧ c.row.retrySafe = false := by
  have heff : c.row.effectClass = .nonIdempotentMutation := h.registered_columns.1.trans hclass
  have hcheck := node_check (cellOf_some h.cell).1
  refine ⟨by rw [heff]; decide, ?_⟩
  rcases hcheck.2.2.2.2.2.2.1 with hne | hsafe
  · exact absurd heff hne
  · exact hsafe

/-- A run that invoked a mutation has its effect started on the attempt of its lease. -/
theorem invoked_started (h : Reachable s) {i : Nat} {record : NodeRuntimeRecord} {c : Cell}
    (hpres : Present s.shared (after s.shared) k record c) (hj : s.job i = some θ)
    (hk : θ.node = some k) (hm : θ.mutation) {e : Sigma Answer} (he : e ∈ s.history i)
    (hi : isInvoke e.1 = true) : ∃ lease, Claimed θ (s.history i) lease ∧
    ∃ a ∈ c.attempts, OfLease lease a ∧ a.effectStartedAt ≠ none := by
  obtain ⟨lease, hc, _, heff⟩ := invoke_lease ((reachable_protocol h).lawful i θ hj) he hi
  obtain ⟨now, hev⟩ := (reachable_ledger h).acked_event (context_of hj) hk hc (heff hm)
    (fun _ => rfl)
  exact ⟨lease, hc, hpres.shown.started now lease hev⟩

/-- However workers, requeues, errors and crashes interleave, the target of a
non-idempotent mutation is invoked at most once, and one attempt at most ever
has its effect started. -/
theorem nonIdempotent_invoked_once (s : WorkerSystem) (h : Reachable s) (k : NodeKey)
    (record : NodeRuntimeRecord) (hr : Registered s.shared k record)
    (hclass : record.effectClass = .nonIdempotentMutation)
    (hcand : ∀ i θ, s.job i = some θ → θ.node = some k →
      θ.candidate.node.effect.effectClass = record.effectClass) : invocations s k ≤ 1 ∧
    ∃ number, ∀ pre post, s.shared = pre ++ post → ∀ a ∈ (after pre).attemptsOf k,
      a.effectStartedAt ≠ none → a.attemptNumber = number := by
  obtain ⟨c, hpres⟩ := present_of_registered hr
  obtain ⟨hm, hsafe⟩ := nonIdempotent_guard hpres hclass
  have hmut : ∀ i θ, s.job i = some θ → θ.node = some k → θ.mutation := by
    intro i θ hj hk
    have heff := hcand i θ hj hk
    rw [hclass] at heff
    unfold Job.mutation
    rw [heff]
    decide
  constructor
  · apply invocations_le_one h
    intro i j e e' θ θ' hm₁ hm₂ he he' hj hj' hk hk'
    obtain ⟨lease, hc, a, ha, hl, hs⟩ :=
      invoked_started h hpres hj hk (hmut i θ hj hk) (mem_history.mpr hm₁) he
    obtain ⟨lease', hc', a', ha', hl', hs'⟩ :=
      invoked_started h hpres hj' hk' (hmut j θ' hj' hk') (mem_history.mpr hm₂) he'
    have hlast := hpres.effectGuard.started_last hm hsafe ha hs
    have hlast' := hpres.effectGuard.started_last hm hsafe ha' hs'
    have haa : a = a' := some.inj (hlast.symm.trans hlast')
    subst haa
    exact (reachable_ledger h).same_run (context_of hj) (context_of hj') hk hk' hc hc'
      (hl.2.1.symm.trans hl'.2.1)
  · refine ⟨c.row.attemptNumber, ?_⟩
    intro pre post heq a ha hs
    rw [heq] at hpres
    obtain ⟨record', c', hpres'⟩ := present_of_attempt ha
    rw [(cellOf_some hpres'.cell).2] at ha
    obtain ⟨x, hx, a', ha', he⟩ := attempt_kept post hpres' ha
    have hxc : x = c := some.inj (hx.cell.symm.trans hpres.cell)
    subst hxc
    have hs' : a'.effectStartedAt ≠ none := by rw [he.started hs]; exact hs
    have hlast := hpres.effectGuard.started_last hm hsafe ha' hs'
    have hcoupled := hpres.coupled
    obtain ⟨row, past, last⟩ := x
    obtain rfl : last = some a' := hlast
    exact he.attemptNumber.symm.trans hcoupled.last_number.1

theorem nonIdempotent_invoked_once_sample : invocations sampleSystem sampleKey = 1 ∧
    invocations sampleSystem sampleKey ≤ 1 ∧
      ∃ number, ∀ pre post, sampleSystem.shared = pre ++ post →
        ∀ a ∈ (after pre).attemptsOf sampleKey, a.effectStartedAt ≠ none →
          a.attemptNumber = number :=
  ⟨by decide, nonIdempotent_invoked_once sampleSystem sample_reachable sampleKey
    (sampleRecord .nonIdempotentMutation false)
    (sample_registered .nonIdempotentMutation false _ (by decide)) rfl (by
      intro i θ hj _
      have hlt : i < 1 := lt_of_job hj
      obtain rfl : i = 0 := by omega
      cases hj
      rfl)⟩

/-- What justified closing an attempt as failed still holds at any later time:
nothing is invoked after a completion was asked. -/
theorem failed_notApplied {h : History} (hl : Prog.Lawful (allowed θ) h) {lease : NodeLease}
    {completion : AttemptCompletion} {a : Except StoreError Unit}
    (he : (⟨.coordinate (.complete lease .failed completion), a⟩ : Sigma Answer) ∈ h) :
    Claimed θ h lease ∧ (θ.mutation → NotApplied h) := by
  obtain ⟨pre, post, rfl, hc, hn⟩ := hl.mem he
  refine ⟨mem_append_left _ hc, fun hm => ?_⟩
  rcases hn hm rfl with hnone | ⟨result, err, ⟨execution, node, target, hinv⟩, hd⟩
  · refine Or.inl ?_
    rintro result err ⟨execution, node, target, hinv⟩
    rcases mem_append.mp hinv with hpre | hpost
    · exact hnone result err ⟨execution, node, target, hpre⟩
    rcases mem_cons.mp hpost with heq | hpost
    · cases heq
    obtain ⟨mid, rest, rfl⟩ := append_of_mem hpost
    have ha := hl (pre ++ ⟨.coordinate (.complete lease .failed completion), a⟩ :: mid)
      ⟨.invoke execution node target, (result, err)⟩ rest (by simp)
    exact ha.2.1 ⟨.coordinate (.complete lease .failed completion), a⟩ (by simp) trivial
  · exact Or.inr ⟨result, err, ⟨execution, node, target, mem_append_left _ hinv⟩, hd⟩

/-- The run of a node that holds the lease of an attempt. -/
def Owner (s : WorkerSystem) (k : NodeKey) (a : AttemptRow) (i : Nat) (θ : Job)
    (lease : NodeLease) : Prop :=
  s.job i = some θ ∧ θ.node = some k ∧ Claimed θ (s.history i) lease ∧ OfLease lease a

theorem owner_unique (h : Reachable s) {a : AttemptRow} {i j : Nat} {θ' : Job}
    {lease lease' : NodeLease} (ho : Owner s k a i θ lease) (ho' : Owner s k a j θ' lease') :
    j = i :=
  (reachable_ledger h).same_run (context_of ho'.1) (context_of ho.1) ho'.2.1 ho.2.1 ho'.2.2.1
    ho.2.2.1 (ho'.2.2.2.2.1.symm.trans ho.2.2.2.2.1)

theorem failed_owner (h : Reachable s) {a : AttemptRow} (ha : a ∈ (after s.shared).attemptsOf k)
    (hf : a.status = .failed) :
    ∃ i θ lease, Owner s k a i θ lease ∧ (θ.mutation → NotApplied (s.history i)) := by
  have hl := reachable_ledger h
  obtain ⟨record, c, hpres⟩ := present_of_attempt ha
  rw [(cellOf_some hpres.cell).2] at ha
  obtain ⟨now, lease, completion, he, hof⟩ := hpres.shown.failed a ha hf
  obtain ⟨i, ctx, p, now', r, x, hctx, hp, hkey, hm, hev⟩ := hl.origin k _ _ he rfl
  obtain ⟨θ, hj, rfl⟩ := map_eq_some_iff.mp hctx
  cases r with
  | complete lease' terminal completion' =>
    have hev := hev ()
    injection hev with _ hlease hterm hcomp
    subst hlease hterm hcomp
    obtain ⟨hc, hn⟩ := failed_notApplied ((reachable_protocol h).lawful i θ hj) hm
    obtain ⟨p', k', hp', hk', hkey'⟩ := hl.claimed_node (context_of hj) hc
    obtain rfl : p = p' := Except.ok.inj (hp.symm.trans hp')
    obtain rfl : k' = k := hkey'.symm.trans hkey
    exact ⟨i, θ, lease', ⟨hj, hk', hc, hof⟩, hn⟩
  | claim executionID planRevision nodeID owner leaseDuration => cases hev lease
  | startAttempt lease' binding => cases hev a
  | markEffectStarted lease' => cases hev ()
  | markEffectCommitted lease' => cases hev ()
  | releaseBeforeEffect lease' => cases hev ()

/-- The node is succeeded by the attempt of this lease. -/
def SucceededBy (db : Db) (k : NodeKey) (lease : NodeLease) (mutation : Prop) : Prop :=
  ∃ row a, db.node k = some row ∧ row.state = .succeeded ∧
    (db.attemptsOf k).getLast? = some a ∧ OfLease lease a ∧ a.status = .succeeded ∧
    (mutation ∨ isMutation row.effectClass → a.effectCommittedAt ≠ none)

theorem returned_succeeded (h : Reachable s) {i : Nat} {outcome : Outcome}
    (hi : s.threads[i]? = some (θ, .ret outcome)) (hnil : outcome.2 = []) :
    ∃ k lease, outcome.1.lease = some lease ∧ θ.node = some k ∧
      Claimed θ (s.history i) lease ∧ SucceededBy (after s.shared) k lease θ.mutation := by
  have hj := job_of_thread hi
  obtain ⟨lease, hlease, hc, ⟨completion, hdone⟩, hcom⟩ :=
    (reachable_protocol h).conforms i θ _ hi hnil
  have hl := reachable_ledger h
  obtain ⟨p, k, hp, hk, hkey⟩ := hl.claimed_node (context_of hj) hc
  obtain ⟨now, he⟩ := hl.acked_event (context_of hj) hk hc hdone (fun _ => rfl)
  obtain ⟨record, c, hpres⟩ := present_of_event he
  obtain ⟨hstate, a, hlast, hof, hst⟩ := hpres.shown.succeeded now lease completion he
  obtain ⟨hnode, hattempts⟩ := cellOf_some hpres.cell
  have hcoupled := hpres.coupled
  have hsuccess := hpres.committedSuccess
  have hshown := hpres.shown
  obtain ⟨row, past, last⟩ := c
  obtain rfl : last = some a := hlast
  refine ⟨k, lease, hlease, hk, hc, row, a, hnode, hstate, ?_, hof, hst, ?_⟩
  · rw [hattempts]
    simp [Cell.attempts]
  · intro hm
    rcases hm with hm | hm
    · obtain ⟨now', he'⟩ := hl.acked_event (context_of hj) hk hc (hcom hm) (fun _ => rfl)
      obtain ⟨b, hb, hofb, hne⟩ := hshown.committed now' lease he'
      rcases mem_append.mp hb with hpast | hb
      · have hlt := hcoupled.last_number.2.2 b hpast
        have hn := hcoupled.last_number.1
        have hab : a.attemptNumber = b.attemptNumber := hof.2.2.trans hofb.2.2.symm
        omega
      · obtain rfl : a = b := some.inj (mem_toList.mp hb)
        exact hne
    · exact hsuccess hm a (by simp [Cell.attempts]) hst

/-- Every failed attempt belongs to one run. If the node is registered as a mutation and the
run's candidate carries the registered class, the run never invoked the target or was told
NOT_APPLIED with an error. Every run that returned no error left its node succeeded by the
attempt of its own lease. -/
theorem worker_outcome_honest (s : WorkerSystem) (h : Reachable s) :
    (∀ k row, (after s.shared).node k = some row → isMutation row.effectClass →
      ∀ a ∈ (after s.shared).attemptsOf k, a.status = .failed →
        ∃ i θ lease, Owner s k a i θ lease ∧
          (θ.candidate.node.effect.effectClass = row.effectClass → NotApplied (s.history i)) ∧
          ∀ j θ' lease', Owner s k a j θ' lease' → j = i) ∧
    ∀ i θ outcome, s.threads[i]? = some (θ, .ret outcome) → outcome.2 = [] →
      ∃ k lease, outcome.1.lease = some lease ∧ θ.node = some k ∧
        Claimed θ (s.history i) lease ∧ SucceededBy (after s.shared) k lease θ.mutation := by
  refine ⟨?_, fun i θ outcome hi => returned_succeeded h hi⟩
  intro k row _ hm a ha hf
  obtain ⟨i, θ, lease, ho, hn⟩ := failed_owner h ha hf
  refine ⟨i, θ, lease, ho, fun hclass => hn ?_, fun j θ' lease' => owner_unique h ho⟩
  unfold Job.mutation
  rwa [hclass]

/-- The candidate of the sample run says that the node only reads. -/
def readOnlyJob : Job :=
  { sampleJob with candidate := { sampleJob.candidate with
    node := { sampleJob.candidate.node with effect := ⟨.readOnly, "", false⟩ } } }

/-- The only run is of the node registered as a mutation, an attempt of which failed, although
the target was invoked, with an error beside what it did. -/
structure FailedRun (s : WorkerSystem) (θ : Job) (disposition : EffectDisposition) : Prop where
  reachable : Reachable s
  only : s.threads.map Prod.fst = [θ]
  registered : ((after s.shared).node sampleKey).map NodeRow.effectClass =
    some .nonIdempotentMutation
  failed : .failed ∈ ((after s.shared).attemptsOf sampleKey).map AttemptRow.status
  invoked : invocations s sampleKey = 1
  told : ∃ err, Invoked (s.history 0) ⟨Usage.zero, [], disposition⟩ (some err)

theorem notApplied_failed : ∃ s, FailedRun s sampleJob .notApplied := by
  have h1 := reachable_elsewhere (i := 0) started_reachable rfl
    (⟨Usage.zero, [], .notApplied⟩, some ⟨none, true, false⟩) rfl
  have h2 := reachable_elsewhere (i := 0) h1 rfl (.ok ()) rfl
  have h3 := reachable_coordinate (i := 0) h2 rfl () 6 none none (by decide)
  exact ⟨_, h3, rfl, by decide, by decide, by decide, _, _, _, _,
    mem_history.mpr (mem_append_left _ (mem_append_left _ (mem_append_right _ mem_cons_self)))⟩

/-- What the target did is unknown, and the attempt is closed as failed. -/
theorem readOnly_candidate_failed : ∃ s, FailedRun s readOnlyJob .unknown := by
  have h1 : Reachable ⟨[registerCall .nonIdempotentMutation false], [], []⟩ :=
    .next .start (.env _ _ ⟨_, rfl, .inl ⟨_, rfl⟩⟩)
  have h2 := h1.next (.spawn _ readOnlyJob)
  have h3 := reachable_coordinate (i := 0) h2 rfl sampleLease 2 (some "a") (some "b")
    (by decide)
  have h4 := reachable_elsewhere (i := 0) h3 rfl (.ok ⟨"budget"⟩) rfl
  have h5 := reachable_coordinate (i := 0) h4 rfl sampleAttempt 3 none none (by decide)
  have h6 := reachable_elsewhere (i := 0) h5 rfl
    (⟨Usage.zero, [], .unknown⟩, some ⟨none, true, false⟩) rfl
  have h7 := reachable_elsewhere (i := 0) h6 rfl (.ok ()) rfl
  have h8 := reachable_coordinate (i := 0) h7 rfl () 6 none none (by decide)
  exact ⟨_, h8, rfl, by decide, by decide, by decide, _, _, _, _,
    mem_history.mpr (mem_append_left _ (mem_append_left _ (mem_append_right _ mem_cons_self)))⟩

theorem worker_outcome_honest_sample :
    (∃ s i, FailedRun s sampleJob .notApplied ∧ NotApplied (s.history i)) ∧
    ∃ k lease, (some sampleLease : Option NodeLease) = some lease ∧ sampleJob.node = some k ∧
      Claimed sampleJob (sampleSystem.history 0) lease ∧
      SucceededBy (after sampleSystem.shared) k lease sampleJob.mutation := by
  refine ⟨?_, (worker_outcome_honest sampleSystem sample_reachable).2 0 sampleJob
    (⟨some sampleLease, "budget", sampleInvocation⟩, []) rfl rfl⟩
  obtain ⟨s, hs⟩ := notApplied_failed
  obtain ⟨row, hrow, hclass⟩ := map_eq_some_iff.mp hs.registered
  obtain ⟨a, ha, hfailed⟩ := mem_map.mp hs.failed
  obtain ⟨i, θ, lease, ⟨hjob, -⟩, hnot, -⟩ := (worker_outcome_honest s hs.reachable).1 sampleKey row
    hrow (by rw [hclass]; decide) a ha hfailed
  rw [job, ← getElem?_map, hs.only] at hjob
  obtain rfl := mem_singleton.mp (mem_of_getElem? hjob)
  exact ⟨s, i, hs, hnot hclass.symm⟩

end AiCloud.Worker
