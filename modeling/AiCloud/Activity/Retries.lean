import AiCloud.Activity.Selection
import Mathlib.Data.List.Perm.Subperm

/-!
# How often a plan node is invoked

A run invokes its target at most once, under a claim of its own that was not
released. Claims come from the registration, from releases, from requeues and from
takeovers of expired leases. Requeues stay below the limit of the plan as long as
the attempts a run listed are still all attempts when it requeues.
-/
namespace AiCloud.Activity

open Lib Execution Identity Tasks Lineage NodeLease Worker System List

/-- Execution, plan revision and node a request is about. -/
def Request.names : Request → Option (String × Int × String)
  | .listAttempts executionID planRevision nodeID => some (executionID, planRevision, nodeID)
  | .requeueFailed executionID planRevision nodeID => some (executionID, planRevision, nodeID)
  | .worker (.coordinate (.claim executionID planRevision nodeID _ _)) =>
    some (executionID, planRevision, nodeID)
  | .worker (.invoke execution node _) => some (execution.id, execution.planRef.revision, node.id)
  | _ => none

def Request.lists : Request → Bool
  | .listAttempts .. => true
  | _ => false

def Request.requeues : Request → Bool
  | .requeueFailed .. => true
  | _ => false

def Request.claims : Request → Bool
  | .worker (.coordinate (.claim ..)) => true
  | _ => false

def Request.invokes : Request → Bool
  | .worker q => isInvoke q
  | _ => false

/-- The node a request of a run is about, in the scope of the run. -/
def Job.key (θ : Job) (q : Request) : Option NodeKey :=
  match scopedPrincipal θ.ctx, q.names with
  | .ok p, some (executionID, planRevision, nodeID) =>
    some (nodeKey p executionID planRevision nodeID)
  | _, _ => none

variable (s : ActivitySystem)

/-- The node an entry of the log is about. -/
def keyAt (x : Nat × Sigma Answer) : Option NodeKey :=
  (s.job x.1).bind (fun θ => θ.key x.2.1)

/-- How often the target was invoked for a node, over the whole run. -/
def invocations (k : NodeKey) : Nat :=
  s.log.countP (fun x => x.2.1.invokes && decide (keyAt s x = some k))

/-- Nobody asks for a claim of the node between a run's listing of its attempts and
the requeue of that run. -/
def Undisturbed (k : NodeKey) : Prop :=
  ∀ pre mid post i listed requeued, s.log = pre ++ (i, listed) :: mid ++ (i, requeued) :: post →
    listed.1.lists = true → requeued.1.requeues = true → keyAt s (i, listed) = some k →
    keyAt s (i, requeued) = some k → ∀ x ∈ mid, x.2.1.claims = true → keyAt s x ≠ some k

/-- The runs follow one another: nobody asks anything after a later run began to ask. -/
def Sequential : Prop := (s.log.map Prod.fst).Pairwise (· ≤ ·)

variable {θ : Job} {q : Request}

theorem key_some {k : NodeKey} (h : θ.key q = some k) :
    ∃ p executionID planRevision nodeID, scopedPrincipal θ.ctx = .ok p ∧
      q.names = some (executionID, planRevision, nodeID) ∧
      nodeKey p executionID planRevision nodeID = k := by
  unfold Job.key at h
  split at h
  · rename_i p executionID planRevision nodeID hp hn
    exact ⟨p, executionID, planRevision, nodeID, hp, hn, Option.some.inj h⟩
  · cases h

variable {p : Principal}

theorem key_of {executionID : String} {planRevision : Int} {nodeID : String}
    (hp : scopedPrincipal θ.ctx = .ok p) (hn : q.names = some (executionID, planRevision, nodeID)) :
    θ.key q = some (nodeKey p executionID planRevision nodeID) := by
  unfold Job.key
  rw [hp, hn]

section Reached

variable {codec : Codec} {encoding : Encoding} {s : ActivitySystem} {k : NodeKey}

theorem log_job (h : Reachable codec encoding s) {x : Nat × Sigma Answer} (hx : x ∈ s.log) :
    x.1 < s.threads.length :=
  h.lt_of_history (ne_nil_of_mem (mem_history.mpr hx))

variable {i : Nat}

theorem keyAt_job (hj : s.job i = some θ) (e : Sigma Answer) : keyAt s (i, e) = θ.key e.1 := by
  unfold keyAt
  rw [hj, Option.bind_some]

theorem keyAt_spawn (h : Reachable codec encoding s) (θ : Job)
    (p : Prog Request Answer (Except ActivityError Unit)) {x : Nat × Sigma Answer}
    (hx : x ∈ s.log) : keyAt (s.spawn θ p) x = keyAt s x := by
  unfold keyAt
  rw [job_spawn_of_lt s θ p (log_job h hx)]

theorem keyAt_advance {a : Answer q} {p p' : Prog Request Answer (Except ActivityError Unit)}
    {t : World} (hi : s.threads[i]? = some (θ, p)) (x : Nat × Sigma Answer) :
    keyAt (s.advance i θ q a p' t) x = keyAt s x := by
  unfold keyAt
  rw [job_advance s q a p' t hi]

/-- What holds of a longer log held of the shorter one. -/
theorem Undisturbed.earlier {s' : ActivitySystem} (h : Undisturbed s' k)
    {rest : List (Nat × Sigma Answer)}
    (hlog : s'.log = s.log ++ rest) (hkey : ∀ x ∈ s.log, keyAt s' x = keyAt s x) :
    Undisturbed s k := by
  intro pre mid post i listed requeued heq hl hr hk hk' x hx hc
  have hmem : ∀ y, y ∈ pre ++ (i, listed) :: mid ++ (i, requeued) :: post → y ∈ s.log := by
    intro y hy
    rw [heq]
    exact hy
  rw [← hkey (i, listed) (hmem _ (by simp))] at hk
  rw [← hkey (i, requeued) (hmem _ (by simp))] at hk'
  rw [← hkey x (hmem _ (by simp [hx]))]
  exact h pre mid (post ++ rest) i listed requeued (by rw [hlog, heq]; simp) hl hr hk hk' x hx hc

/-- A run asks for no claim before it requeues, so runs that follow one another
leave each other undisturbed. -/
theorem undisturbed_of_sequential (h : Reachable codec encoding s) (hs : Sequential s)
    (k : NodeKey) : Undisturbed s k := by
  rintro pre mid post i listed requeued heq hl hr _ _ ⟨j, e⟩ hx hc -
  obtain rfl : j = i := by
    unfold Sequential at hs
    rw [heq] at hs
    simp only [map_append, map_cons, pairwise_append, pairwise_cons,
      mem_append, mem_cons, mem_map] at hs
    have hle : i ≤ j := hs.1.2.1.1 j ⟨(j, e), hx, rfl⟩
    have hge : j ≤ i := hs.2.2 j (.inr (.inr ⟨(j, e), hx, rfl⟩)) i (.inl rfl)
    omega
  have hlog : (j, requeued) ∈ s.log := by
    rw [heq]
    simp
  obtain ⟨θ, hj⟩ : ∃ θ, s.job j = some θ := by
    have hlt := log_job h hlog
    exact ⟨_, by rw [job, getElem?_eq_getElem hlt]; rfl⟩
  obtain ⟨before, rest, hsplit, hbefore⟩ := history_split heq
  have hclean := (reachable_lawful h hj) before requeued rest hsplit
  have hmem : e ∈ before := (hbefore e).mpr (by simp [hx])
  obtain ⟨q, a⟩ := requeued
  cases q <;> cases hr
  have hnil : workerPart before = [] := hclean.1
  obtain ⟨q, a⟩ := e
  cases q with
  | worker q =>
    have hw := mem_workerPart.mpr hmem
    rw [hnil] at hw
    cases hw
  | _ => cases hc

/-- A request adds one event at most to a node, and it is the event of its own call. -/
theorem answers_event {w w' : World} {a : Answer q} (h : answers codec θ w q a w') (k : NodeKey) :
    eventsOf w'.nodes k = eventsOf w.nodes k ∨
      ∃ e p reply, ∃ c : NodeLease.Call, eventsOf w'.nodes k = eventsOf w.nodes k ++ [e] ∧
        scopedPrincipal θ.ctx = .ok p ∧ Asks q c.op ∧ c.key p = k ∧ c.event reply = some e := by
  rcases answers_call h with hsame | ⟨c, hc, hctx, hop⟩
  · exact .inl (by rw [hsame])
  rw [hc, eventsOf_snoc]
  cases hat : eventsAt (NodeLease.after w.nodes) c k with
  | nil => exact .inl (append_nil _)
  | cons e rest =>
    obtain ⟨p, reply, hp, hk, hr, hev⟩ :=
      mem_eventsAt (show e ∈ eventsAt (NodeLease.after w.nodes) c k by rw [hat]; simp)
    have hone := eventsAt_ok hp hr hev
    rw [hk, hat] at hone
    rw [hone]
    exact .inr ⟨e, p, reply, c, rfl, hctx ▸ hp, hop, hk, hev⟩

/-- An event of a node comes from a request for that node; a claim and a requeue come from
requests for them. -/
theorem event_asked {c : NodeLease.Call} {reply : NodeLease.Reply} {e : Event}
    (hp : scopedPrincipal θ.ctx = .ok p) (hop : Asks q c.op) (hk : c.key p = k)
    (he : c.event reply = some e) : (e.claimed ≠ none → q.claims = true ∧ θ.key q = some k) ∧
    (∀ now, e = .requeueFailed now → q.requeues = true ∧ θ.key q = some k) := by
  obtain ⟨ctx, now, op⟩ := c
  cases q with
  | register record =>
    obtain rfl : op = _ := hop
    cases reply <;> cases he
  | requeueFailed =>
    obtain rfl : op = _ := hop
    cases reply <;> cases he <;>
      exact ⟨absurd rfl, fun _ _ => ⟨rfl, (key_of hp rfl).trans (congrArg some hk)⟩⟩
  | worker q =>
    cases q with
    | coordinate r =>
      obtain ⟨tokenRand, attemptRand, rfl⟩ := hop
      cases r with
      | claim =>
        refine ⟨fun _ => ⟨rfl, (key_of hp rfl).trans (congrArg some hk)⟩, ?_⟩
        rintro now rfl
        cases reply <;> cases he
      | startAttempt | markEffectStarted | markEffectCommitted | releaseBeforeEffect | complete =>
        cases reply <;> cases he <;> exact ⟨absurd rfl, fun _ hr => (by cases hr)⟩
    | _ => exact absurd hop id
  | _ => exact absurd hop id

theorem answers_claims {w w' : World} {a : Answer q} (h : answers codec θ w q a w') (k : NodeKey) :
    NodeLease.claims (eventsOf w'.nodes k) = NodeLease.claims (eventsOf w.nodes k) ∨
      (q.claims = true ∧ θ.key q = some k) := by
  rcases answers_event h k with hsame | ⟨e, p, reply, c, hadd, hp, hop, hk, hev⟩
  · exact .inl (by rw [hsame])
  · cases hc : e.claimed with
    | none => exact .inl (by rw [hadd, claims_snoc, hc]; rfl)
    | some lease => exact .inr ((event_asked hp hop hk hev).1 (by rw [hc]; simp))

theorem registered_new (h : Reachable codec encoding s) {record : NodeRuntimeRecord}
    (hr : Registered s.shared.nodes k record) :
    record.state = .ready ∧ record.attemptNumber = 0 := by
  obtain ⟨_, _, _, _, _, _, _, _, _, rfl, _⟩ := node_origin h hr
  exact ⟨rfl, rfl⟩

/-- The last attempt a run was told counts all claims until somebody claims the node again. -/
def Listed (s : ActivitySystem) (k : NodeKey) : Prop :=
  ∀ pre post i executionID planRevision nodeID attempts latest,
    s.log = pre ++ (i, ⟨.listAttempts executionID planRevision nodeID, .ok attempts⟩) :: post →
    keyAt s (i, ⟨.listAttempts executionID planRevision nodeID, .ok attempts⟩) = some k →
    attempts.getLast? = some latest → (∀ x ∈ post, x.2.1.claims = true → keyAt s x ≠ some k) →
    (NodeLease.claims (eventsOf s.shared.nodes k) : Int) ≤ latest.attemptNumber

variable {θ : Job}

section

variable (h : Reachable codec encoding s)

include h

theorem listing_claims {executionID : String} {planRevision : Int}
    {nodeID : String} {attempts : List AttemptRow} {latest : AttemptRow} {db' : NodeLease.Db}
    (hl : listAttempts θ.ctx executionID planRevision nodeID (NodeLease.after s.shared.nodes) =
      .ok (attempts, db'))
    (hk : θ.key (.listAttempts executionID planRevision nodeID) = some k)
    (hlast : attempts.getLast? = some latest) :
    (NodeLease.claims (eventsOf s.shared.nodes k) : Int) ≤ latest.attemptNumber := by
  obtain ⟨p, hp, rfl⟩ := listAttempts_ok hl
  rw [key_of hp rfl] at hk
  obtain rfl := Option.some.inj hk
  have hm : latest ∈ (NodeLease.after s.shared.nodes).attemptsOf
      (nodeKey p executionID planRevision nodeID) :=
    mem_mergeSort.mp (mem_of_getLast? hlast)
  obtain ⟨record, c, hpres⟩ := present_of_attempt hm
  obtain ⟨hready, hbase⟩ := registered_new h ((hpres.registered record).mpr rfl)
  exact listed_claims hpres hready (by omega) hlast

theorem reachable_listed (k : NodeKey) : Listed s k := by
  induction h with
  | start =>
    intro pre post i executionID planRevision nodeID attempts latest heq
    simp at heq
  | @next s s' hr hs ih =>
    intro pre post i executionID planRevision nodeID attempts latest heq hk hlast hno
    cases hs with
    | spawn θ =>
      have hmem : ∀ x ∈ pre ++ (i, ⟨.listAttempts executionID planRevision nodeID,
          .ok attempts⟩) :: post, x ∈ s.log := fun x hx => (show s.log = _ from heq) ▸ hx
      refine ih pre post i executionID planRevision nodeID attempts latest heq ?_ hlast ?_
      · rw [← keyAt_spawn hr θ (body encoding θ) (hmem _ (by simp))]
        exact hk
      · intro x hx hc
        rw [← keyAt_spawn hr θ (body encoding θ) (hmem x (by simp [hx]))]
        exact hno x hx hc
    | env t ht =>
      change (NodeLease.claims (eventsOf t.nodes k) : Int) ≤ latest.attemptNumber
      rw [environment_nodes ht]
      exact ih pre post i executionID planRevision nodeID attempts latest heq hk hlast hno
    | run j θ q cont a t hi ha =>
      simp only [keyAt_advance hi] at hk hno
      change (NodeLease.claims (eventsOf t.nodes k) : Int) ≤ latest.attemptNumber
      have hat := keyAt_job (job_of_thread hi)
      rcases snoc_eq_split.mp heq with ⟨_, _, hnew⟩ | ⟨post', rfl, hold⟩
      · cases hnew
        obtain ⟨hread, rfl⟩ := ha
        obtain ⟨db', hl⟩ := hread attempts rfl
        rw [hat] at hk
        exact listing_claims hr hl hk hlast
      · rcases answers_claims ha k with hsame | ⟨hc, hkey⟩
        · rw [hsame]
          exact ih pre post' i executionID planRevision nodeID attempts latest hold hk hlast
            (fun x hx => hno x (mem_append_left _ hx))
        · refine absurd ?_ (hno (j, ⟨q, a⟩) (by simp) hc)
          rw [hat]
          exact hkey

/-- Some run requeues the node in the name of a plan node that allows more attempts. -/
def Allows (encoding : Encoding) (s : ActivitySystem) (k : NodeKey) (attempts : Int) : Prop :=
  ∃ i θ task binding plan node item p, s.job i = some θ ∧
    Executing encoding θ (s.history i) task binding plan node item ∧
    scopedPrincipal θ.ctx = .ok p ∧ nodeKey p item.id item.planRef.revision node.id = k ∧
    attempts < maxAttempts node

/-- Every requeue of the node was allowed by some plan node. -/
def RequeuesAllowed (encoding : Encoding) (s : ActivitySystem) (k : NodeKey) : Prop :=
  ∀ pre now post, eventsOf s.shared.nodes k = pre ++ .requeueFailed now :: post →
    Allows encoding s k (NodeLease.claims pre)

omit h in
theorem Allows.later {s' : ActivitySystem} {n : Int} (h : Allows encoding s k n)
    (hjob : ∀ i θ, s.job i = some θ → s'.job i = some θ)
    (hist : ∀ i, s.history i ⊆ s'.history i) : Allows encoding s' k n := by
  obtain ⟨i, θ, task, binding, plan, node, item, p, hj, he, hp, hk, hn⟩ := h
  exact ⟨i, θ, task, binding, plan, node, item, p, hjob i θ hj, he.mono (hist i), hp, hk, hn⟩

/-- The run that requeues was told of fewer attempts than its plan allows, and nobody
claimed the node since. -/
theorem requeue_allowed {q : Request}
    {cont : Answer q → Prog Request Answer (Except ActivityError Unit)} {a : Answer q} {t : World}
    (hi : s.threads[i]? = some (θ, .ask q cont)) (ha : answers codec θ s.shared q a t)
    (hq : q.requeues = true) (hk : θ.key q = some k)
    (hu : Undisturbed (s.advance i θ q a (cont a) t) k) :
    Allows encoding s k (NodeLease.claims (eventsOf s.shared.nodes k)) := by
  have hj := job_of_thread hi
  have hj' : (s.advance i θ q a (cont a) t).job i = some θ :=
    (job_advance s q a (cont a) t hi i).trans hj
  have hlaw := reachable_lawful (h.next (.run s i θ q cont a t hi ha)) hj'
  rw [history_advance_self] at hlaw
  have hallowed := hlaw.init.2
  cases q <;> cases hq
  obtain ⟨_, task, binding, plan, node, item, he, ⟨rfl, rfl, rfl⟩, attempts, latest, hlast, hlt,
    hlisted⟩ := hallowed
  obtain ⟨p, _, _, _, hp, hn, hkey⟩ := key_some hk
  cases hn
  refine ⟨i, θ, task, binding, plan, node, item, p, hj, he, hp, hkey, ?_⟩
  obtain ⟨pre, post, hlog⟩ := append_of_mem (mem_history.mp hlisted)
  have hat : keyAt s (i, ⟨.listAttempts item.id item.planRef.revision node.id, .ok attempts⟩) =
      some k := by
    rw [keyAt_job hj, ← hkey]
    exact key_of hp rfl
  have hclaims := reachable_listed h k pre post i _ _ _ attempts latest hlog hat hlast ?_
  · omega
  intro x hx hc
  rw [← keyAt_advance hi]
  refine hu pre post [] i ⟨.listAttempts item.id item.planRef.revision node.id, .ok attempts⟩
    ⟨.requeueFailed item.id item.planRef.revision node.id, a⟩ ?_ rfl rfl ?_ ?_ x hx hc
  · unfold advance
    rw [hlog]
  · rw [keyAt_advance hi]
    exact hat
  · rw [keyAt_advance hi, keyAt_job hj]
    exact hk

theorem reachable_requeues (hu : Undisturbed s k) : RequeuesAllowed encoding s k := by
  induction h with
  | start =>
    intro pre now post heq
    change [] = _ at heq
    simp at heq
  | @next s s' hr hs ih =>
    cases hs with
    | spawn θ =>
      have hlog : (s.spawn θ (body encoding θ)).log = s.log ++ [] := (append_nil _).symm
      have hold := ih (hu.earlier hlog (fun x hx => keyAt_spawn hr θ (body encoding θ) hx))
      intro pre now post heq
      refine (hold pre now post heq).later ?_ (fun _ _ hm => hm)
      intro i θ' hj
      exact (job_spawn_of_lt s θ _ (lt_of_job hj)).trans hj
    | env t ht =>
      have hold := ih hu
      intro pre now post heq
      change eventsOf t.nodes k = _ at heq
      rw [environment_nodes ht] at heq
      exact (hold pre now post heq).later (fun _ _ hj => hj) (fun _ _ hm => hm)
    | run j θ q cont a t hi ha =>
      have hold := ih (hu.earlier rfl (fun x _ => keyAt_advance hi x))
      have hlater : ∀ n, Allows encoding s k n →
          Allows encoding (s.advance j θ q a (cont a) t) k n := by
        intro n hn
        refine hn.later (fun i θ' hj => (job_advance s q a (cont a) t hi i).trans hj) ?_
        intro i d hd
        rw [history_advance]
        exact mem_append_left _ hd
      intro pre now post heq
      change eventsOf t.nodes k = _ at heq
      rcases answers_event ha k with hsame | ⟨e, p, reply, c, hadd, hp, hop, hk, hev⟩
      · rw [hsame] at heq
        exact hlater _ (hold pre now post heq)
      · rw [hadd] at heq
        rcases snoc_eq_split.mp heq with ⟨_, rfl, rfl⟩ | ⟨post', rfl, hpast⟩
        · obtain ⟨hq, hkey⟩ := (event_asked hp hop hk hev).2 _ rfl
          exact hlater _ (requeue_allowed hr hi ha hq hkey hu)
        · exact hlater _ (hold pre now post' hpast)

omit h in
theorem countP_invokes (hist : History) :
    hist.countP (fun e => e.1.invokes) = (workerPart hist).countP (fun e => isInvoke e.1) := by
  unfold workerPart
  rw [countP_filterMap]
  apply countP_congr
  rintro ⟨q, a⟩ _
  cases q <;> simp [workerEntry, Request.invokes]

theorem run_invokes_once (i : Nat) : (s.history i).countP (fun e => e.1.invokes) ≤ 1 := by
  rw [countP_invokes]
  by_cases hne : workerPart (s.history i) = []
  · rw [hne]
    simp
  · obtain ⟨e, he⟩ := exists_mem_of_ne_nil _ hne
    have hm : (⟨.worker e.1, e.2⟩ : Sigma Answer) ∈ s.history i := mem_workerPart.mp he
    have hlt := log_job h (mem_history.mp hm)
    have hj : s.job i = some s.threads[i].1 := by
      rw [job, getElem?_eq_getElem hlt]
      rfl
    obtain ⟨_, _, _, _, _, _, _, _, hlaw⟩ := worker_lawful (reachable_lawful h hj) hne
    exact invokes_once hlaw

/-- Whoever invokes the target for a node holds a lease of it. -/
theorem invoke_holder {e : Sigma Answer} (he : (i, e) ∈ s.log)
    (hi : e.1.invokes = true) (hk : keyAt s (i, e) = some k) :
    ∃ θ item candidate lease, Holder s k i θ item candidate lease ∧
      ∃ d ∈ workerHistories s i, isInvoke d.1 = true := by
  obtain ⟨θ, hj, hkey⟩ := Option.bind_eq_some_iff.mp hk
  obtain ⟨q, a⟩ := e
  cases q with
  | worker q =>
    have hm : (⟨q, a⟩ : Sigma Worker.Answer) ∈ workerHistories s i :=
      mem_workerPart.mpr (mem_history.mpr he)
    obtain ⟨task, binding, plan, node, item, candidate, _, _, hlaw⟩ :=
      worker_lawful (reachable_lawful h hj) (ne_nil_of_mem hm)
    obtain ⟨lease, hc, _, _⟩ := invoke_lease hlaw hm hi
    refine ⟨θ, item, candidate, lease, ⟨hj, ?_, hc, hlaw⟩, _, hm, hi⟩
    obtain ⟨p, _, _, _, hp, hn, rfl⟩ := key_some hkey
    obtain ⟨pre, post, _, ha⟩ := hlaw.mem hm
    cases q with
    | invoke execution node target =>
      obtain ⟨⟨hexec, hnode, _⟩, _⟩ := ha
      cases hn
      unfold Worker.Job.node
      rw [show scopedPrincipal (θ.workerJob item candidate).ctx = .ok p from hp, hexec, hnode]
    | _ => cases hi
  | _ => cases hi

end

variable {lease : NodeLease}

section

variable (h : Reachable codec encoding s)

include h

/-- Whoever releases a node holds the lease it releases. -/
theorem release_holder {now : Time}
    (he : .releaseBeforeEffect now lease ∈ eventsOf s.shared.nodes k) :
    ∃ i θ item candidate, Holder s k i θ item candidate lease ∧
      ∃ d ∈ workerHistories s i, d.1 = .coordinate (.releaseBeforeEffect lease) := by
  obtain ⟨i, θ, task, binding, plan, node, item, candidate, now', p, r, a, hj, _, _, hlaw, hp, hkey,
    hm, hevent⟩ := held_origin h he rfl
  cases r with
  | releaseBeforeEffect lease' =>
    injection hevent () with _ hlease
    subst hlease
    obtain ⟨pre, post, hsplit, hc, _⟩ := hlaw.mem hm
    have hc : Claimed (θ.workerJob item candidate) (workerHistories s i) lease' := by
      rw [hsplit]
      exact mem_append_left _ hc
    exact ⟨i, θ, item, candidate, holder_of_claim h hj hlaw hp hkey hc, _, hm, rfl⟩
  | claim => cases hevent lease
  | startAttempt => cases hevent (AttemptRow.pending k "" 0 0 "" "" now)
  | markEffectStarted => cases hevent ()
  | markEffectCommitted => cases hevent ()
  | complete => cases hevent ()

theorem holder_unique {j : Nat} {θ' : Job} {item item' : Execution}
    {candidate candidate' : PreparedNode} {lease' : NodeLease}
    (hh : Holder s k i θ item candidate lease) (hh' : Holder s k j θ' item' candidate' lease')
    (hf : lease.fence = lease'.fence) : i = j :=
  (reachable_ledger h).same_run (context_of hh.job) (context_of hh'.job) hh.node hh'.node hh.claimed
    hh'.claimed hf

theorem holder_lease {item : Execution} {candidate : PreparedNode}
    (hh : Holder s k i θ item candidate lease) : lease ∈ leasesOf s.shared.nodes k := by
  obtain ⟨now, he⟩ := (reachable_ledger h).claimed_lease
    (claimedAt_of (context_of hh.job) hh.node hh.claimed)
  exact mem_leasesOf he

/-- The runs that invoked the target for a node. -/
def invokers (s : ActivitySystem) (k : NodeKey) : List Nat :=
  (s.log.filter (fun x => x.2.1.invokes && decide (keyAt s x = some k))).map Prod.fst

theorem invokers_nodup (k : NodeKey) : (invokers s k).Nodup := by
  rw [nodup_iff_count_le_one]
  intro i
  refine Nat.le_trans ?_ (run_invokes_once h i)
  unfold invokers history
  rw [count, countP_map, countP_filter, countP_filterMap]
  apply countP_mono_left
  rintro ⟨j, e⟩ _ hp
  simp only [Function.comp_apply, Bool.and_eq_true, beq_iff_eq] at hp
  obtain ⟨rfl, hinv, _⟩ := hp
  simpa using hinv

/-- Every invocation and every release has a claim of its own. -/
theorem invocations_claims (k : NodeKey) : invocations s k + releases (eventsOf s.shared.nodes k) ≤
    NodeLease.claims (eventsOf s.shared.nodes k) := by
  have hinv : ∀ i ∈ invokers s k, ∃ fence : Int, ∃ θ item candidate lease,
      lease.fence = fence ∧ Holder s k i θ item candidate lease ∧
        ∃ d ∈ workerHistories s i, isInvoke d.1 = true := by
    intro i hi
    obtain ⟨⟨j, e⟩, hm, rfl⟩ := mem_map.mp hi
    obtain ⟨hlog, hp⟩ := mem_filter.mp hm
    simp only [Bool.and_eq_true, decide_eq_true_eq] at hp
    obtain ⟨θ, item, candidate, lease, hh, hd⟩ := invoke_holder h hlog hp.1 hp.2
    exact ⟨lease.fence, θ, item, candidate, lease, rfl, hh, hd⟩
  have hrel : ∀ lease ∈ (eventsOf s.shared.nodes k).filterMap Event.released,
      ∃ i θ item candidate, Holder s k i θ item candidate lease ∧
        ∃ d ∈ workerHistories s i, d.1 = .coordinate (.releaseBeforeEffect lease) := by
    intro lease hm
    obtain ⟨e, he, hr⟩ := mem_filterMap.mp hm
    cases e <;> cases hr
    exact release_holder h he
  choose! fenceOf hfence using hinv
  have hnodup : ((invokers s k).map fenceOf ++
      ((eventsOf s.shared.nodes k).filterMap Event.released).map NodeLease.fence).Nodup := by
    rw [nodup_append]
    refine ⟨?_, released_nodup s.shared.nodes k, ?_⟩
    · refine (invokers_nodup h k).map_on ?_
      intro i hi j hj heq
      obtain ⟨_, _, _, lease, hf, hh, _⟩ := hfence i hi
      obtain ⟨_, _, _, lease', hf', hh', _⟩ := hfence j hj
      exact holder_unique h hh hh' (hf.trans (heq.trans hf'.symm))
    · intro f hf f' hf' heq
      obtain ⟨i, hi, rfl⟩ := mem_map.mp hf
      obtain ⟨lease', hm, rfl⟩ := mem_map.mp hf'
      obtain ⟨_, _, _, lease, hfl, hh, d, hd, hinvoke⟩ := hfence i hi
      obtain ⟨j, _, _, _, hh', d', hd', hrelease⟩ := hrel lease' hm
      obtain rfl := holder_unique h hh hh' (hfl.trans heq)
      exact invoke_keeps hh.lawful hd hinvoke hd' hrelease
  have hsub : (invokers s k).map fenceOf ++
      ((eventsOf s.shared.nodes k).filterMap Event.released).map NodeLease.fence ⊆
      (leasesOf s.shared.nodes k).map NodeLease.fence := by
    intro f hf
    rcases mem_append.mp hf with hf | hf
    · obtain ⟨i, hi, rfl⟩ := mem_map.mp hf
      obtain ⟨_, _, _, lease, hfl, hh, _⟩ := hfence i hi
      exact mem_map.mpr ⟨lease, holder_lease h hh, hfl⟩
    · obtain ⟨lease, hm, rfl⟩ := mem_map.mp hf
      obtain ⟨_, _, _, _, hh, _⟩ := hrel lease hm
      exact mem_map_of_mem (holder_lease h hh)
  have hlen := (subperm_of_subset hnodup hsub).length_le
  simp only [length_append, length_map] at hlen
  unfold invocations
  rw [countP_eq_length_filter]
  unfold invokers at hlen
  rw [length_map] at hlen
  exact hlen

/-- The plan of the execution has this node. -/
def HasNode (w : World) (x : ExecutionRow) (node : ExecutionNode) : Prop :=
  x ∈ w.lineage.executions.rows ∧ ∃ row ∈ w.lineage.plans.rows, row.scope = x.scope ∧
    x.item.planRef = ⟨row.plan.id, row.plan.revision⟩ ∧ nodeByID row.plan node.id = .ok node

def planNodeKey (x : ExecutionRow) (node : ExecutionNode) : NodeKey :=
  ⟨x.scope.tenantID, x.scope.projectID, x.item.id, x.item.planRef.revision, node.id⟩

/-- A run that works on a plan node was told that very node. -/
theorem executing_node {x : ExecutionRow}
    {node node' : ExecutionNode} (hn : HasNode s.shared x node) {task : Task} {binding : Binding}
    {plan : ExecutionPlan} {item : Execution} (hj : s.job i = some θ)
    (he : Executing encoding θ (s.history i) task binding plan node' item)
    (hp : scopedPrincipal θ.ctx = .ok p)
    (hk : nodeKey p item.id item.planRef.revision node'.id = planNodeKey x node) :
    node' = node := by
  obtain ⟨hx, row, hrow, hscope, href, hfound⟩ := hn
  obtain ⟨htenant, hproject, hid, _, hnode⟩ := NodeKey.mk.inj hk
  have hs : scopeOf p = x.scope := by
    unfold scopeOf
    rw [htenant, hproject]
  obtain rfl : x = ⟨scopeOf p, item⟩ :=
    execution_unique hx (executing_stored h hj he hp) hs.symm hid.symm
  obtain ⟨p', taskID, hp', hplan⟩ := reachable_known h hj he.told_plan
  obtain rfl : p = p' := Except.ok.inj (hp.symm.trans hp')
  have hbinding : binding.plan = ⟨row.plan.id, row.plan.revision⟩ := he.planRef.symm.trans href
  have hsame : (⟨scopeOf p, taskID, plan⟩ : PlanRow) = row := by
    apply plan_unique hplan hrow hscope.symm
    · rw [show plan.id = binding.plan.planID from he.ref.1, hbinding]
    · rw [show plan.revision = binding.plan.revision from he.ref.2, hbinding]
  subst hsame
  have hfound' := he.found
  rw [← nodeByID_ok he.found, hnode] at hfound'
  exact Except.ok.inj (hfound'.symm.trans hfound)

end

theorem maxAttempts_eq (node : ExecutionNode) :
    maxAttempts node = max 1 node.retryPolicy.maxAttempts := by
  unfold maxAttempts
  split <;> omega

/-- As long as nobody claims a node between a run's listing of its attempts and its
requeue, the target is invoked for the node at most as often as the plan allows, and
once more for every takeover of an expired lease. -/
theorem invocations_bounded (codec : Codec) (encoding : Encoding) (s : ActivitySystem)
    (h : Reachable codec encoding s) (x : ExecutionRow) (node : ExecutionNode)
    (hn : HasNode s.shared x node) (hu : Undisturbed s (planNodeKey x node)) :
    (invocations s (planNodeKey x node) : Int) ≤ max 1 node.retryPolicy.maxAttempts +
      reclaims (eventsOf s.shared.nodes (planNodeKey x node)) := by
  have hle := invocations_claims h (planNodeKey x node)
  rcases tracked s.shared.nodes (planNodeKey x node) with habs | ⟨record, c, hpres⟩
  · rw [habs.events] at hle ⊢
    have hzero : NodeLease.claims [] = 0 := rfl
    omega
  · obtain ⟨hready, _⟩ := registered_new h ((hpres.registered record).mpr rfl)
    have hbelow : RequeuesBelow (maxAttempts node)
        (eventsOf s.shared.nodes (planNodeKey x node)) := by
      intro pre now post heq
      obtain ⟨i, θ, task, binding, plan, node', item, p, hj, he, hp, hk, hlt⟩ :=
        reachable_requeues h hu pre now post heq
      rwa [executing_node h hn hj he hp hk] at hlt
    have hmax := maxAttempts_eq node
    have hrequeues := hpres.requeues_lt hready (by omega) hbelow
    have hclaimed := (hpres.tallied hready).claimed
    have hspent : c.row.spent ≤ 1 := by
      unfold NodeRow.spent
      split <;> omega
    omega

end Reached

instance (w : World) (x : ExecutionRow) (node : ExecutionNode) : Decidable (HasNode w x node) :=
  inferInstanceAs (Decidable (_ ∧ ∃ row ∈ w.lineage.plans.rows, _))

instance : Decidable (Sequential s) :=
  inferInstanceAs (Decidable (Pairwise _ _))

def sampleExecution : ExecutionRow :=
  ⟨⟨"t", "p"⟩, ⟨"execution/task/plan@1/ecp-execute-v1", "task", "goal", ⟨"plan", 1⟩,
    ⟨"system:temporal-task-lifecycle", "t"⟩, .running, 25, 25⟩⟩

def sampleNodeKey : NodeKey := planNodeKey sampleExecution sampleNode

/-- The first run invokes the target and crashes; the second takes over and invokes it again. -/
theorem taken_over : ∃ s, Reachable frozenCodec sampleEncoding s ∧ Sequential s ∧
    HasNode s.shared sampleExecution sampleNode ∧ invocations s sampleNodeKey = 2 ∧
    reclaims (eventsOf s.shared.nodes sampleNodeKey) = 1 := by
  have hrun : (scheduled frozenCodec sampleEncoding takenOverMoves).map (fun s =>
      (decide (Sequential s), decide (HasNode s.shared sampleExecution sampleNode),
        invocations s sampleNodeKey, reclaims (eventsOf s.shared.nodes sampleNodeKey))) =
      some (true, true, 2, 1) := by
    decide +kernel
  obtain ⟨s, hs, hfacts⟩ := Option.map_eq_some_iff.mp hrun
  simp only [Prod.mk.injEq, decide_eq_true_eq] at hfacts
  exact ⟨s, scheduled_reachable hs, hfacts⟩

theorem invocations_bounded_taken_over :
    ∃ s, Reachable frozenCodec sampleEncoding s ∧ HasNode s.shared sampleExecution sampleNode ∧
      Undisturbed s sampleNodeKey ∧ invocations s sampleNodeKey = 2 ∧
      (invocations s sampleNodeKey : Int) ≤ max 1 sampleNode.retryPolicy.maxAttempts +
        reclaims (eventsOf s.shared.nodes sampleNodeKey) := by
  obtain ⟨s, hr, hseq, hn, htwo, _⟩ := taken_over
  have hu := undisturbed_of_sequential hr hseq sampleNodeKey
  exact ⟨s, hr, hn, hu, htwo,
    invocations_bounded frozenCodec sampleEncoding s hr sampleExecution sampleNode hn hu⟩

/-- The limit of the plan alone does not bound the invocations, not even of runs that
follow one another: a takeover does not look at it. -/
theorem plan_limit_exceeded :
    ¬ ∀ (codec : Codec) (encoding : Encoding) (s : ActivitySystem), Reachable codec encoding s →
      Sequential s → ∀ x node, HasNode s.shared x node →
        (invocations s (planNodeKey x node) : Int) ≤ max 1 node.retryPolicy.maxAttempts := by
  intro hall
  obtain ⟨s, hr, hseq, hn, htwo, _⟩ := taken_over
  have hle := hall frozenCodec sampleEncoding s hr hseq sampleExecution sampleNode hn
  change (invocations s sampleNodeKey : Int) ≤ max 1 1 at hle
  rw [htwo] at hle
  exact absurd hle (by decide)

end AiCloud.Activity
