import AiCloud.ControlPlane.RouteSystem
import AiCloud.Lib.Rely

/-!
# One route command among its duplicates

A call relies on the others to plan and route the task at most once, and
guarantees the same. What it returns is said under the assumption that the
record of the command will hold some decision.
-/
namespace AiCloud.ControlPlane

open Lib Text Identity Execution Tasks Tx Prog List

abbrev RouteHistory := List (Sigma RouteAnswer)

/-- Neither a database failure nor a failure to plan a route. -/
def smooth : Sigma RouteAnswer → Bool
  | ⟨.resolveIdempotency _, .error (.database _)⟩ => false
  | ⟨.getTask _, .error (.database _)⟩ => false
  | ⟨.commitTransition _, .error (.database _)⟩ => false
  | ⟨.plan _, .error _⟩ => false
  | ⟨.commitRouteTransition _, .error (.database _)⟩ => false
  | _ => true

/-- The decision of a route commit that was not a replay. -/
def routedBy : Sigma RouteAnswer → Option RouteDecision
  | ⟨.commitRouteTransition _, .ok r⟩ => if r.replayed then none else r.decision
  | _ => none

def readBy : Sigma RouteAnswer → Option Task
  | ⟨.getTask _, .ok task⟩ => some task
  | _ => none

/-- The tasks a call read, in order. -/
def reads (h : RouteHistory) : List Task := h.filterMap readBy

/-- The call read the task again and found it in ROUTING. -/
def rereadRouting (h : RouteHistory) : Bool := ((reads h)[1]?).any (fun t => t.status = .routing)

/-- `encoding/json` marshals maps of texts and numbers to valid JSON. -/
structure RouteEncoding.Lawful (enc : RouteEncoding) (codec : Codec) : Prop where
  planning : ∀ transition, ∃ text, enc.planningPayload transition = some text ∧
    text ≠ "" ∧ codec.valid text = true
  routed : ∀ transition decision request, ∃ text,
    enc.routedPayload transition decision request = some text ∧ text ≠ "" ∧ codec.valid text = true

theorem reads_snoc {h : RouteHistory} {e : Sigma RouteAnswer} (he : readBy e = none) :
    reads (h ++ [e]) = reads h := by
  unfold reads
  rw [filterMap_append]
  simp [he]

variable {task : Task} {id : String}

theorem reads_read {h : RouteHistory} :
    reads (h ++ [⟨.getTask id, .ok task⟩]) = reads h ++ [task] := by
  unfold reads
  rw [filterMap_append]
  rfl

theorem rereadRouting_congr {h h' : RouteHistory} (hr : reads h' = reads h) :
    rereadRouting h' = rereadRouting h := by
  unfold rereadRouting
  rw [hr]

variable {enc : RouteEncoding} {codec : Codec} {k : RouteKey} {c : RouteCall} {p : Principal}
  {db db' : Db} {d : RouteDecision}

theorem Duplicate.inProject (_ : Duplicate k c) (hp : scopedPrincipal c.ctx = .ok p) :
    p.InProject := (requireProject_ok (scopedPrincipal_ok hp)).2

theorem Duplicate.principal (_ : Duplicate k c) (hp : scopedPrincipal c.ctx = .ok p) :
    principalOf c.ctx = .ok p := by
  unfold principalOf
  rw [scopedPrincipal_ok hp]

theorem Duplicate.named (hc : Duplicate k c) :
    ¬ Blank (trimSpace c.metadata.idempotencyKey) ∧
      ¬ Blank (trimSpace c.metadata.requestDigest) := by
  have hm := hc.metadata
  unfold CommandMetadata.validate at hm
  split at hm
  · cases hm
  rename_i hb
  rw [blank_trimSpace, blank_trimSpace]
  exact not_or.mp hb

theorem routeCommandOperation_named (taskID : String) : ¬ Blank (routeCommandOperation taskID) := by
  unfold routeCommandOperation
  simp only [blank_append, not_and_or]
  exact .inl (.inl (by decide))

section Walk

variable (codec k) (c : RouteCall)

abbrev rely (t t' : Db) : Prop := Later codec k (k.view t) (k.view t')

def duplicateAnswers (t : Db) (q : RouteRequest) (a : RouteAnswer q) (t' : Db) : Prop :=
  smooth ⟨q, a⟩ = true ∧ Traced t ∧ routeAnswers codec c t q a t'

/-- A step commits the route, or does what duplicates may do. -/
def guarantee (t : Db) (q : RouteRequest) (a : RouteAnswer q) (t' : Db) : Prop :=
  match routedBy ⟨q, a⟩ with
  | none => rely codec k t t'
  | some d => Routes codec k (k.view t) (k.view t') d

/-- A state in which the record holds `d` may be still to come. -/
def Comes (d : RouteDecision) (t : Db) : Prop :=
  ∃ final, rely codec k t final ∧ Decides codec k (k.view final).route d

/-- What a call returns if the record will hold `d`. -/
def Answered (d : RouteDecision) (t : Db) (h : RouteHistory) (x : RouteReply) : Prop :=
  Comes codec k d t → (rereadRouting h = true ∧ ∃ e, x = .error e) ∨
      (rereadRouting h = false ∧ (x = .ok ⟨d, true⟩ ∨ ∃ e ∈ h, routedBy e ≠ none))

abbrev Walks {α : Type} (post : Db → RouteHistory → α → Prop) (x : RouteProg α) (t : Db)
    (h : RouteHistory) : Prop :=
  Ensures (rely codec k) (duplicateAnswers codec c) (guarantee codec k) post x t h

end Walk

theorem Comes.before {t t' : Db} (hf : Comes codec k d t') (h : rely codec k t t') :
    Comes codec k d t := by
  obtain ⟨final, hl, hd⟩ := hf
  exact ⟨final, h.trans hl, hd⟩

theorem Comes.phase {t : Db} (hf : Comes codec k d t) (hopen : Unresolved k (k.view t)) :
    RoutePhase codec k d (k.view t) := by
  obtain ⟨final, hl, hd⟩ := hf
  exact hl.phase hd hopen

theorem Comes.route {t : Db} (hf : Comes codec k d t) :
    Decides codec k (t.record k.route) d ∨ Free k.requestDigest (t.record k.route) := by
  obtain ⟨final, hl, hd⟩ := hf
  exact hl.route hd

variable {q : RouteRequest}

theorem guarantee_rely {t t' : Db} {a : RouteAnswer q}
    (h : guarantee codec k t q a t') : rely codec k t t' := by
  unfold guarantee at h
  split at h
  · exact h
  · exact .routed h

def RouteRequest.isCommit : RouteRequest → Bool
  | .commitTransition _ => true
  | .commitRouteTransition _ => true
  | _ => false

theorem routeAnswers_idle {a : RouteAnswer q} (hq : q.isCommit = false)
    (h : routeAnswers codec c db q a db') : db' = db ∧ routedBy ⟨q, a⟩ = none := by
  cases q with
  | now | plan => exact ⟨h.2, rfl⟩
  | newID => exact ⟨h, rfl⟩
  | resolveIdempotency lookup =>
    exact ⟨Stored.same h (fun _ _ hr => (resolveIdempotency_ok hr).1), rfl⟩
  | getTask id => exact ⟨Stored.same h (fun _ _ hr => (getTask_ok hr).1), rfl⟩
  | commitTransition | commitRouteTransition => cases hq

variable {α : Type} {post : Db → RouteHistory → α → Prop} {t : Db} {h : RouteHistory}

/-- A request that leaves the store alone. -/
theorem walks_idle {f : RouteAnswer q → RouteProg α} (hq : q.isCommit = false)
    (hf : ∀ t', rely codec k t t' → ∀ a, smooth ⟨q, a⟩ = true → routeAnswers codec c t' q a t' →
      Walks codec k c post (f a) t' (h ++ [⟨q, a⟩])) :
    Walks codec k c post (request q >>= f) t h := by
  refine ensures_request ?_
  rintro t' ht a t'' ⟨hsmooth, _, ha⟩
  obtain ⟨rfl, hnone⟩ := routeAnswers_idle hq ha
  refine ⟨?_, hf t'' ht a hsmooth ha⟩
  unfold guarantee
  rw [hnone]
  exact .same

/-- The lookup of the route record, started at `t₀`. -/
def Looked (codec : Codec) (k : RouteKey) (d : RouteDecision) (t₀ : Db)
    (h : RouteHistory) (t : Db) (h' : RouteHistory) :
    Except ControlError (Option RouteCommandResult) → Prop
  | .error _ => ¬ Comes codec k d t
  | .ok (some x) => reads h' = reads h ∧ (Comes codec k d t → x = ⟨d, true⟩)
  | .ok none => reads h' = reads h ∧ ∃ u, rely codec k t₀ u ∧
      Free k.requestDigest (k.view u).route ∧ rely codec k u t

/-- The task a call goes on with is the planned row, or was routed meanwhile. -/
def Prepared (v : RouteView) (task : Task) : Prop :=
  (∃ row, v.task = some row ∧ row.status = .planning ∧ SameVersion row task) ∨
    v.status = some .routing

variable {v v' : RouteView}

theorem status_of_task {row : Task} (h : v.task = some row) : v.status = some row.status := by
  rw [RouteView.status, h]
  rfl

theorem task_of_status {status : TaskStatus} (h : v.status = some status) :
    ∃ row, v.task = some row ∧ row.status = status :=
  Option.map_eq_some_iff.mp h

theorem Prepared.later (hv : Prepared v task) (hl : Later codec k v v') : Prepared v' task := by
  rcases hv with ⟨row, hrow, hst, hsame⟩ | hrouting
  · rcases hl.of_planning ((status_of_task hrow).trans (congrArg some hst)) with rfl | hrouting
    · exact .inl ⟨row, hrow, hst, hsame⟩
    · exact .inr hrouting
  · rw [hl.of_routing hrouting]
    exact .inr hrouting

/-- A task that will be routed was found planned, or was found routed at the
second reading. -/
def Ready (h : RouteHistory) (task : Task) (v : RouteView) : Prop :=
  (rereadRouting h = false ∧ task.status = .planning ∧ Prepared v task) ∨
    (rereadRouting h = true ∧ task.status = .routing)

theorem Ready.later {h h' : RouteHistory} (hr : Ready h task v)
    (hreads : reads h' = reads h) (hl : Later codec k v v') : Ready h' task v' := by
  unfold Ready
  rw [rereadRouting_congr hreads]
  exact hr.imp (fun h => ⟨h.1, h.2.1, h.2.2.later hl⟩) id

/-- The route commit of a duplicate for a task it holds. -/
structure RouteCommit (codec : Codec) (k : RouteKey) (c : RouteCall) (p : Principal) (task : Task)
    (command : RouteTaskCommandCommit) : Prop where
  key : command.idempotency.rowKey = k.route
  digest : command.idempotency.requestDigest = k.requestDigest
  completed : command.idempotency.status = .completed
  admitted : admitRoute codec c.ctx command = .ok p
  planned : Planned codec k.taskID command.decision
  named : task.id = k.taskID
  same : SameVersion task command.task
  status : command.task.status = .routing
  source : command.transition.source = task.status
  target : command.transition.target = .routing
  complete : ¬ command.transition.Incomplete
  type : command.event.eventType = "TaskRoutingStarted"
  event : Stampable codec command.event
  outbox : command.outbox = []

/-- The task was read as created: it still is that row, or a duplicate planned it. -/
def Fresh (k : RouteKey) (task : Task) (v : RouteView) : Prop :=
  v.task = some task ∨ (v.status ≠ some .created ∧ Done k.requestDigest v.planning)

theorem Fresh.later (hv : Fresh k task v)
    (hcreated : task.status = .created) (hl : Later codec k v v') : Fresh k task v' := by
  rcases hv with hrow | ⟨hne, hdone⟩
  · rcases hl.of_created ((status_of_task hrow).trans (congrArg some hcreated)) with rfl | hdone
    · exact .inl hrow
    · exact .inr hdone
  · refine .inr ?_
    cases hl with
    | same => exact ⟨hne, hdone⟩
    | planned plans | both plans => exact absurd plans.created hne
    | routed routes =>
      rw [routes.routing, routes.kept]
      exact ⟨by decide, hdone⟩

/-- The task the planning step hands on. -/
def PlannedTask (codec : Codec) (k : RouteKey) (d : RouteDecision) (t : Db) (h : RouteHistory) :
    Except ControlError Task → Prop
  | .error _ => ¬ Comes codec k d t
  | .ok task => task.id = k.taskID ∧ Unresolved k (k.view t) ∧
      (Comes codec k d t → Ready h task (k.view t))

/-- The planning commit of a duplicate for a created task. -/
structure PlanCommit (codec : Codec) (k : RouteKey) (c : RouteCall) (p : Principal) (task : Task)
    (command : TaskCommandCommit) : Prop where
  key : command.idempotency.rowKey = k.planning
  digest : command.idempotency.requestDigest = k.requestDigest
  completed : command.idempotency.status = .completed
  admitted : admitTransition codec c.ctx command = .ok p
  created : task.status = .created
  named : task.id = k.taskID
  same : SameVersion task command.task
  status : command.task.status = .planning
  source : command.transition.source = task.status
  target : command.transition.target = .planning
  complete : ¬ command.transition.Incomplete
  type : command.event.eventType = "TaskPlanningStarted"
  event : Stampable codec command.event
  outbox : command.outbox = []

theorem RoutePhase.found (h : RoutePhase codec k d v) : ∃ row, v.task = some row := by
  cases h with
  | created status | planning status | routing status =>
    obtain ⟨row, hrow, _⟩ := task_of_status status
    exact ⟨row, hrow⟩

section

variable (hc : Duplicate k c) (hp : scopedPrincipal c.ctx = .ok p)

include hc hp

theorem Duplicate.lookup : admitLookup c.ctx (c.lookup p) = .ok p ∧ (c.lookup p).rowKey = k.route ∧
    (c.lookup p).requestDigest = k.requestDigest := by
  obtain ⟨htenant, hproject⟩ := hc.scope hp
  obtain ⟨hkey, hdigest⟩ := hc.named
  refine ⟨?_, ?_, hc.digest⟩
  · simp [admitLookup, RouteCall.lookup, routeCommandOperation_named, hkey, hdigest, hp]
  · simp [IdempotencyLookup.rowKey, RouteCall.lookup, RouteKey.route, htenant, hproject, hc.task,
      hc.key]

theorem resolve_stops
    (hroute : Decides codec k (db.record k.route) d ∨ Free k.requestDigest (db.record k.route)) :
    DatabaseOnly (resolveIdempotency c.ctx (c.lookup p)) db := by
  obtain ⟨hadm, hkey, hdigest⟩ := hc.lookup hp
  unfold resolveIdempotency
  refine stopsOnly_lift hadm (stopsOnly_step (read_ok.mpr ⟨rfl, rfl⟩) ?_)
  rw [hkey]
  cases hrow : db.record k.route with
  | none => exact stopsOnly_pure _
  | some row =>
    rw [hrow] at hroute
    obtain ⟨hdig, hst⟩ : row.requestDigest = k.requestDigest ∧
        (row.status = .completed ∨ row.status = .failedRetryable) := by
      rcases hroute with ⟨row', hrow', hst, hdig, _⟩ | hfree
      · cases hrow'
        exact ⟨hdig, .inl hst⟩
      · exact ⟨(hfree row rfl).2, .inr (hfree row rfl).1⟩
    refine stopsOnly_failIf (not_not.mpr (hdig.trans hdigest.symm)) ?_
    rcases hst with hst | hst
    · have hload : row.load.status = .completed := hst
      rw [hload]
      exact stopsOnly_pure _
    · have hload : row.load.status = .failedRetryable := hst
      rw [hload]
      exact stopsOnly_pure _

theorem fits_of_view (ht : Traced db)
    {row : Task} (hrow : (k.view db).task = some row) (hsame : SameVersion row task) :
    Fits p task row db := by
  have hfound : db.scopedTask p k.taskID = some row := (hc.scopedTask hp db).trans hrow
  obtain ⟨hm, hid, htenant, hproject⟩ := scopedTask_some hfound
  have hin := hc.inProject hp
  refine ⟨?_, ⟨(ht row hm).1, ?_, ?_⟩, ?_, hsame.version, ?_⟩
  · rw [hsame.id, hid]
    exact hfound
  · rw [htenant]
    exact hin.tenant
  · rw [hproject]
    exact hin.project
  · unfold Task.Disowns
    simp [hsame.tenantID, hsame.projectID, hsame.createdBy]
  · rw [hsame.traceID]
    exact (ht row hm).2

theorem Duplicate.admits {now : Time}
    (hnow : 0 < now) (statusOk : IdempotencyStatus → Bool) (responseCode : Int)
    {operation key text : String} (hop : ¬ Blank operation) (hkey : ¬ Blank key)
    (hok : statusOk .completed = true) : checkRecord codec statusOk text
      (commandRecord p c.metadata operation key .completed responseCode now) = .ok () ∧
    admitScope c.ctx
      (commandRecord p c.metadata operation key .completed responseCode now) = .ok p := by
  constructor
  · exact checkRecord_of_valid (commandRecord_valid (hc.inProject hp) hc.metadata hop hkey
      (.inr (.inl rfl)) hnow) hok
  · simp [admitScope, hp, commandRecord]

theorem Duplicate.moves {now : Time} {target : TaskStatus} {cause : String} {e : TransitionError}
    (hnow : 0 < now) (hcause : ¬ Blank cause) (hallowed : task.canTransition target = true) :
    task.transition ⟨target, transitionActor c.ctx, cause, now⟩ ≠ .error e := by
  obtain ⟨r, hr⟩ : ∃ r, task.transition ⟨target, transitionActor c.ctx, cause, now⟩ = .ok r :=
    transition_of_allowed (transitionActor_named (hc.principal hp)) hcause (Int.ne_of_gt hnow)
      hallowed
  rw [hr]
  rintro ⟨⟩

theorem resolveRouteReplay_walks :
    Walks codec k c (Looked codec k d t h) (resolveRouteReplay codec c p) t h := by
  obtain ⟨_, hkey, _⟩ := hc.lookup hp
  unfold resolveRouteReplay
  refine walks_idle rfl ?_
  intro t₁ h₀ a hsmooth ha
  have hreads : reads (h ++ [⟨.resolveIdempotency (c.lookup p), a⟩]) = reads h := reads_snoc rfl
  have hroute : ∀ t', rely codec k t₁ t' → Comes codec k d t' →
      Decides codec k (t₁.record k.route) d ∨ Free k.requestDigest (t₁.record k.route) :=
    fun t' h₁ h₂ => (h₂.before h₁).route
  cases a with
  | error e =>
    intro t' h₁ h₂
    obtain ⟨text, rfl⟩ := Stored.stopped ha (resolve_stops hc hp (hroute t' h₁ h₂))
    cases hsmooth
  | ok found =>
    obtain ⟨_, ⟨rfl, hnone⟩ | ⟨row, hrow, hdig, ⟨rfl, hfinal⟩ | ⟨rfl, hst⟩⟩⟩ :=
      resolveIdempotency_ok (Stored.ok ha)
    · refine ensures_pure (fun t' h₁ => ⟨hreads, t₁, h₀, ?_, h₁⟩)
      intro row (hrow : t₁.record k.route = some row)
      rw [← hkey, hnone] at hrow
      cases hrow
    · -- a final record: it is decided, or nothing ever will be
      rw [hkey] at hrow
      have hdecided : ∀ t', rely codec k t₁ t' → Comes codec k d t' →
          Decides codec k (some row) d := by
        intro t' h₁ h₂
        rcases hroute t' h₁ h₂ with hdec | hfree
        · rwa [hrow] at hdec
        · rw [(hfree row hrow).1] at hfinal
          rcases hfinal with hf | hf <;> cases hf
      change Walks codec k c (Looked codec k d t h) (if _ then _ else _) t₁ _
      split
      · rename_i hbad
        refine ensures_pure (fun t' h₁ h₂ => ?_)
        obtain ⟨row', hrow', hst, _, hpay, _⟩ := hdecided t' h₁ h₂
        cases hrow'
        exact hbad.elim (fun hne => hne hst) hpay
      · split
        · rename_i hundecoded
          refine ensures_pure (fun t' h₁ h₂ => ?_)
          obtain ⟨row', hrow', _, _, _, hdec, _⟩ := hdecided t' h₁ h₂
          cases hrow'
          rw [hundecoded] at hdec
          cases hdec
        · rename_i decision hdecoded
          refine ensures_pure (fun t' h₁ => ⟨hreads, fun h₂ => ?_⟩)
          obtain ⟨row', hrow', _, _, _, hdec, _⟩ := hdecided t' h₁ h₂
          cases hrow'
          rw [hdecoded] at hdec
          cases hdec
          rfl
    · refine ensures_pure (fun t' h₁ => ⟨hreads, t₁, h₀, ?_, h₁⟩)
      intro row' (hrow' : t₁.record k.route = some row')
      rw [← hkey, hrow] at hrow'
      cases hrow'
      exact ⟨hst, hdig.trans hc.digest⟩

theorem RouteCommit.goes {command : RouteTaskCommandCommit} (priced : Bool)
    (now : Time) (hcommit : RouteCommit codec k c p task command) (ht : Traced db)
    (hplanning : task.status = .planning)
    (hprepared : Prepared (k.view db) task) (hphase : RoutePhase codec k d (k.view db)) :
    DatabaseOnly (commitRouteTransition codec c.ctx priced now command) db ∧
      (Free k.requestDigest (db.record k.route) ∨
        ∃ r, commitRouteTransition codec c.ctx priced now command db = .ok (r, db) ∧
          r.replayed = true ∧ r.decision = some d) := by
  have hrow : ∀ {row : Task}, (k.view db).task = some row → row.id = k.taskID := by
    intro row hrow
    exact (scopedTask_some ((hc.scopedTask hp db).trans hrow)).2.1
  cases hphase with
  | created status =>
    rcases hprepared with ⟨row, hr, hst, _⟩ | hrouting
    · rw [status_of_task hr, hst] at status
      cases status
    · cases status.symm.trans hrouting
  | planning status unrouted =>
    rcases hprepared with ⟨row, hr, hst, hv⟩ | hrouting
    · refine ⟨stopsOnly_lift hcommit.admitted (once_stops ?_ ?_), .inl unrouted⟩
      · intro r hrec
        rw [hcommit.key] at hrec
        rw [hcommit.digest]
        exact unrouted r hrec
      · intro db₁ hres
        obtain ⟨held, hheld, _, hdig⟩ := hres.held
        have hfits := fits_of_view hc hp ht hr (hv.trans hcommit.same)
        have hencodes : codec.Encodes (command.stored row.id) := by
          rw [hrow hr, hcommit.planned.stored]
          exact hcommit.planned.encodes
        exact routeBody_stops (hc.inProject hp) (hfits.reserved hres) hst
          (hcommit.source.trans hplanning) hcommit.target hcommit.status hcommit.complete
          hcommit.planned.id (hcommit.planned.taskID.trans (hrow hr).symm) hencodes hcommit.type
          hcommit.event hcommit.outbox hheld hdig
    · cases status.symm.trans hrouting
  | routing status decides =>
    obtain ⟨rec, hrec, hst, hdig, hpay, hdec, hres⟩ := decides
    obtain ⟨row, hr, _⟩ := task_of_status status
    have hfound : db.scopedTask p k.taskID = some row := (hc.scopedTask hp db).trans hr
    have hnamed : k.taskID ≠ "" := by
      intro hempty
      refine (ht row (scopedTask_some hfound).1).1 ?_
      rw [hrow hr, hempty]
      decide
    suffices hreplay : commitRouteTransition codec c.ctx priced now command db =
        .ok (⟨some row, some d, none, [], rec.load, true⟩, db) by
      refine ⟨fun e he => ?_, .inr ⟨_, hreplay, rfl, rfl⟩⟩
      rw [hreplay] at he
      cases he
    rw [commitRouteTransition_final hcommit.admitted (hcommit.key ▸ hrec) (.inl hst),
      if_pos (hdig.trans hcommit.digest.symm)]
    unfold replayRouteCommand
    refine failIf_bind_ok.mpr ⟨fun hbad => hbad.elim (absurd hst) (fun he => ?_), ?_⟩
    · exact hnamed (hres.symm.trans he)
    refine failIf_bind_ok.mpr ⟨hpay, ?_⟩
    refine query_bind_ok.mpr ⟨d, hdec, ?_⟩
    refine query_bind_ok.mpr ⟨row, ?_, rfl⟩
    change db.scopedTask p rec.resourceID = some row
    rw [hres]
    exact hfound

theorem PlanCommit.goes {command : TaskCommandCommit} {now : Time}
    (hcommit : PlanCommit codec k c p task command) (ht : Traced db)
    (hfresh : Fresh k task (k.view db))
    (hphase : RoutePhase codec k d (k.view db)) :
    DatabaseOnly (commitTransition codec c.ctx now command) db := by
  rcases hfresh with hrow | ⟨hne, row, hrow, hst, hdig⟩
  · cases hphase with
    | created status free =>
      refine stopsOnly_lift hcommit.admitted (once_stops ?_ ?_)
      · intro r hrec
        rw [hcommit.key] at hrec
        rw [hcommit.digest]
        exact free r hrec
      · intro db₁ hres
        obtain ⟨held, hheld, _, hdig⟩ := hres.held
        have hfits := fits_of_view hc hp ht hrow hcommit.same
        have htype : canonicalTaskStateEvent command.task.status =
          some command.event.eventType := by
          rw [hcommit.status, hcommit.type]
          rfl
        exact transitionBody_stops (hc.inProject hp) (hfits.reserved hres) hcommit.source
          (hcommit.target.trans hcommit.status.symm) hcommit.complete htype hcommit.event
          hcommit.outbox hheld hdig
    | planning status | routing status =>
      rw [status_of_task hrow, hcommit.created] at status
      cases status
  · intro e he
    have hrow' : db.record k.planning = some row := hrow
    rw [commitTransition_final hcommit.admitted (hcommit.key ▸ hrow') (.inl hst),
      if_pos (hdig.trans hcommit.digest.symm)] at he
    cases he

variable (hopen : Unresolved k (k.view t))

include hopen

theorem readTask_walks (hid : id = k.taskID) {f : Except CommandError Task → RouteProg α}
    (hlost : ∀ t₁ e, ¬ Comes codec k d t₁ →
      Walks codec k c post (f (.error e)) t₁ (h ++ [⟨.getTask id, .error e⟩]))
    (hread : ∀ t₁ read, rely codec k t t₁ → (k.view t₁).task = some read → read.id = k.taskID →
      Walks codec k c post (f (.ok read)) t₁ (h ++ [⟨.getTask id, .ok read⟩])) :
    Walks codec k c post (readTask id >>= f) t h := by
  refine walks_idle rfl ?_
  intro t₁ h₁ a hsmooth ha
  cases a with
  | error e =>
    refine hlost t₁ e (fun hf => ?_)
    obtain ⟨row, hrow⟩ := (hf.phase (hopen.later h₁)).found
    obtain ⟨text, rfl⟩ := Stored.stopped ha
      (getTask_stops hp (hid ▸ (hc.scopedTask hp t₁).trans hrow))
    cases hsmooth
  | ok read =>
    obtain ⟨_, p', hp', hfound⟩ := getTask_ok (Stored.ok ha)
    cases hp.symm.trans hp'
    refine hread t₁ read h₁ ?_ ((scopedTask_some hfound).2.1.trans hid)
    rw [hid] at hfound
    exact (hc.scopedTask hp t₁).symm.trans hfound

theorem rereadTask_walks
    (hid : id = k.taskID) (hreads : reads h = [task])
    (hplanned : ¬ Free k.requestDigest (k.view t).planning) :
    Walks codec k c (PlannedTask codec k d)
      (readTask id >>= fun
        | .error e => pure (.error (.command e))
        | .ok task => pure (.ok task)) t h := by
  refine readTask_walks (d := d) hc hp hopen hid ?_ ?_
  · intro t₁ e hlost
    exact ensures_pure (fun t' h₂ hf => hlost (hf.before h₂))
  · intro t₁ read h₁ hrow hread
    have hreads₁ : reads (h ++ [⟨.getTask id, .ok read⟩]) = [task, read] := by
      rw [reads_read, hreads]
      rfl
    have hreread : rereadRouting (h ++ [⟨.getTask id, .ok read⟩]) =
        decide (read.status = .routing) := by
      unfold rereadRouting
      rw [hreads₁]
      rfl
    refine ensures_pure (fun t' h₂ =>
      ⟨hread, (hopen.later h₁).later h₂, fun hf => ?_⟩)
    refine Ready.later ?_ rfl h₂
    cases ((hf.before h₂).before h₁).phase hopen with
    | created _ free => exact absurd free hplanned
    | planning status =>
      rcases h₁.of_planning status with hsame | hrouting
      · rw [← hsame, status_of_task hrow] at status
        have hst : read.status = .planning := Option.some.inj status
        refine .inl ⟨?_, hst, .inl ⟨read, hrow, hst, ⟨rfl, rfl, rfl, rfl, rfl, rfl⟩⟩⟩
        rw [hreread, hst]
        rfl
      · rw [status_of_task hrow] at hrouting
        have hst : read.status = .routing := Option.some.inj hrouting
        exact .inr ⟨hreread.trans (decide_eq_true hst), hst⟩
    | routing status =>
      rw [← h₁.of_routing status, status_of_task hrow] at status
      have hst : read.status = .routing := Option.some.inj status
      exact .inr ⟨hreread.trans (decide_eq_true hst), hst⟩

theorem commitPlan_walks {moved : Task} {command : TaskCommandCommit}
    (hcommit : PlanCommit codec k c p task command) (hmoved : moved.id = k.taskID)
    (hreads : reads h = [task]) (hfresh : Fresh k task (k.view t)) :
    Walks codec k c (PlannedTask codec k d)
      (commitPlan command >>= fun
        | .error e => pure (.error (.command e))
        | .ok result =>
          if result.replayed then
            readTask moved.id >>= fun
              | .error e => pure (.error (.command e))
              | .ok task => pure (.ok task)
          else pure (.ok (result.task.getD moved))) t h := by
  refine ensures_request ?_
  rintro t₁ h₁ a t₂ ⟨hsmooth, htraced, now, ha⟩
  have hopen₁ := hopen.later h₁
  have hreads₁ : reads (h ++ [⟨.commitTransition command, a⟩]) = [task] :=
    (reads_snoc rfl).trans hreads
  cases a with
  | error e =>
    rw [ha.failed]
    refine ⟨.same, ensures_pure (fun t' h₂ hf => ?_)⟩
    obtain ⟨text, rfl⟩ := ha.stopped (hcommit.goes hc hp htraced
      (hfresh.later hcommit.created h₁) ((hf.before h₂).phase hopen₁))
    cases hsmooth
  | ok r =>
    rcases commitTransition_plans hc ha.ok (hcommit.same.id.trans hcommit.named) hcommit.key
      hcommit.digest hcommit.completed (hcommit.source.trans hcommit.created) hcommit.status with
      ⟨hrep, rfl, row, hrow, hfinal⟩ | ⟨hrep, hplans, row, planned, htask, hid, hst, hrow, hst', hv⟩
    · refine ⟨.same, ?_⟩
      change Walks codec k c _ (if r.replayed = true then _ else _) _ _
      rw [if_pos hrep]
      exact rereadTask_walks hc hp hopen₁ hmoved hreads₁ (fun hfree => hfree.not_final hrow hfinal)
    · refine ⟨.planned hplans, ?_⟩
      change Walks codec k c _ (if r.replayed = true then _ else _) _ _
      rw [if_neg (by rw [hrep]; exact Bool.false_ne_true), htask]
      refine ensures_pure (fun t' h₂ =>
        ⟨hid, hopen₁.later (Later.trans (.planned hplans) h₂), fun _ => ?_⟩)
      refine Ready.later (.inl ⟨?_, hst, .inl ⟨row, hrow, hst', hv⟩⟩) rfl h₂
      unfold rereadRouting
      rw [hreads₁]
      rfl

theorem commitPlanningForRoute_walks (henc : enc.Lawful codec) (hid : task.id = k.taskID)
    (hcreated : task.status = .created) (hreads : reads h = [task])
    (hfresh : Fresh k task (k.view t)) :
    Walks codec k c (PlannedTask codec k d) (commitPlanningForRoute enc c p task) t h := by
  unfold commitPlanningForRoute
  refine walks_idle rfl ?_
  intro t₁ h₁ now _ hnow
  have hpos : (0 : Time) < now := hnow.1
  have hallowed : task.canTransition .planning = true := by
    simp [Task.canTransition, TaskStatus.canTransition, hcreated, TaskStatus.isTerminal]
  split
  · rename_i e he
    exact absurd he (hc.moves hp hpos (by decide) hallowed)
  · rename_i moved transition hmoved
    obtain ⟨hsame, hstatus, hsource, htarget, _, hcomplete⟩ := transition_ok hmoved
    obtain ⟨text, htext, hvalid⟩ := henc.planning transition
    rw [htext]
    refine walks_idle rfl ?_
    intro t₂ h₂ random _ _
    have hmovedID : moved.id = k.taskID := hsame.id.trans hid
    obtain ⟨htenant, hproject⟩ := hc.scope hp
    refine commitPlan_walks hc hp (hopen.later (h₁.trans h₂))
      { key := ?_, digest := hc.digest, completed := rfl, admitted := ?_, created := hcreated
        named := hid, same := hsame, status := hstatus, source := hsource, target := htarget
        complete := hcomplete, type := rfl, outbox := rfl
        event := commandEvent_stampable (hc.inProject hp) (by decide) hvalid hpos }
      hmovedID ?_ (hfresh.later hcreated (h₁.trans h₂))
    · simp [IdempotencyRecord.rowKey, planningRecord, commandRecord, RouteKey.planning, htenant,
        hproject, hmovedID, hc.key]
    · have hop : ¬ Blank ("task:route:planning:" ++ moved.id) := by
        simp only [blank_append, not_and_or]
        exact .inl (by decide)
      have hkey : ¬ Blank (trimSpace c.metadata.idempotencyKey ++ ":planning") := by
        simp only [blank_append, not_and_or]
        exact .inl hc.named.1
      obtain ⟨hcheck, hscope⟩ := hc.admits hp hpos (fun status => status ≠ .inProgress) 200 hop
        hkey (by decide)
      have hcheck' : checkRecord codec (fun status => status ≠ .inProgress)
          "final idempotency status must not be in_progress"
            (planningRecord c p moved now) = .ok () :=
        hcheck
      unfold admitTransition
      rw [hcheck']
      exact hscope
    · exact (reads_snoc rfl).trans ((reads_snoc rfl).trans hreads)

theorem commitRoute_walks {command : RouteTaskCommandCommit} {planned : RouteDecision}
    (hcommit : RouteCommit codec k c p task command)
    (hready : Comes codec k d t →
      rereadRouting h = false ∧ task.status = .planning ∧ Prepared (k.view t) task) :
    Walks codec k c (Answered codec k d)
      (commitRoute command >>= fun answer => pure (routeReply planned answer)) t h := by
  refine ensures_request ?_
  rintro t₁ h₁ a t₂ ⟨hsmooth, htraced, priced, now, ha⟩
  have hreads : reads (h ++ [⟨.commitRouteTransition command, a⟩]) = reads h := reads_snoc rfl
  -- if the decision is still to come, the commit goes through or replays it
  have hgoes := fun hf : Comes codec k d t₁ =>
    RouteCommit.goes hc hp priced now hcommit htraced
      (hready (hf.before h₁)).2.1 ((hready (hf.before h₁)).2.2.later h₁) (hf.phase (hopen.later h₁))
  cases a with
  | error e =>
    rw [ha.failed]
    refine ⟨.same, ensures_pure (fun t' h₂ hf => ?_)⟩
    obtain ⟨text, rfl⟩ := ha.stopped (hgoes (hf.before h₂)).1
    cases hsmooth
  | ok r =>
    rcases commitRouteTransition_routes hc ha.ok (hcommit.same.id.trans hcommit.named) hcommit.key
      hcommit.digest hcommit.completed hcommit.planned with
      ⟨hrep, rfl, row, hrow, hfinal⟩ | ⟨hrep, hdecision, hroutes⟩
    · refine ⟨?_, ensures_pure (fun t' h₂ hf => .inr ?_)⟩
      · have hnone : routedBy ⟨.commitRouteTransition command, .ok r⟩ = none := if_pos hrep
        unfold guarantee
        rw [hnone]
        exact .same
      · refine ⟨(rereadRouting_congr hreads).trans (hready ((hf.before h₂).before h₁)).1, .inl ?_⟩
        rcases (hgoes (hf.before h₂)).2 with hfree | ⟨r', hr', _, hd'⟩
        · exact absurd hfinal (hfree.not_final hrow)
        rw [ha.ok] at hr'
        cases hr'
        rw [routeReply, hd', hrep]
        rfl
    · have hsome : routedBy ⟨.commitRouteTransition command, .ok r⟩ = some command.decision := by
        rw [← hdecision]
        exact if_neg (by rw [hrep]; exact Bool.false_ne_true)
      refine ⟨?_, ensures_pure (fun t' h₂ hf => .inr ?_)⟩
      · unfold guarantee
        rw [hsome]
        exact hroutes
      · refine ⟨?_, .inr ⟨_, mem_concat_self, ?_⟩⟩
        · have hf₁ : Comes codec k d t₁ := (hf.before h₂).before (.routed hroutes)
          exact (rereadRouting_congr hreads).trans (hready (hf₁.before h₁)).1
        · rw [hsome]
          simp

theorem commitPlannedRoute_walks (henc : enc.Lawful codec) (hid : task.id = k.taskID)
    (hready : Comes codec k d t → Ready h task (k.view t)) :
    Walks codec k c (Answered codec k d) (commitPlannedRoute enc c p task) t h := by
  unfold commitPlannedRoute
  refine walks_idle rfl ?_
  intro t₁ h₁ a hsmooth ha
  cases a with
  | error text => cases hsmooth
  | ok decision =>
    have hplanned : Planned codec k.taskID decision := hc.task ▸ ha.1 decision rfl
    refine walks_idle rfl ?_
    intro t₂ h₂ now _ hnow
    have hpos : (0 : Time) < now := hnow.1
    have hreads : reads (h ++ [⟨.plan c.request, .ok decision⟩] ++ [⟨.now, now⟩]) = reads h :=
      (reads_snoc rfl).trans (reads_snoc rfl)
    have hready₂ : Comes codec k d t₂ →
        Ready (h ++ [⟨.plan c.request, .ok decision⟩] ++ [⟨.now, now⟩]) task (k.view t₂) :=
      fun hf => (hready ((hf.before h₂).before h₁)).later hreads (h₁.trans h₂)
    split
    · -- a planned task moves on; one that was found routed does not
      rename_i e he
      refine ensures_pure (fun t' h₃ h₄ => ?_)
      rcases hready₂ (h₄.before h₃) with ⟨_, hst, _⟩ | ⟨hreread, _⟩
      · have hallowed : task.canTransition .routing = true := by
          simp [Task.canTransition, TaskStatus.canTransition, hst, TaskStatus.isTerminal]
        exact absurd he (hc.moves hp hpos (by decide) hallowed)
      · exact .inl ⟨hreread, _, rfl⟩
    · rename_i moved transition hmoved
      obtain ⟨hsame, hstatus, hsource, htarget, _, hcomplete⟩ := transition_ok hmoved
      obtain ⟨text, htext, hvalid⟩ := henc.routed transition decision c.request
      rw [htext]
      refine walks_idle rfl ?_
      intro t₃ h₃ random _ _
      obtain ⟨htenant, hproject⟩ := hc.scope hp
      refine commitRoute_walks hc hp (hopen.later (h₁.trans (h₂.trans h₃)))
        { key := ?_, digest := hc.digest, completed := rfl, admitted := ?_, planned := hplanned
          named := hid, same := ?_, status := hstatus, source := hsource, target := htarget
          complete := hcomplete, type := rfl, outbox := rfl
          event := commandEvent_stampable (hc.inProject hp) (by decide) hvalid hpos }
        (fun hf => ?_)
      · simp [IdempotencyRecord.rowKey, commandRecord, RouteKey.route, htenant, hproject, hc.task,
          hc.key]
      · obtain ⟨hcheck, hscope⟩ := hc.admits hp hpos (fun status => status = .completed) 201
          (routeCommandOperation_named _) hc.named.1 (decide_eq_true rfl)
        unfold admitRoute
        rw [hcheck]
        exact hscope
      · exact ⟨hsame.id, hsame.tenantID, hsame.projectID, hsame.createdBy, hsame.version,
          hsame.traceID⟩
      · rcases (hready₂ (hf.before h₃)).later (reads_snoc (e := ⟨.newID, random⟩) rfl) h₃ with
          hplanning | ⟨_, hst⟩
        · exact hplanning
        · have hallowed := transition_allowed hmoved
          simp [Task.canTransition, TaskStatus.canTransition, hst, TaskStatus.isTerminal]
            at hallowed

theorem routeTask_walks (henc : enc.Lawful codec) (hrow : (k.view t).task = some task)
    (hid : task.id = k.taskID) (hreads : reads h = [task]) :
    Walks codec k c (Answered codec k d) (routeTask enc codec c p task) t h := by
  have hphase : Comes codec k d t → RoutePhase codec k d (k.view t) := fun hf => hf.phase hopen
  have hreread : rereadRouting h = false := by
    unfold rereadRouting
    rw [hreads]
    rfl
  unfold routeTask
  split
  · rename_i hcreated
    refine ensures_bind (fun _ => .same) (ensures_mono ?_
      (commitPlanningForRoute_walks (d := d) hc hp hopen henc hid hcreated hreads (.inl hrow)))
    rintro t₁ h₁ (e | planned) hx
    · exact ensures_pure (fun t' h₂ hf => absurd (hf.before h₂) hx)
    · exact commitPlannedRoute_walks hc hp hx.2.1 henc hx.1 hx.2.2
  · rename_i hst
    exact commitPlannedRoute_walks hc hp hopen henc hid (fun _ => .inl ⟨hreread, hst,
      .inl ⟨task, hrow, hst, ⟨rfl, rfl, rfl, rfl, rfl, rfl⟩⟩⟩)
  · rename_i hst
    refine ensures_bind (fun _ => .same) (ensures_mono ?_ (resolveRouteReplay_walks (d := d) hc hp))
    rintro t₁ h₁ (e | _ | replay) hx
    · exact ensures_pure (fun t' h₂ hf => absurd (hf.before h₂) hx)
    · -- the record of a routed task is decided, and stays so
      refine ensures_pure (fun t' h₂ hf => ?_)
      obtain ⟨_, u, hu, hfree, hu₁⟩ := hx
      have hrouting : (k.view t).status = some .routing :=
        (status_of_task hrow).trans (congrArg some hst)
      cases hphase (((hf.before h₂).before hu₁).before hu) with
      | created status | planning status => cases hrouting.symm.trans status
      | routing _ decides =>
        rw [hu.of_routing hrouting] at hfree
        exact absurd hfree decides.not_free
    · refine ensures_pure (fun t' h₂ hf => .inr ⟨?_, .inl ?_⟩)
      · exact (rereadRouting_congr hx.1).trans hreread
      · rw [hx.2 (hf.before h₂)]
  · -- no duplicate can commit from any other state
    rename_i hc₀ hp₀ hr₀
    refine ensures_pure (fun t' h₂ hf => ?_)
    cases hphase (hf.before h₂) with
    | created status | planning status | routing status =>
      have hst := Option.some.inj ((status_of_task hrow).symm.trans status)
      first
        | exact absurd hst hc₀
        | exact absurd hst hp₀
        | exact absurd hst hr₀

end

theorem decideRouteIdempotent_walks (henc : enc.Lawful codec) (hc : Duplicate k c) :
    Walks codec k c (Answered codec k d) (decideRouteIdempotent enc codec c) t [] := by
  obtain ⟨p, hp, _⟩ := hc.caller
  unfold decideRouteIdempotent
  rw [hc.metadata, hc.principal hp, hc.routing]
  refine ensures_bind (fun _ => .same) (ensures_mono ?_ (resolveRouteReplay_walks (d := d) hc hp))
  rintro t₁ h₁ (e | _ | replay) hx
  · exact ensures_pure (fun t' h₂ hf => absurd (hf.before h₂) hx)
  · obtain ⟨hreads, u, _, hfree, hu⟩ := hx
    have hopen : Unresolved k (k.view t₁) := Unresolved.later (.inl hfree) hu
    refine readTask_walks (d := d) hc hp hopen hc.task ?_ ?_
    · intro t₂ e hlost
      exact ensures_pure (fun t' h₂ hf => absurd (hf.before h₂) hlost)
    · intro t₂ read h₂ hrow hid
      refine routeTask_walks hc hp (hopen.later h₂) henc hrow hid ?_
      rw [reads_read, hreads]
      rfl
  · refine ensures_pure (fun t' h₂ hf => .inr ⟨?_, .inl ?_⟩)
    · exact rereadRouting_congr hx.1
    · rw [hx.2 (hf.before h₂)]

end AiCloud.ControlPlane
