import AiCloud.ControlPlane.RouteWalk
import AiCloud.Lib.Schedule

/-!
# The answer to a duplicate route command

Once one of several duplicates has committed its route, the others answer with
the stored decision, wherever they were at that moment. There is one exception:
a call that found the planning step done by another one reads the task again,
and if that task is already in ROUTING, it refuses the move from ROUTING to
ROUTING instead of looking for the stored decision.
-/
namespace AiCloud.ControlPlane

open Lib Text Identity Execution Tasks System Option Json

abbrev DuplicateCall (k : RouteKey) := { c : RouteCall // Duplicate k c }

abbrev DuplicateSystem (k : RouteKey) :=
  System Db (DuplicateCall k) RouteRequest RouteAnswer RouteReply

/-- The systems that duplicates reach without such failures. -/
abbrev DuplicateReach (enc : RouteEncoding) (codec : Codec) (k : RouteKey) (init : Db)
    (s : DuplicateSystem k) : Prop :=
  Reach (fun c => decideRouteIdempotent enc codec c.val)
    (When (fun _ _ q a => smooth ⟨q, a⟩ = true) (fun c => routeAnswers codec c.val))
    (fun _ _ => False) init s

variable {enc : RouteEncoding} {codec : Codec} {k : RouteKey} {c : RouteCall} {db db' : Db}
  {d : RouteDecision}

theorem routeAnswers_traced {q : RouteRequest} {a : RouteAnswer q}
    (h : routeAnswers codec c db q a db') (ht : Traced db) : Traced db' := by
  by_cases hq : q.isCommit = false
  · rw [(routeAnswers_idle hq h).1]
    exact ht
  · cases q with
    | commitTransition command =>
      obtain ⟨now, h⟩ := h
      cases a with
      | error e =>
        rw [h.failed]
        exact ht
      | ok r => exact effect_traced (.inr (commitTransition_ok h.ok).effect) ht
    | commitRouteTransition command =>
      obtain ⟨priced, now, h⟩ := h
      cases a with
      | error e =>
        rw [h.failed]
        exact ht
      | ok r => exact effect_traced (.inr (commitRouteTransition_ok h.ok).effect) ht
    | now | newID | resolveIdempotency | getTask | plan => exact absurd rfl hq

theorem guarantee_routed {t t' : Db} {q : RouteRequest} {a : RouteAnswer q}
    (h : guarantee codec k t q a t') (hsome : routedBy ⟨q, a⟩ = some d) :
    Free k.requestDigest (k.view t).route ∧ Decides codec k (k.view t').route d := by
  unfold guarantee at h
  rw [hsome] at h
  exact ⟨h.free, h.decides⟩

/-- The runs of duplicates, with what each step guarantees. -/
abbrev GuaranteedReach (enc : RouteEncoding) (codec : Codec) (k : RouteKey) (init : Db)
    (s : DuplicateSystem k) : Prop :=
  Reach (fun c => decideRouteIdempotent enc codec c.val)
    (fun c t q a t' => duplicateAnswers codec c.val t q a t' ∧ guarantee codec k t q a t')
    (fun _ _ => False) init s

variable {s : DuplicateSystem k}

theorem duplicates_rely (henc : enc.Lawful codec) {init : Db} (ht : Traced init)
    (hr : DuplicateReach enc codec k init s) (d : RouteDecision) :
    GuaranteedReach enc codec k init s ∧
      Relying (fun c => duplicateAnswers codec c.val) (fun _ => guarantee codec k)
        (rely codec k) (fun _ => Answered codec k d) init s := by
  have hr₁ : Reach (fun c => decideRouteIdempotent enc codec c.val)
      (fun c => duplicateAnswers codec c.val) (fun _ _ => False) init s :=
    (hr.with_invariant (I := Traced) ht (fun _ _ _ _ _ h ht => routeAnswers_traced h.2 ht)
      (fun _ _ h => h.elim)).mono (fun _ _ _ _ _ h => ⟨h.2.1, h.1, h.2.2⟩) (fun _ _ h => h)
  exact hr₁.relying (fun _ => .same) (fun _ _ _ h h' => h.trans h')
    (fun _ _ _ _ _ h => guarantee_rely h) (fun _ _ h => h.elim)
    (fun c _ _ => decideRouteIdempotent_walks henc c.property)

theorem decided_of_routed {init : Db} (hr : GuaranteedReach enc codec k init s) {i : Nat}
    {c : DuplicateCall k} (hi : s.job i = some c) {e : Sigma RouteAnswer} (he : e ∈ s.history i)
    (hd : routedBy e = some d) : Decides codec k (k.view s.shared).route d := by
  refine hr.known (K := fun _ t e => routedBy e = some d → Decides codec k (k.view t).route d)
    ?_ ?_ (fun _ _ _ _ h => h.elim) hi he hd
  · intro _ t q a t' h hsome
    exact (guarantee_routed h.2 hsome).2
  · intro _ _ t q a t' e h hdec hsome
    exact (hdec hsome).later (guarantee_rely h.2)

/-- One duplicate at most commits its route. -/
theorem routed_once {init : Db} (hr : GuaranteedReach enc codec k init s) {i j : Nat}
    (hi : ∃ e ∈ s.history i, routedBy e ≠ none) (hj : ∃ e ∈ s.history j, routedBy e ≠ none) :
    i = j := by
  refine (hr.sole (E := fun e => routedBy e ≠ none)
    (P := fun t => ∃ d, Decides codec k (k.view t).route d) ?_ ?_ (fun _ _ h => h.elim)).2 i j hi hj
  · intro _ t q a t' h hne
    obtain ⟨d, hd⟩ := ne_none_iff_exists'.mp hne
    obtain ⟨hfree, hdec⟩ := guarantee_routed h.2 hd
    exact ⟨fun ⟨_, hd⟩ => hd.not_free hfree, d, hdec⟩
  · rintro _ t q a t' h ⟨d, hd⟩
    exact ⟨d, hd.later (guarantee_rely h.2)⟩

/-- The other call replays the committed decision unless it read the task again
and found it in ROUTING. -/
theorem duplicate_replays (henc : enc.Lawful codec) (calls : List Tasks.Call)
    {s : DuplicateSystem k}
    (hr : DuplicateReach enc codec k (after codec calls) s) {i j : Nat} (hij : i ≠ j)
    (hi : (s.history i).findSome? routedBy = some d) {x : RouteReply} (hj : s.result j = some x) :
    x = .ok ⟨d, true⟩ ↔ rereadRouting (s.history j) = false := by
  obtain ⟨hg, hrelying⟩ := duplicates_rely henc (traced_after codec calls) hr d
  obtain ⟨e, he, hed⟩ := List.exists_of_findSome?_eq_some hi
  have hlt := hr.lt_of_history (List.ne_nil_of_mem he)
  have hjob : s.job i = some (s.threads[i]).1 := by
    unfold job
    rw [List.getElem?_eq_getElem hlt]
    rfl
  have hdec := decided_of_routed hg hjob he hed
  obtain ⟨c, hthread⟩ := thread_of_result hj
  have hanswer : Answered codec k d s.shared (s.history j) x :=
    hrelying.ensures j c _ hthread s.shared .same
  rcases hanswer ⟨s.shared, .same, hdec⟩ with ⟨hreread, e', rfl⟩ | ⟨hreread, hx | hown⟩
  · rw [hreread]
    constructor <;> intro h <;> cases h
  · exact ⟨fun _ => hreread, fun _ => hx⟩
  · have hboth := routed_once hg ⟨e, he, by rw [hed]; exact some_ne_none d⟩ hown
    exact absurd hboth hij

def sampleRouteKey : RouteKey := ⟨"t", "p", "task", "k", "d"⟩

def sampleRouteCall : RouteCall :=
  ⟨some sampleCaller, ⟨"task", 1, 1, "", ""⟩, ⟨"k", "d", "r"⟩, true⟩

theorem sampleRouteCall_duplicate : Duplicate sampleRouteKey sampleRouteCall :=
  ⟨by decide +kernel, rfl, ⟨sampleCaller, by decide +kernel, rfl, rfl⟩, rfl, by decide +kernel,
    by decide +kernel⟩

section

/-- JSON of texts with nothing to escape. -/
def sampleRouteEncoding : RouteEncoding where
  planningPayload := fun transition =>
    some (object [("cause", quote transition.cause), ("from", quote transition.source.text),
      ("to", quote transition.target.text)])
  routedPayload := fun transition decision request =>
    some (object [("estimatedInputTokens", toString request.estimatedInputTokens),
      ("estimatedOutputTokens", toString request.estimatedOutputTokens),
      ("from", quote transition.source.text), ("inferenceEffort", quote request.inferenceEffort),
      ("routeDecisionId", quote decision.id),
      ("selectedDeploymentId", quote decision.selected.deploymentID),
      ("selectedModelId", quote decision.selected.modelID),
      ("selectedModelVersion", quote decision.selected.modelVersion),
      ("serviceTier", quote request.serviceTier), ("to", quote transition.target.text)])

theorem sampleRouteEncoding_lawful : sampleRouteEncoding.Lawful sampleCodec :=
  ⟨fun _ => ⟨_, rfl, object_ne _, rfl⟩, fun _ _ _ => ⟨_, rfl, object_ne _, rfl⟩⟩

end

theorem sampleDecision_planned : Planned sampleCodec "task" sampleDecision where
  id := by decide +kernel
  taskID := rfl
  createdAt := by decide
  encodes := by constructor <;> simp [sampleCodec, sampleDecision]
  decodes := by
    intro text htext
    obtain rfl : decisionText = text := by simpa [sampleCodec] using htext
    refine ⟨Json.object_ne _, fun stored hstored => ?_⟩
    obtain rfl : decisionText = stored := Option.some.inj hstored
    exact ⟨Json.object_ne _, by decide +kernel, by simp [sampleCodec]⟩

/-- The clock and the random text of a step; the router plans the one decision. -/
def duplicateReply (c : DuplicateCall sampleRouteKey) (choice : Time × String) (db : Db) :
    (q : RouteRequest) → Option (RouteAnswer q × Db)
  | .now => if 0 < choice.1 then some (choice.1, db) else none
  | .newID => some (choice.2, db)
  | .resolveIdempotency lookup => some (Tx.commit (resolveIdempotency c.val.ctx lookup) db)
  | .getTask id => some (Tx.commit (getTask c.val.ctx id) db)
  | .commitTransition command =>
    some (Tx.commit (commitTransition sampleCodec c.val.ctx choice.1 command) db)
  | .plan request => if request.taskID = "task" then some (Except.ok sampleDecision, db) else none
  | .commitRouteTransition command =>
    some (Tx.commit (commitRouteTransition sampleCodec c.val.ctx true choice.1 command) db)

theorem duplicateReply_answers : ∀ c choice db q a db',
    duplicateReply c choice db q = some (a, db') → routeAnswers sampleCodec c.val db q a db' := by
  intro c choice db q a db' h
  cases q with
  | now =>
    simp only [duplicateReply] at h
    split at h
    · rename_i hpos
      cases h
      exact ⟨hpos, rfl⟩
    · cases h
  | newID => exact (Prod.mk.inj (some.inj h)).2.symm
  | plan request =>
    simp only [duplicateReply] at h
    split at h
    · rename_i htask
      cases h
      refine ⟨fun decision hd => ?_, rfl⟩
      cases hd
      rw [htask]
      exact sampleDecision_planned
    · cases h
  | resolveIdempotency | getTask => exact .inl (some.inj h)
  | commitTransition => exact ⟨choice.1, .inl (some.inj h)⟩
  | commitRouteTransition => exact ⟨true, choice.1, .inl (some.inj h)⟩

abbrev DuplicateMove := Move (DuplicateCall sampleRouteKey) (Time × String) Empty

def duplicatesScheduled (moves : List DuplicateMove) : Option (DuplicateSystem sampleRouteKey) :=
  schedule (fun c => decideRouteIdempotent sampleRouteEncoding sampleCodec c.val)
    (guarded (fun _ _ q a => smooth ⟨q, a⟩ = true) duplicateReply) (fun e _ => e.elim)
    (after sampleCodec [createCall]) ([.spawn ⟨sampleRouteCall, sampleRouteCall_duplicate⟩,
      .spawn ⟨sampleRouteCall, sampleRouteCall_duplicate⟩] ++ moves)

theorem duplicatesScheduled_exists {P : DuplicateSystem sampleRouteKey → Prop} [DecidablePred P]
    (moves : List DuplicateMove) (h : (duplicatesScheduled moves).any (fun s => P s) = true) :
    ∃ s, DuplicateReach sampleRouteEncoding sampleCodec sampleRouteKey
      (after sampleCodec [createCall]) s ∧ P s :=
  exists_schedule (guarded_when duplicateReply_answers) (fun e _ _ _ => e.elim) h

def duplicateSteps (i n : Nat) (random : String) : List DuplicateMove :=
  List.replicate n (.run i (10, random))

/-- The second call reads the planned task before the first one routes it. -/
def replayedMoves : List DuplicateMove :=
  duplicateSteps 0 5 "a" ++ duplicateSteps 1 2 "b" ++ duplicateSteps 0 4 "c" ++
    duplicateSteps 1 4 "d"

theorem duplicate_replays_planned : ∃ s : DuplicateSystem sampleRouteKey,
    DuplicateReach sampleRouteEncoding sampleCodec sampleRouteKey
      (after sampleCodec [createCall]) s ∧ (s.history 0).findSome? routedBy = some sampleDecision ∧
    s.result 1 = some (.ok ⟨sampleDecision, true⟩) := by
  obtain ⟨s, hr, hrouted, hresult, hreread⟩ := duplicatesScheduled_exists (P := fun s =>
      (s.history 0).findSome? routedBy = some sampleDecision ∧ (s.result 1).isSome = true ∧
        rereadRouting (s.history 1) = false) replayedMoves (by decide +kernel)
  obtain ⟨x, hx⟩ := isSome_iff_exists.mp hresult
  have hreplay := (duplicate_replays sampleRouteEncoding_lawful [createCall] hr Nat.zero_ne_one
    hrouted hx).mpr hreread
  exact ⟨s, hr, hrouted, hreplay ▸ hx⟩

/-- The second call reads the new task before the first one plans and routes it. -/
def overtakenRouteMoves : List DuplicateMove :=
  duplicateSteps 1 2 "a" ++ duplicateSteps 0 5 "b" ++ duplicateSteps 0 4 "c" ++
    duplicateSteps 1 6 "d"

def routeRefused : RouteReply → Bool
  | .error (.transition _) => true
  | _ => false

theorem routeRefused_eq_true {x : RouteReply} (h : routeRefused x = true) :
    ∃ e, x = .error (.transition e) := by
  unfold routeRefused at h
  split at h
  · exact ⟨_, rfl⟩
  · cases h

/-- One call committed its route, and its duplicate returned an error. -/
theorem duplicate_refused : ∃ s : DuplicateSystem sampleRouteKey,
    DuplicateReach sampleRouteEncoding sampleCodec sampleRouteKey
      (after sampleCodec [createCall]) s ∧ (s.history 0).findSome? routedBy = some sampleDecision ∧
    ∃ e, s.result 1 = some (.error (.transition e)) := by
  obtain ⟨s, hr, hrouted, hresult⟩ := duplicatesScheduled_exists (P := fun s =>
      (s.history 0).findSome? routedBy = some sampleDecision ∧
        (s.result 1).any routeRefused = true) overtakenRouteMoves (by decide +kernel)
  obtain ⟨x, hx, hrefused⟩ := (any_eq_true _ _).mp hresult
  refine ⟨s, hr, hrouted, ?_⟩
  obtain ⟨e, rfl⟩ := routeRefused_eq_true hrefused
  exact ⟨e, hx⟩

end AiCloud.ControlPlane
