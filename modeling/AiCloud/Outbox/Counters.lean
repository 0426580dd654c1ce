import AiCloud.Outbox.Leases
import AiCloud.Lib.Rely
import AiCloud.Lib.UnixTime

/-!
# The counters of a dispatch

`DispatchOnce` counts every message of its batch once. A message without an adapter is
counted as a dead letter only, and the store cannot answer otherwise: attempts never go
down, so the row that is still held has at least the attempts the run was told.
-/
namespace AiCloud.Outbox

open Lib UnixTime Execution Tasks Workflow Prog List

def DispatchResult.counted (r : DispatchResult) : Nat :=
  r.delivered + r.retried + r.deadLetter + r.failed

/-- The batch a run leased: its second request is the lease. -/
def batch : History → Option (List LeasedOutboxMessage)
  | _ :: ⟨.lease .., .ok items⟩ :: _ => some items
  | _ => none

/-- No message is lost, and none has fewer attempts than before. -/
def Keeps (w w' : World) : Prop := ∀ r ∈ w.rows, ∃ r' ∈ w'.rows, Later r r'

theorem Keeps.trans {a b c : World} (h : Keeps a b) (h' : Keeps b c) : Keeps a c := by
  intro r hr
  obtain ⟨r', hr', hl⟩ := h r hr
  obtain ⟨r'', hr'', hl'⟩ := h' r' hr'
  exact ⟨r'', hr'', hl.trans hl'⟩

theorem Keeps.refl (w : World) : Keeps w w := fun r hr => ⟨r, hr, Later.refl r⟩

variable {codec : Codec} {unmarshalPayload : String → Option StartPayload} {θ : Run} {α : Type}
  {w w' : World} {h : History} {d : Dispatcher} {now : Time} {item : LeasedOutboxMessage}
  {progress : Progress}

abbrev Counting (codec : Codec) (θ : Run) (post : World → History → α → Prop)
    (x : DispatchProg α) (w : World) (h : History) : Prop :=
  Ensures Keeps (answers codec θ) (fun w _ _ w' => Keeps w w') post x w h

theorem answers_keep {q : Request} {a : Answer q} (ha : answers codec θ w q a w') : Keeps w w' :=
  fun _ => answers_later ha

theorem counting_request {post : World → History → α → Prop} {q : Request}
    {f : Answer q → DispatchProg α} (hf : ∀ w₁ a w₂, Keeps w w₁ → answers codec θ w₁ q a w₂ →
      Counting codec θ post (f a) w₂ (h ++ [⟨q, a⟩])) :
    Counting codec θ post (request q >>= f) w h :=
  ensures_request fun w₁ hw a w₂ ha => ⟨answers_keep ha, hf w₁ a w₂ hw ha⟩

theorem counting_kept {p : DispatchProg α} :
    Counting codec θ (fun w' h' _ => Keeps w w' ∧ h <+: h') p w h := by
  refine ensures_rely ?_ ?_ ?_ (prefix_refl h)
  · exact fun _ _ _ => Keeps.trans
  · exact fun _ _ _ _ ha => ⟨answers_keep ha, answers_keep ha⟩
  · exact Keeps.refl w

/-- `n` messages were counted and none leased. -/
def Counts (before : Progress) (n : Nat) (after : Progress) : Prop :=
  after.1.leased = before.1.leased ∧ after.1.counted = before.1.counted + n

abbrev CountsOne (codec : Codec) (θ : Run) (progress : Progress) :=
  Counting codec θ (fun _ _ => Counts progress 1)

theorem reject_dead {next : Time} {reason : String} {status : OutboxStatus}
    (ha : answers codec θ w (.failDelivery item.message.outboxID d.owner now next
      item.message.attempts reason) (.ok status) w') (hin : InOutbox w item.message) :
    status = .deadLetter := by
  rcases ha with ⟨hok, -⟩ | ⟨⟨text, hlost⟩, -⟩
  · unfold report at hok
    split at hok
    · cases hok
    rename_i db hdone
    cases hok
    obtain ⟨p, row, _, _, -, hrow, hheld, hstatus, -⟩ := failDelivery_ok hdone
    obtain ⟨-, r, hr, hfixed, hattempts⟩ := hin
    obtain rfl : r = row :=
      row_unique hr hrow ((fixedColumns_outboxID hfixed).trans hheld.1.1.symm)
    rw [hstatus, if_pos hattempts]
  · cases hlost

theorem rejectItem_counts (hin : InOutbox w item.message) :
    CountsOne codec θ progress (rejectItem d now item progress) w h := by
  refine counting_request fun w₁ a w₂ hw ha => ?_
  cases a with
  | error e => exact ensures_pure fun _ _ => ⟨rfl, rfl⟩
  | ok status =>
    obtain rfl := reject_dead ha (hin.later hw)
    refine ensures_pure fun _ _ => ⟨rfl, ?_⟩
    simp only [DispatchResult.counted]
    omega

theorem failItem_counts {reason : String} :
    CountsOne codec θ progress (failItem d now item reason progress) w h := by
  refine counting_request fun _ a _ _ _ => ?_
  cases a with
  | error e => exact ensures_pure fun _ _ => ⟨rfl, rfl⟩
  | ok status =>
    dsimp only
    split <;> refine ensures_pure fun _ _ => ⟨rfl, ?_⟩ <;> simp only [DispatchResult.counted] <;>
      omega

theorem confirmItem_counts : CountsOne codec θ progress (confirmItem d item progress) w h := by
  refine counting_request fun _ t _ _ _ => counting_request fun _ a _ _ _ => ?_
  cases a with
  | error e => exact ensures_pure fun _ _ => ⟨rfl, rfl⟩
  | ok u =>
    refine ensures_pure fun _ _ => ⟨rfl, ?_⟩
    simp only [DispatchResult.counted]
    omega

variable {adapters : String → Option Adapter}

theorem dispatchItem_counts (hin : InOutbox w item.message) :
    CountsOne codec θ progress
      (dispatchItem unmarshalPayload adapters d now item progress) w h := by
  unfold dispatchItem
  split
  · exact rejectItem_counts hin
  refine ensures_bind Keeps.refl (ensures_mono ?_ counting_kept)
  intro _ _ outcome _
  cases outcome with
  | error reason => exact failItem_counts
  | ok u => exact confirmItem_counts

theorem dispatchItems_counts {items : List LeasedOutboxMessage}
    (hin : ∀ item ∈ items, InOutbox w item.message) :
    Counting codec θ (fun _ _ => Counts progress items.length)
      (dispatchItems unmarshalPayload adapters d now items progress) w h := by
  induction items generalizing w h progress with
  | nil => exact ensures_pure fun _ _ => ⟨rfl, rfl⟩
  | cons item rest ih =>
    refine ensures_bind Keeps.refl (ensures_mono ?_
      (counting_kept.and (dispatchItem_counts (hin item mem_cons_self))))
    rintro w₁ _ first ⟨⟨hw, -⟩, hleased, hcounted⟩
    refine ensures_mono ?_ (ih fun m hm => (hin m (mem_cons_of_mem _ hm)).later hw)
    rintro _ _ after ⟨hleased', hcounted'⟩
    refine ⟨hleased'.trans hleased, ?_⟩
    rw [hcounted', hcounted, length_cons]
    omega

/-- A run that leased a batch returns counts, and they add up to the batch. -/
def Balanced (h : History) (x : Except OutboxError Progress) : Prop :=
  ∀ items, batch h = some items → ∃ result errors, x = .ok (result, errors) ∧
    result.leased = items.length ∧ result.leased = result.counted

theorem dispatchOnce_balanced {limit : Int} :
    Counting codec θ (fun _ => Balanced) (dispatchOnce unmarshalPayload adapters d limit) w [] := by
  refine counting_request fun _ now _ _ _ => counting_request fun _ a _ _ ha => ?_
  cases a with
  | error e => exact ensures_pure fun _ _ items hb => by cases hb
  | ok items =>
    refine ensures_bind Keeps.refl (ensures_mono ?_
      (counting_kept.and (dispatchItems_counts (known_answer ha items rfl).2)))
    rintro _ _ ⟨result, errors⟩ ⟨⟨-, later, rfl⟩, hleased, hcounted⟩
    refine ensures_pure fun _ _ leased hb => ⟨result, errors, rfl, ?_⟩
    cases hb
    have hleased : result.leased = items.length := hleased
    have hcounted : result.counted = 0 + items.length := hcounted
    exact ⟨hleased, by omega⟩

/-- However the runs, the deliveries, the store's failures and the task commands
interleave. -/
theorem counters_add_up (codec : Codec) (unmarshalPayload : String → Option StartPayload)
    (init : World)
    (s : System World (Run × (String → Option Adapter)) Request Answer
      (Except OutboxError Progress))
    (hreach : System.Reach (fun θ => dispatchOnce unmarshalPayload θ.2 θ.1.dispatcher θ.1.limit)
      (fun θ => answers codec θ.1) (Commands codec) init s)
    (i : Nat) (x : Except OutboxError Progress) (hx : s.result i = some x) :
    Balanced (s.history i) x := by
  have hrel := (System.Reach.relying Keeps.refl (fun _ _ _ => Keeps.trans)
    (fun _ _ _ _ _ h => h) (fun w w' hc r hr => ⟨r, commands_later hc hr, Later.refl r⟩)
    (fun _ _ _ => dispatchOnce_balanced) hreach).2
  obtain ⟨θ, hi⟩ := System.thread_of_result hx
  exact hrel.ensures i θ _ hi _ (Keeps.refl _)

/-- A run without adapters, over an outbox with one message. -/
def unregisteredRun :
    Option (System World (Run × (String → Option Adapter)) Request Answer
      (Except OutboxError Progress)) :=
  (scheduled sampleCodec samplePayload creationMoves).bind fun created =>
    System.schedule (fun θ => dispatchOnce samplePayload θ.2 θ.1.dispatcher θ.1.limit)
      (fun θ => reply sampleCodec θ.1) (change sampleCodec) created.shared
      (.spawn (sampleRun, fun _ => none) :: replicate 3 (.run 0 (sampleChoice 5)))

theorem counters_add_up_unregistered : ∃ s x, unregisteredRun = some s ∧
    (batch (s.history 0)).map length = some 1 ∧
    x.toOption.map (fun y => y.1.deadLetter) = some 1 ∧ Balanced (s.history 0) x := by
  have hview : unregisteredRun.any (fun s => (batch (s.history 0)).map length = some 1 ∧
      (s.result 0).any (fun x => x.toOption.map (fun y => y.1.deadLetter) = some 1)) = true := by
    decide +kernel
  obtain ⟨s, hs, hv⟩ := (Option.any_eq_true _ _).mp hview
  obtain ⟨hone, hv⟩ := of_decide_eq_true hv
  obtain ⟨x, hx, hdead⟩ := (Option.any_eq_true _ _).mp hv
  refine ⟨s, x, hs, hone, of_decide_eq_true hdead, ?_⟩
  obtain ⟨created, -, hs⟩ := Option.bind_eq_some_iff.mp hs
  refine counters_add_up sampleCodec samplePayload created.shared s
    (System.reach_schedule ?_ change_commands hs) 0 x hx
  exact fun θ => reply_answers θ.1

def fiveMinutes : Int := 5 * 60 * 1000000000

/-- The doubled duration as an `int64`, and the products that were formed. -/
def doubleNanos : Nat → Int → Int × List Int
  | 0, backoff => (backoff, [])
  | n + 1, backoff =>
    if backoff < fiveMinutes then
      let (last, products) := doubleNanos n (wrap64 (backoff * 2))
      (last, backoff * 2 :: products)
    else (backoff, [])

def backoffNanos (baseBackoff attempt : Int) : Int :=
  min (doubleNanos (max attempt 1 - 1).toNat baseBackoff).1 fiveMinutes

theorem wrap64_double {b : Int} (hpos : 0 < b) (hlt : b < fiveMinutes) :
    wrap64 (b * 2) = b * 2 := by
  unfold fiveMinutes at hlt
  exact wrap64_eq_self (by omega) (by omega)

theorem doubleNanos_eq (n : Nat) {b : Int} (hpos : 0 < b) :
    min (doubleNanos n b).1 fiveMinutes = min (b * 2 ^ n) fiveMinutes ∧
      ∀ p ∈ (doubleNanos n b).2, -2 ^ 63 ≤ p ∧ p < 2 ^ 63 := by
  induction n generalizing b with
  | zero => simp [doubleNanos]
  | succ n ih =>
    unfold doubleNanos
    split
    · rename_i hlt
      obtain ⟨hlast, hproducts⟩ := ih (b := b * 2) (by omega)
      rw [wrap64_double hpos hlt]
      refine ⟨by rw [hlast, Int.pow_succ', Int.mul_assoc], ?_⟩
      unfold fiveMinutes at hlt
      exact forall_mem_cons.mpr ⟨by omega, hproducts⟩
    · rename_i hge
      have hpow : b * 1 ≤ b * 2 ^ (n + 1) :=
        Int.mul_le_mul_of_nonneg_left (Int.add_one_le_of_lt (Int.pow_pos (by decide))) (by omega)
      refine ⟨?_, by simp⟩
      dsimp only
      omega

/-- The closed form, and no product on the way leaves the `int64` range. -/
theorem backoff_closed_form (baseBackoff attempt : Int) (hpos : 0 < baseBackoff) :
    backoffNanos baseBackoff attempt =
        min (baseBackoff * 2 ^ (max attempt 1 - 1).toNat) fiveMinutes ∧
      ∀ p ∈ (doubleNanos (max attempt 1 - 1).toNat baseBackoff).2, -2 ^ 63 ≤ p ∧ p < 2 ^ 63 :=
  doubleNanos_eq _ hpos

theorem backoff_closed_form_ninth : backoffNanos 1000000000 9 = 256000000000 :=
  (backoff_closed_form 1000000000 9 (by decide)).1.trans (by decide)

end AiCloud.Outbox
