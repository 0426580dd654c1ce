import AiCloud.NodeLease.Effects
import AiCloud.NodeLease.Fencing

/-!
# What the events of a node leave behind

An operation that succeeded once is visible in the attempts ever after: the
attempt it created or marked is still there with the mark on it. A failed
attempt in turn shows which completion failed it.
-/
namespace AiCloud.NodeLease

open Lib Execution Identity List

def OfLease (lease : NodeLease) (a : AttemptRow) : Prop :=
  a.attemptID = lease.attemptRef ∧ a.leaseFence = lease.fence ∧
    a.attemptNumber = lease.attemptNumber

variable {a : AttemptRow} {lease : NodeLease}

theorem OfLease.evolves {a' : AttemptRow} (h : OfLease lease a) (he : Evolves a a') :
    OfLease lease a' :=
  ⟨he.attemptID.trans h.1, he.leaseFence.trans h.2.1, he.attemptNumber.trans h.2.2⟩

variable {base fence : Int} {e : Event} {c c' : Cell}

theorem evolved_mem {l kept : List AttemptRow} (h : Forall₂ Evolves l kept) (ha : a ∈ l)
    (added : List AttemptRow) : ∃ a' ∈ kept ++ added, Evolves a a' := by
  obtain ⟨i, hi, rfl⟩ := mem_iff_getElem.mp ha
  have hlen := h.length_eq
  exact ⟨kept.get ⟨i, by omega⟩, mem_append_left _ (get_mem _ _), h.get hi (by omega)⟩

theorem step_keeps (hc : Coupled base fence c) (hs : CellStep e c c') (ha : a ∈ c.attempts) :
    ∃ a' ∈ c'.attempts, Evolves a a' := by
  obtain ⟨kept, extra, hk, hf, _⟩ := step_attempts hc hs
  rw [hk]
  exact evolved_mem hf ha extra

theorem evolves_trans {l m n : List AttemptRow} (h : Forall₂ Evolves l m)
    (h' : Forall₂ Evolves m n) : Forall₂ Evolves l n := by
  induction h generalizing n with
  | nil => exact h'
  | cons ha _ ih =>
    cases h' with
    | cons hb hrest => exact .cons (ha.trans hb) (ih hrest)

variable {record : NodeRuntimeRecord}

theorem Present.kept {pre : List Call} (post : List Call) {k : NodeKey} {c : Cell}
    (h : Present pre (after pre) k record c) : ∃ c' kept added,
      Present (pre ++ post) (after (pre ++ post)) k record c' ∧ c'.attempts = kept ++ added ∧
        Forall₂ Evolves c.attempts kept := by
  induction post using reverseRecOn with
  | nil =>
    rw [append_nil]
    exact ⟨c, _, [], h, (append_nil _).symm, forall₂_same.mpr (fun a _ => Evolves.refl a)⟩
  | append_singleton post d ih =>
    obtain ⟨c', kept, added, hpres, hsplit, hkept⟩ := ih
    rw [← append_assoc]
    rcases hpres.after_next d with ⟨_, hsame⟩ | ⟨e, x, _, hs, hstep⟩
    · exact ⟨c', kept, added, hsame, hsplit, hkept⟩
    · obtain ⟨moved, extra, hx, hmoved, _⟩ := step_attempts hpres.coupled hs
      rw [hsplit] at hmoved
      have hfirst := forall₂_take_append moved kept added (Forall₂.flip hmoved)
      refine ⟨x, moved.take kept.length, moved.drop kept.length ++ extra, hstep, ?_,
        evolves_trans hkept hfirst.flip⟩
      rw [hx, ← append_assoc, take_append_drop]

theorem attempt_kept {pre : List Call} (post : List Call) {k : NodeKey} {c : Cell}
    (h : Present pre (after pre) k record c) (ha : a ∈ c.attempts) :
    ∃ c', Present (pre ++ post) (after (pre ++ post)) k record c' ∧
      ∃ a' ∈ c'.attempts, Evolves a a' := by
  obtain ⟨c', kept, added, hpres, hsplit, hkept⟩ := h.kept post
  exact ⟨c', hpres, hsplit ▸ evolved_mem hkept ha added⟩

/-- The attempts of a node keep their places and only evolve. -/
theorem attempts_append_only (pre post : List Call) (k : NodeKey) : ∃ kept added,
    (after (pre ++ post)).attemptsOf k = kept ++ added ∧
      Forall₂ Evolves ((after pre).attemptsOf k) kept := by
  rcases tracked pre k with habs | ⟨record, c, hpres⟩
  · rw [habs.attempts]
    exact ⟨[], _, rfl, .nil⟩
  · obtain ⟨c', kept, added, hlater, hsplit, hkept⟩ := hpres.kept post
    rw [(cellOf_some hpres.cell).2, (cellOf_some hlater.cell).2]
    exact ⟨kept, added, hsplit, hkept⟩

/-- The newest attempt is the one its holder's lease names. -/
theorem owned_last {row : NodeRow} {past : List AttemptRow} {cur : AttemptRow} {now : Time}
    (hc : Coupled base fence ⟨row, past, some cur⟩) (hown : leaseOwnsRow row lease now)
    (hid : cur.attemptID = lease.attemptRef) : OfLease lease cur := by
  have hn := hc.last_number
  exact ⟨hid, hn.2.1.trans hown.2.2.2.1, hn.1.trans hown.2.2.2.2.1⟩

/-- The claims, marks and completions of a node, as its attempts show them. -/
structure Shown (es : List Event) (c : Cell) : Prop where
  claimed : ∀ now lease, Event.claim now lease ∈ es →
    Names c.row.key lease ∧ ∃ a ∈ c.attempts, OfLease lease a
  started : ∀ now lease, Event.markEffectStarted now lease ∈ es →
    ∃ a ∈ c.attempts, OfLease lease a ∧ a.effectStartedAt ≠ none
  committed : ∀ now lease, Event.markEffectCommitted now lease ∈ es →
    ∃ a ∈ c.attempts, OfLease lease a ∧ a.effectCommittedAt ≠ none
  succeeded : ∀ now lease completion, Event.complete now lease .succeeded completion ∈ es →
    c.row.state = .succeeded ∧ ∃ a, c.last = some a ∧ OfLease lease a ∧ a.status = .succeeded
  failed : ∀ a ∈ c.attempts, a.status = .failed → ∃ now lease completion,
    Event.complete now lease .failed completion ∈ es ∧ OfLease lease a

theorem shown_init (k : NodeKey) (record : NodeRuntimeRecord) (now : Time) :
    Shown [] (initCell k record now) := by
  refine ⟨?_, ?_, ?_, ?_, ?_⟩
  · intro _ _ h
    cases h
  · intro _ _ h
    cases h
  · intro _ _ h
    cases h
  · intro _ _ _ h
    cases h
  · intro a ha
    cases ha

theorem step_claimed (hs : CellStep e c c') {now : Time} (he : e = .claim now lease) :
    Names c'.row.key lease ∧ ∃ a ∈ c'.attempts, OfLease lease a := by
  subst he
  have hnew : ∀ (row : NodeRow) (kept : List AttemptRow),
      ∃ a ∈ kept ++ [newAttempt row lease now], OfLease lease a := by
    intro row kept
    exact ⟨newAttempt row lease now, by simp, rfl, rfl, rfl⟩
  cases hs with
  | claimReady _ hl => exact ⟨hl.2.2, hnew _ _⟩
  | reclaim _ _ _ _ _ hl => exact ⟨hl.2.2, hnew _ _⟩

section

variable {now : Time} {lease : NodeLease} (hc : Coupled base fence c) (hs : CellStep e c c')

include hc hs

theorem step_started (he : e = .markEffectStarted now lease) :
    ∃ a ∈ c'.attempts, OfLease lease a ∧ a.effectStartedAt ≠ none := by
  subst he
  cases hs with
  | @markEffectStarted row past cur _ _ hown hid hst hnone =>
    have ho := owned_last hc hown hid
    refine ⟨_, mem_append_right past (mem_singleton_self _), ⟨ho.1, ho.2.1, ho.2.2⟩, ?_⟩
    simp

theorem step_committed (he : e = .markEffectCommitted now lease) :
    ∃ a ∈ c'.attempts, OfLease lease a ∧ a.effectCommittedAt ≠ none := by
  subst he
  cases hs with
  | @markEffectCommitted row past cur _ _ hown hid hst hse hnone =>
    have ho := owned_last hc hown hid
    refine ⟨_, mem_append_right past (mem_singleton_self _), ⟨ho.1, ho.2.1, ho.2.2⟩, ?_⟩
    simp

theorem step_succeeded {completion : AttemptCompletion}
    (he : e = .complete now lease .succeeded completion) :
    c'.row.state = .succeeded ∧ ∃ a, c'.last = some a ∧ OfLease lease a ∧
      a.status = .succeeded := by
  subst he
  cases hs with
  | @complete row past cur _ _ _ _ hown hid hst hv hmut =>
    have ho := owned_last hc hown hid
    have hstatus : completion.status = .succeeded := by
      rcases completion_cases hv with ⟨_, h⟩ | ⟨h, _⟩ | ⟨h, _⟩
      · exact h
      · cases h
      · cases h
    exact ⟨rfl, _, rfl, ⟨ho.1, ho.2.1, ho.2.2⟩, hstatus⟩

end

theorem succeeded_stuck (h : c.row.state = .succeeded) : ¬ CellStep e c c' := by
  intro hs
  cases hs with
  | claimReady hready => rw [h] at hready; cases hready
  | reclaim hrun => rw [h] at hrun; cases hrun
  | renew hown => have hrun := hown.1; rw [h] at hrun; cases hrun
  | startAttempt hown => have hrun := hown.1; rw [h] at hrun; cases hrun
  | markEffectStarted hown => have hrun := hown.1; rw [h] at hrun; cases hrun
  | markEffectCommitted hown => have hrun := hown.1; rw [h] at hrun; cases hrun
  | releaseBeforeEffect hown => have hrun := hown.1; rw [h] at hrun; cases hrun
  | complete hown => have hrun := hown.1; rw [h] at hrun; cases hrun
  | requeueFailed hfailed => rw [h] at hfailed; cases hfailed

/-- An attempt that is failed after a step was failed before it or by it. -/
theorem step_failed (hc : Coupled base fence c) (hs : CellStep e c c') (ha : a ∈ c'.attempts)
    (hf : a.status = .failed) : a ∈ c.attempts ∨ ∃ now lease completion,
    e = .complete now lease .failed completion ∧ OfLease lease a := by
  have hold : ∀ (past : List AttemptRow) (last : Option AttemptRow) (cur : AttemptRow),
      a ∈ past ++ [cur] → cur.status ≠ .failed → a ∈ past ++ last.toList := by
    intro past last cur hm hne
    rcases mem_append.mp hm with hp | hl
    · exact mem_append_left _ hp
    · rw [mem_singleton.mp hl] at hf
      exact absurd hf hne
  cases hs with
  | @claimReady row past last now lease leaseDuration hready hl =>
    rcases mem_append.mp ha with hp | hnew
    · exact .inl hp
    · rw [mem_singleton.mp hnew] at hf
      cases hf
  | @reclaim row past cur now lease leaseDuration hrun hexp hretry hcom hopen hl =>
    rcases mem_append.mp ha with hp | hnew
    · exact .inl (hold past (some cur) _ hp (by simp [AttemptRow.abandon]))
    · rw [mem_singleton.mp hnew] at hf
      cases hf
  | renew hown => exact .inl ha
  | startAttempt hown hid hst hb => exact .inl (hold _ _ _ ha (by simp [AttemptRow.start]))
  | markEffectStarted hown hid hst hnone => exact .inl (hold _ _ _ ha (by simp [hst]))
  | markEffectCommitted hown hid hst hse hnone => exact .inl (hold _ _ _ ha (by simp [hst]))
  | releaseBeforeEffect hown hopen hnone =>
    exact .inl (hold _ _ _ ha (by simp [AttemptRow.abandon]))
  | @complete row past cur now lease terminal completion hown hid hst hv hmut =>
    have ho := owned_last hc hown hid
    by_cases hcf : completion.status = .failed
    · have hterm : terminal = .failed := by
        rcases completion_cases hv with ⟨_, h⟩ | ⟨h, _⟩ | ⟨_, h⟩
        · rw [hcf] at h; cases h
        · exact h
        · rw [hcf] at h; cases h
      subst hterm
      rcases mem_append.mp ha with hp | hl
      · exact .inl (mem_append_left _ hp)
      · refine .inr ⟨now, lease, completion, rfl, ?_⟩
        cases Option.mem_toList.mp hl
        exact ⟨ho.1, ho.2.1, ho.2.2⟩
    · exact .inl (hold _ _ _ ha hcf)
  | requeueFailed hfailed hretry hmut => exact .inl ha

theorem Shown.step {es : List Event}
    (hc : Coupled base fence c) (h : Shown es c) (hs : CellStep e c c') : Shown (es ++ [e]) c' := by
  have hsplit : ∀ {d : Event}, d ∈ es ++ [e] → d ∈ es ∨ e = d := by
    intro d hd
    rcases mem_append.mp hd with hd | hd
    · exact .inl hd
    · exact .inr (mem_singleton.mp hd).symm
  refine ⟨?_, ?_, ?_, ?_, ?_⟩
  · intro now lease hm
    rcases hsplit hm with hm | he
    · obtain ⟨hn, a, ha, hl⟩ := h.claimed now lease hm
      obtain ⟨a', ha', hev⟩ := step_keeps hc hs ha
      rw [(step_registered hs).1]
      exact ⟨hn, a', ha', hl.evolves hev⟩
    · exact step_claimed hs he
  · intro now lease hm
    rcases hsplit hm with hm | he
    · obtain ⟨a, ha, hl, hne⟩ := h.started now lease hm
      obtain ⟨a', ha', hev⟩ := step_keeps hc hs ha
      exact ⟨a', ha', hl.evolves hev, by rw [hev.started hne]; exact hne⟩
    · exact step_started hc hs he
  · intro now lease hm
    rcases hsplit hm with hm | he
    · obtain ⟨a, ha, hl, hne⟩ := h.committed now lease hm
      obtain ⟨a', ha', hev⟩ := step_keeps hc hs ha
      exact ⟨a', ha', hl.evolves hev, by rw [hev.committed hne]; exact hne⟩
    · exact step_committed hc hs he
  · intro now lease completion hm
    rcases hsplit hm with hm | he
    · exact absurd hs (succeeded_stuck (h.succeeded now lease completion hm).1)
    · exact step_succeeded hc hs he
  · intro a ha hf
    rcases step_failed hc hs ha hf with hold | ⟨now, lease, completion, he, hl⟩
    · obtain ⟨now, lease, completion, hm, hl⟩ := h.failed a hold hf
      exact ⟨now, lease, completion, mem_append_left _ hm, hl⟩
    · exact ⟨now, lease, completion, by simp [he], hl⟩

variable {calls : List Call} {k : NodeKey}

theorem Present.shown {db : Db} {c : Cell} (h : Present calls db k record c) :
    Shown (eventsOf calls k) c :=
  h.history (shown_init k record) (fun _ _ _ _ hc hi => hi.step hc)

theorem present_of_event (h : e ∈ eventsOf calls k) :
    ∃ record c, Present calls (after calls) k record c := by
  rcases tracked calls k with habs | hpres
  · rw [habs.events] at h
    cases h
  · exact hpres

theorem present_of_attempt (h : a ∈ (after calls).attemptsOf k) :
    ∃ record c, Present calls (after calls) k record c := by
  rcases tracked calls k with habs | hpres
  · rw [habs.attempts] at h
    cases h
  · exact hpres

/-- The attempt carries the target snapshot and the policy decision of a binding. -/
def Carries (binding : AttemptBinding) (a : AttemptRow) : Prop :=
  a.targetSnapshotDigest = some binding.targetSnapshot ∧
    a.policyDecisionID = some binding.policyDecisionRef

/-- Every started attempt carries the binding some start gave it. -/
def StartsShown (es : List Event) (c : Cell) : Prop :=
  ∀ a ∈ c.attempts, a.startedAt ≠ none →
    ∃ now lease binding, Event.startAttempt now lease binding ∈ es ∧ Carries binding a

theorem step_bound (hs : CellStep e c c') (ha : a ∈ c'.attempts) (hst : a.startedAt ≠ none) :
    (∃ b ∈ c.attempts, b.startedAt ≠ none ∧ a.targetSnapshotDigest = b.targetSnapshotDigest ∧
      a.policyDecisionID = b.policyDecisionID) ∨
      ∃ now lease binding, e = .startAttempt now lease binding ∧ Carries binding a := by
  have hold : ∀ (past : List AttemptRow) (cur cur' : AttemptRow), a ∈ past ++ [cur'] →
      cur'.startedAt = cur.startedAt → cur'.targetSnapshotDigest = cur.targetSnapshotDigest →
      cur'.policyDecisionID = cur.policyDecisionID →
      ∃ b ∈ past ++ [cur], b.startedAt ≠ none ∧ a.targetSnapshotDigest = b.targetSnapshotDigest ∧
        a.policyDecisionID = b.policyDecisionID := by
    intro past cur cur' hm hs hd hp
    rcases mem_append.mp hm with hm | hm
    · exact ⟨a, mem_append_left _ hm, hst, rfl, rfl⟩
    · obtain rfl := mem_singleton.mp hm
      exact ⟨cur, by simp, hs ▸ hst, hd, hp⟩
  cases hs with
  | claimReady hready hl =>
    rcases mem_append.mp ha with hp | hnew
    · exact .inl ⟨a, hp, hst, rfl, rfl⟩
    · rw [mem_singleton.mp hnew] at hst
      exact absurd rfl hst
  | @reclaim row past cur now lease leaseDuration hrun hexp hretry hcom hopen hl =>
    rcases mem_append.mp ha with hp | hnew
    · exact .inl (hold past cur _ hp rfl rfl rfl)
    · rw [mem_singleton.mp hnew] at hst
      exact absurd rfl hst
  | @startAttempt row past cur now lease binding hown hid hpend hb =>
    rcases mem_append.mp ha with hp | hnew
    · exact .inl ⟨a, mem_append_left _ hp, hst, rfl, rfl⟩
    · rw [mem_singleton.mp hnew]
      exact .inr ⟨now, lease, binding, rfl, rfl, rfl⟩
  | renew hown => exact .inl ⟨a, ha, hst, rfl, rfl⟩
  | requeueFailed hfailed hretry hmut => exact .inl ⟨a, ha, hst, rfl, rfl⟩
  | markEffectStarted hown hid hrun hnone => exact .inl (hold _ _ _ ha rfl rfl rfl)
  | markEffectCommitted hown hid hrun hse hnone => exact .inl (hold _ _ _ ha rfl rfl rfl)
  | releaseBeforeEffect hown hopen hnone => exact .inl (hold _ _ _ ha rfl rfl rfl)
  | complete hown hid hrun hv hmut => exact .inl (hold _ _ _ ha rfl rfl rfl)

theorem StartsShown.step {es : List Event} (h : StartsShown es c)
    (hs : CellStep e c c') : StartsShown (es ++ [e]) c' := by
  intro a ha hst
  rcases step_bound hs ha hst with ⟨b, hb, hbst, hdigest, hpolicy⟩ | ⟨now, lease, binding, rfl, hc⟩
  · obtain ⟨now, lease, binding, hm, hd, hp⟩ := h b hb hbst
    exact ⟨now, lease, binding, mem_append_left _ hm, hdigest.trans hd, hpolicy.trans hp⟩
  · exact ⟨now, lease, binding, by simp, hc⟩

theorem Present.startsShown {db : Db} {c : Cell} (h : Present calls db k record c) :
    StartsShown (eventsOf calls k) c :=
  h.history (fun _ _ ha => absurd ha not_mem_nil) (fun _ _ _ _ _ hi => hi.step)

end AiCloud.NodeLease
