import AiCloud.Lib.Run
import AiCloud.NodeLease.Store
import AiCloud.Lib.Numbers

/-!
# Runs of the node-lease store

A call carries its caller's context and the clock reading and random texts of its
transaction. Callers, leases and every other argument are unrestricted. A cell is the
runtime row of one node with its attempts; `CellStep` says once what a successful
operation can do to it.
-/
namespace AiCloud.NodeLease

open Lib Execution Identity List Option

inductive Op
  | register (record : NodeRuntimeRecord)
  | claim (tokenRand attemptRand : Option String) (executionID : String) (planRevision : Int)
      (nodeID owner : String) (leaseDuration : Duration)
  | renew (lease : NodeLease) (leaseDuration : Duration)
  | startAttempt (lease : NodeLease) (binding : AttemptBinding)
  | markEffectStarted (lease : NodeLease)
  | markEffectCommitted (lease : NodeLease)
  | releaseBeforeEffect (lease : NodeLease)
  | complete (lease : NodeLease) (terminal : NodeState) (completion : AttemptCompletion)
  | requeueFailed (executionID : String) (planRevision : Int) (nodeID : String)

structure Call where
  ctx : Context
  now : Time
  op : Op

inductive Reply
  | done
  | lease (lease : NodeLease)
  | attempt (attempt : AttemptRow)
  deriving DecidableEq

def Call.tx (c : Call) : StoreTx Reply :=
  match c.op with
  | .register record => do register c.ctx c.now record; return .done
  | .claim tokenRand attemptRand executionID planRevision nodeID owner leaseDuration => do
    return .lease (← claim c.ctx c.now tokenRand attemptRand executionID planRevision nodeID owner
      leaseDuration)
  | .renew lease leaseDuration => do return .lease (← renew c.ctx c.now lease leaseDuration)
  | .startAttempt lease binding => do return .attempt (← startAttempt c.ctx c.now lease binding)
  | .markEffectStarted lease => do markEffectStarted c.ctx c.now lease; return .done
  | .markEffectCommitted lease => do markEffectCommitted c.ctx c.now lease; return .done
  | .releaseBeforeEffect lease => do releaseBeforeEffect c.ctx c.now lease; return .done
  | .complete lease terminal completion => do
    complete c.ctx c.now lease terminal completion
    return .done
  | .requeueFailed executionID planRevision nodeID => do
    requeueFailed c.ctx c.now executionID planRevision nodeID
    return .done

def exec (db : Db) (c : Call) : Except StoreError Reply × Db := Tx.commit c.tx db

def after (calls : List Call) : Db := run exec Db.empty calls

/-- The node a call works on: its scope comes from the principal. -/
def Call.key (c : Call) (p : Principal) : NodeKey :=
  match c.op with
  | .register record => recordKey p record
  | .claim _ _ executionID planRevision nodeID _ _ => nodeKey p executionID planRevision nodeID
  | .renew lease _ => leaseKey p lease
  | .startAttempt lease _ => leaseKey p lease
  | .markEffectStarted lease => leaseKey p lease
  | .markEffectCommitted lease => leaseKey p lease
  | .releaseBeforeEffect lease => leaseKey p lease
  | .complete lease _ _ => leaseKey p lease
  | .requeueFailed executionID planRevision nodeID => nodeKey p executionID planRevision nodeID

/-- The call succeeds on this database, for this node, with this reply. -/
def Succeeds (db : Db) (c : Call) (k : NodeKey) (reply : Reply) : Prop :=
  ∃ p, scopedPrincipal c.ctx = .ok p ∧ c.key p = k ∧ (exec db c).1 = .ok reply

variable {k : NodeKey}

theorem Succeeds.tx {db : Db} {c : Call} {reply : Reply} (h : Succeeds db c k reply) :
    ∃ p, scopedPrincipal c.ctx = .ok p ∧ c.key p = k ∧ c.tx db = .ok (reply, (exec db c).2) := by
  obtain ⟨p, hp, hk, hr⟩ := h
  exact ⟨p, hp, hk, Tx.commit_ok.mp (Prod.ext hr rfl)⟩

/-- Some call of the run registered the node with this record. -/
def Registered (calls : List Call) (k : NodeKey) (record : NodeRuntimeRecord) : Prop :=
  ∃ pre c post, calls = pre ++ c :: post ∧ c.op = .register record ∧ Succeeds (after pre) c k .done

structure Cell where
  row : NodeRow
  past : List AttemptRow
  last : Option AttemptRow

def Cell.attempts (c : Cell) : List AttemptRow := c.past ++ c.last.toList

def newAttempt (row : NodeRow) (lease : NodeLease) (now : Time) : AttemptRow :=
  AttemptRow.pending row.key lease.attemptRef lease.attemptNumber lease.fence lease.ownerWorkerID
    (row.idempotencyKey.getD "") now

def claimedRow (row : NodeRow) (lease : NodeLease) (now : Time) (leaseDuration : Duration) :
    NodeRow :=
  row.claimed lease.attemptNumber lease.fence lease.ownerWorkerID lease.token now leaseDuration

/-- The lease names the node; its scope is the holder's. -/
def Names (k : NodeKey) (lease : NodeLease) : Prop :=
  lease.executionRef = k.executionID ∧ lease.planRevision = k.planRevision ∧
    lease.nodeRef = k.nodeID

/-- The lease names the row's node and continues its numbering. -/
def Continues (row : NodeRow) (lease : NodeLease) : Prop :=
  lease.attemptNumber = row.attemptNumber + 1 ∧ lease.fence = row.leaseFence + 1 ∧
    Names row.key lease

inductive Event
  | claim (now : Time) (lease : NodeLease)
  | renew (now : Time) (lease : NodeLease)
  | startAttempt (now : Time) (lease : NodeLease) (binding : AttemptBinding)
  | markEffectStarted (now : Time) (lease : NodeLease)
  | markEffectCommitted (now : Time) (lease : NodeLease)
  | releaseBeforeEffect (now : Time) (lease : NodeLease)
  | complete (now : Time) (lease : NodeLease) (terminal : NodeState)
      (completion : AttemptCompletion)
  | requeueFailed (now : Time)

inductive CellStep : Event → Cell → Cell → Prop
  | claimReady {row : NodeRow} {past : List AttemptRow} {last : Option AttemptRow} {now : Time}
      {lease : NodeLease} {leaseDuration : Duration} : row.state = .ready → Continues row lease →
      CellStep (.claim now lease) ⟨row, past, last⟩
        ⟨claimedRow row lease now leaseDuration, past ++ last.toList,
          some (newAttempt row lease now)⟩
  | reclaim {row : NodeRow} {past : List AttemptRow} {cur : AttemptRow} {now : Time}
      {lease : NodeLease} {leaseDuration : Duration} :
      row.state = .running → ¬ later row.leaseExpiresAt (some now) → row.retrySafe = true →
      row.effectCommittedAt = none → cur.status.isOpen → Continues row lease →
      CellStep (.claim now lease) ⟨row, past, some cur⟩
        ⟨claimedRow row lease now leaseDuration, past ++ [cur.abandon now],
          some (newAttempt row lease now)⟩
  | renew {row : NodeRow} {past : List AttemptRow} {last : Option AttemptRow} {now : Time}
      {lease : NodeLease} {leaseDuration : Duration} :
      leaseOwnsRow row { lease with attemptNumber := row.attemptNumber } now →
      CellStep (.renew now lease) ⟨row, past, last⟩
        ⟨{ row with
            heartbeatAt := some now, leaseExpiresAt := some (now + leaseDuration)
            updatedAt := now }, past, last⟩
  | startAttempt {row : NodeRow} {past : List AttemptRow} {cur : AttemptRow} {now : Time}
      {lease : NodeLease} {binding : AttemptBinding} :
      leaseOwnsRow row lease now → cur.attemptID = lease.attemptRef → cur.status = .pending →
      validateAttemptBinding binding = .ok () →
      CellStep (.startAttempt now lease binding) ⟨row, past, some cur⟩
        ⟨row, past, some (cur.start binding now)⟩
  | markEffectStarted {row : NodeRow} {past : List AttemptRow} {cur : AttemptRow} {now : Time}
      {lease : NodeLease} :
      leaseOwnsRow row lease now → cur.attemptID = lease.attemptRef → cur.status = .running →
      row.effectStartedAt = none →
      CellStep (.markEffectStarted now lease) ⟨row, past, some cur⟩
        ⟨{ row with effectStartedAt := some now, updatedAt := now }, past,
          some { cur with effectStartedAt := some now, updatedAt := now }⟩
  | markEffectCommitted {row : NodeRow} {past : List AttemptRow} {cur : AttemptRow} {now : Time}
      {lease : NodeLease} :
      leaseOwnsRow row lease now → cur.attemptID = lease.attemptRef → cur.status = .running →
      row.effectStartedAt ≠ none → row.effectCommittedAt = none →
      CellStep (.markEffectCommitted now lease) ⟨row, past, some cur⟩
        ⟨{ row with effectCommittedAt := some now, updatedAt := now }, past,
          some { cur with effectCommittedAt := some now, updatedAt := now }⟩
  | releaseBeforeEffect {row : NodeRow} {past : List AttemptRow} {cur : AttemptRow} {now : Time}
      {lease : NodeLease} :
      leaseOwnsRow row lease now → cur.status.isOpen → row.effectStartedAt = none →
      CellStep (.releaseBeforeEffect now lease) ⟨row, past, some cur⟩
        ⟨row.unleased .ready now, past, some (cur.abandon now)⟩
  | complete {row : NodeRow} {past : List AttemptRow} {cur : AttemptRow} {now : Time}
      {lease : NodeLease} {terminal : NodeState} {completion : AttemptCompletion} :
      leaseOwnsRow row lease now → cur.attemptID = lease.attemptRef →
      (cur.status = .running ∨ (completion.status = .cancelled ∧ cur.status = .pending)) →
      validateAttemptCompletion terminal completion = .ok () →
      ¬ (terminal = .succeeded ∧ isMutation row.effectClass ∧ row.effectCommittedAt = none) →
      CellStep (.complete now lease terminal completion) ⟨row, past, some cur⟩
        ⟨row.unleased terminal now, past, some (cur.complete completion now)⟩
  | requeueFailed {row : NodeRow} {past : List AttemptRow} {last : Option AttemptRow} {now : Time} :
      row.state = .failed → row.retrySafe = true → ¬ isMutation row.effectClass →
      CellStep (.requeueFailed now) ⟨row, past, last⟩ ⟨row.unleased .ready now, past, last⟩

/-- Any number of successful operations, with the events they were. -/
abbrev CellTrace : Cell → List Event → Cell → Prop := Trace CellStep

def initCell (k : NodeKey) (record : NodeRuntimeRecord) (now : Time) : Cell :=
  ⟨registeredRow k record now, [], none⟩

theorem completion_cases {terminal : NodeState} {completion : AttemptCompletion}
    (h : validateAttemptCompletion terminal completion = .ok ()) :
    (terminal = .succeeded ∧ completion.status = .succeeded) ∨
    (terminal = .failed ∧ completion.status = .failed) ∨
    (terminal = .cancelled ∧ completion.status = .cancelled) := by
  unfold validateAttemptCompletion at h
  split at h
  · cases h
  split at h
  · cases h
  rename_i hm
  exact not_not.mp hm

theorem completion_state {terminal : NodeState} {completion : AttemptCompletion}
    (h : validateAttemptCompletion terminal completion = .ok ()) :
    terminal ≠ .ready ∧ terminal ≠ .running ∧ ¬ completion.status.isOpen := by
  rcases completion_cases h with ⟨ht, hs⟩ | ⟨ht, hs⟩ | ⟨ht, hs⟩ <;>
    simp [ht, hs, AttemptStatus.isOpen]

theorem step_registered {e : Event} {c c' : Cell} (h : CellStep e c c') :
    c'.row.key = c.row.key ∧ c'.row.effectClass = c.row.effectClass ∧
      c'.row.retrySafe = c.row.retrySafe := by
  cases h <;> exact ⟨rfl, rfl, rfl⟩

structure Coupled (base fence : Int) (c : Cell) : Prop where
  numbers : c.attempts.map AttemptRow.attemptNumber = numbersFrom base c.attempts.length
  fences : ∀ a ∈ c.attempts, a.leaseFence = fence + (a.attemptNumber - base)
  rowNumber : c.row.attemptNumber = base + c.attempts.length
  rowFence : c.row.leaseFence = fence + (c.row.attemptNumber - base)
  closed : ∀ a ∈ c.past, ¬ a.status.isOpen
  running : c.row.state = .running ↔ ∃ cur, c.last = some cur ∧ cur.status.isOpen
  started : c.row.effectStartedAt = c.last.bind AttemptRow.effectStartedAt
  committed : c.row.effectCommittedAt = c.last.bind AttemptRow.effectCommittedAt
  first : c.last = none → c.past = []

variable {now : Time}

theorem coupled_init {record : NodeRuntimeRecord} (h : record.state ≠ .running) :
    Coupled record.attemptNumber record.leaseFence (initCell k record now) := by
  constructor <;> simp [initCell, Cell.attempts, numbersFrom, registeredRow, h]

variable {base fence : Int} {past : List AttemptRow}

theorem Coupled.last_number {row : NodeRow} {cur : AttemptRow}
    (h : Coupled base fence ⟨row, past, some cur⟩) :
    cur.attemptNumber = row.attemptNumber ∧ cur.leaseFence = row.leaseFence ∧
      ∀ a ∈ past, a.attemptNumber < row.attemptNumber := by
  have hn := h.numbers
  have hr := h.rowNumber
  have hf : row.leaseFence = fence + (row.attemptNumber - base) := h.rowFence
  simp only [Cell.attempts, toList_some, map_append, map_cons, map_nil,
    length_append, length_cons, length_nil, Nat.zero_add] at hn hr
  rw [numbersFrom_succ] at hn
  obtain ⟨hp, hc⟩ := append_inj' hn rfl
  have hcur : cur.attemptNumber = base + 1 + past.length := singleton_inj.mp hc
  have hfc := h.fences cur (by simp [Cell.attempts])
  refine ⟨by omega, by omega, ?_⟩
  intro a ha
  have hm : a.attemptNumber ∈ numbersFrom base past.length := by
    rw [← hp]
    exact mem_map_of_mem ha
  have hb := mem_numbersFrom hm
  omega

theorem Coupled.past_fence {c : Cell} (h : Coupled base fence c) :
    ∀ a ∈ c.past, a.leaseFence < c.row.leaseFence := by
  obtain ⟨row, past, last⟩ := c
  intro a ha
  cases last with
  | none =>
    rw [h.first rfl] at ha
    cases ha
  | some cur =>
    have hn := h.last_number.2.2 a ha
    have ha := h.fences a (by simp [Cell.attempts, ha])
    have hr : row.leaseFence = fence + (row.attemptNumber - base) := h.rowFence
    change a.leaseFence < row.leaseFence
    omega

/-- Changing the newest attempt in place, but not its number or fence, keeps
the numbering part of the coupling. -/
theorem Coupled.replace_last {row row' : NodeRow} {cur cur' : AttemptRow}
    (h : Coupled base fence ⟨row, past, some cur⟩) (hnum : cur'.attemptNumber = cur.attemptNumber)
    (hfen : cur'.leaseFence = cur.leaseFence) (hrn : row'.attemptNumber = row.attemptNumber)
    (hrf : row'.leaseFence = row.leaseFence) (hrun : row'.state = .running ↔ cur'.status.isOpen)
    (hs : row'.effectStartedAt = cur'.effectStartedAt)
    (hc : row'.effectCommittedAt = cur'.effectCommittedAt) :
    Coupled base fence ⟨row', past, some cur'⟩ := by
  have hn := h.numbers
  have hr := h.rowNumber
  have hf : row.leaseFence = fence + (row.attemptNumber - base) := h.rowFence
  simp only [Cell.attempts, toList_some, map_append, map_cons, map_nil,
    length_append, length_cons, length_nil] at hn hr
  constructor
  · simpa only [Cell.attempts, toList_some, map_append, map_cons, map_nil,
      length_append, length_cons, length_nil, hnum] using hn
  · intro a ha
    simp only [Cell.attempts, toList_some, mem_append, mem_singleton] at ha
    rcases ha with ha | rfl
    · exact h.fences a (by simp [Cell.attempts, ha])
    · rw [hfen, hnum]
      exact h.fences cur (by simp [Cell.attempts])
  · simpa only [Cell.attempts, toList_some, length_append, length_cons, length_nil, hrn] using hr
  · simpa only [hrf, hrn] using hf
  · exact h.closed
  · simpa using hrun
  · simpa using hs
  · simpa using hc
  · simp

theorem Coupled.claimed {row : NodeRow} {past' : List AttemptRow} {last : Option AttemptRow}
    {lease : NodeLease} {leaseDuration : Duration} (h : Coupled base fence ⟨row, past, last⟩)
    (hl : Continues row lease)
    (hnum : past'.map AttemptRow.attemptNumber = (past ++ last.toList).map AttemptRow.attemptNumber)
    (hfen : ∀ a ∈ past', a.leaseFence = fence + (a.attemptNumber - base))
    (hcl : ∀ a ∈ past', ¬ a.status.isOpen) : Coupled base fence
    ⟨claimedRow row lease now leaseDuration, past', some (newAttempt row lease now)⟩ := by
  have hn := h.numbers
  have hr := h.rowNumber
  have hf : row.leaseFence = fence + (row.attemptNumber - base) := h.rowFence
  obtain ⟨hln, hlf, _⟩ := hl
  have hlen : past'.length = (past ++ last.toList).length := by
    simpa using congrArg length hnum
  simp only [Cell.attempts] at hn hr
  constructor
  · simp only [Cell.attempts, toList_some, map_append, map_cons, map_nil,
      length_append, length_cons, length_nil, Nat.zero_add]
    rw [numbersFrom_succ, hlen, hnum, hn]
    congr 2
    simp only [newAttempt, AttemptRow.pending]
    omega
  · intro a ha
    simp only [Cell.attempts, toList_some, mem_append, mem_singleton] at ha
    rcases ha with ha | rfl
    · exact hfen a ha
    · simp only [newAttempt, AttemptRow.pending]
      omega
  · simp only [Cell.attempts, toList_some, length_append, length_cons,
      length_nil, claimedRow, NodeRow.claimed]
    simp only [length_append] at hr hlen
    omega
  · simp only [claimedRow, NodeRow.claimed]
    omega
  · exact hcl
  · simp [claimedRow, NodeRow.claimed, newAttempt, AttemptRow.pending, AttemptStatus.isOpen]
  · rfl
  · rfl
  · simp

theorem Coupled.step {e : Event} {c c' : Cell} (h : Coupled base fence c)
    (hs : CellStep e c c') : Coupled base fence c' := by
  cases hs with
  | @claimReady row past last now lease leaseDuration hready hl =>
    refine h.claimed hl rfl h.fences ?_
    intro a ha ho
    rcases mem_append.mp ha with hp | hlast
    · exact h.closed a hp ho
    · have hrun := h.running.mpr ⟨a, mem_toList.mp hlast, ho⟩
      rw [show row.state = .ready from hready] at hrun
      cases hrun
  | @reclaim row past cur now lease leaseDuration hrun hexp hretry hcom hopen hl =>
    refine h.claimed hl (by simp [AttemptRow.abandon]) ?_ ?_
    · intro a ha
      rcases mem_append.mp ha with hp | hlast
      · exact h.fences a (by simp [Cell.attempts, hp])
      · rw [mem_singleton.mp hlast]
        exact h.fences cur (by simp [Cell.attempts])
    · intro a ha ho
      rcases mem_append.mp ha with hp | hlast
      · exact h.closed a hp ho
      · rw [mem_singleton.mp hlast] at ho
        simp [AttemptRow.abandon, AttemptStatus.isOpen] at ho
  | renew hown => exact ⟨h.numbers, h.fences, h.rowNumber, h.rowFence, h.closed, h.running,
      h.started, h.committed, h.first⟩
  | @startAttempt row past cur now lease binding hown hid hst hb =>
    refine h.replace_last rfl rfl rfl rfl ?_ h.started h.committed
    simp [hown.1, AttemptRow.start, AttemptStatus.isOpen]
  | @markEffectStarted row past cur now lease hown hid hst hnone =>
    refine h.replace_last rfl rfl rfl rfl ?_ rfl h.committed
    simp [hown.1, hst, AttemptStatus.isOpen]
  | @markEffectCommitted row past cur now lease hown hid hst hse hnone =>
    refine h.replace_last rfl rfl rfl rfl ?_ h.started rfl
    simp [hown.1, hst, AttemptStatus.isOpen]
  | releaseBeforeEffect hown hopen hnone =>
    refine h.replace_last rfl rfl rfl rfl ?_ h.started h.committed
    simp [NodeRow.unleased, AttemptRow.abandon, AttemptStatus.isOpen]
  | complete hown hid hst hv hmut =>
    refine h.replace_last rfl rfl rfl rfl ?_ h.started h.committed
    obtain ⟨_, hnr, hno⟩ := completion_state hv
    simp [NodeRow.unleased, AttemptRow.complete, hnr, hno]
  | @requeueFailed row past last now hfailed hretry hmut =>
    refine ⟨h.numbers, h.fences, h.rowNumber, h.rowFence, h.closed, ?_, h.started, h.committed,
      h.first⟩
    have hnr : row.state ≠ .running := by rw [hfailed]; simp
    have hno := mt h.running.mpr hnr
    simpa [NodeRow.unleased] using hno

/-- The invariant rule for cells: along every trace the coupling may be used. -/
theorem cell_invariant {record : NodeRuntimeRecord} {es : List Event} {c : Cell}
    (hstate : record.state ≠ .running) (ht : CellTrace (initCell k record now) es c)
    {I : List Event → Cell → Prop} (init : I [] (initCell k record now))
    (next : ∀ es e x x', Coupled record.attemptNumber record.leaseFence x → I es x →
      CellStep e x x' → I (es ++ [e]) x') :
    Coupled record.attemptNumber record.leaseFence c ∧ I es c := by
  refine ht.invariant (I := fun es x => Coupled record.attemptNumber record.leaseFence x ∧ I es x)
    ⟨coupled_init hstate, init⟩ ?_
  rintro es e x x' ⟨hc, hi⟩ hs
  exact ⟨hc.step hs, next es e x x' hc hi hs⟩

end AiCloud.NodeLease
