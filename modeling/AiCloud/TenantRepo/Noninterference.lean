import AiCloud.Tasks.Types
import AiCloud.Lib.Sorted
import AiCloud.Lib.Unwinding

/-!
# Scoped tasks over the in-memory repository

`MemoryTasks` is one map for all projects; `ScopedTasks` stands in front of it and shows
a caller the tasks of the caller's own project only. The in-memory repository provides
no durable command store, so creates and updates go through. Stores with the same tasks
of one project cannot be told apart by that project's principals.
-/
namespace AiCloud.TenantRepo

open Lib.Text Identity Tasks List Option Lib

/-- The map, whose entries are stored under the id of the task. -/
structure MemoryTasks where
  m : List Task
  keyed : m.Pairwise (fun a b => a.id ≠ b.id)

variable (r : MemoryTasks)

namespace MemoryTasks

def lookup (id : String) : Option Task := r.m.find? (fun task => task.id = id)

/-- `r.m[task.ID] = task`. -/
def put (task : Task) : MemoryTasks where
  m := task :: r.m.filter (fun t => t.id ≠ task.id)
  keyed := by
    rw [pairwise_cons]
    refine ⟨fun t ht => ?_, r.keyed.filter _⟩
    have := (mem_filter.mp ht).2
    exact fun he => of_decide_eq_true this he.symm

/-- What `List` may return: a map is iterated in any order, and sorting by creation time
says nothing about tasks created at the same time. -/
def Lists (items : List Task) : Prop :=
  items.Perm r.m ∧ items.Pairwise (fun a b => ¬ b.createdAt < a.createdAt)

def get (id : String) : Except CommandError Task :=
  match r.lookup id with
  | none => .error .notFound
  | some task => .ok task

def create (task : Task) : Except CommandError Task × MemoryTasks :=
  if (r.lookup task.id).isSome then (.error (.invalid "task already exists"), r)
  else
    let task := if task.version = 0 then { task with version := 1 } else task
    let task := if task.status = .other "" then { task with status := .created } else task
    (.ok task, r.put task)

def update (task : Task) : Except CommandError Task × MemoryTasks :=
  match r.lookup task.id with
  | none => (.error .notFound, r)
  | some current =>
    if task.version ≠ current.version then (.error .versionConflict, r)
    else
      let task := { task with version := task.version + 1 }
      (.ok task, r.put task)

end MemoryTasks

namespace ScopedTasks

def requireProjectPrincipal (ctx : Context) : Except CommandError Principal :=
  match scopedPrincipal ctx with
  | .error e => .error (.identity e)
  | .ok p => .ok p

/-- `List`, given the tasks that the base repository listed. -/
def list (items : List Task) (ctx : Context) : Except CommandError (List Task) :=
  match requireProjectPrincipal ctx with
  | .error e => .error e
  | .ok p => .ok (items.filter (fun task => p.ownsProject task.tenantID task.projectID))

variable (base : MemoryTasks)

def get (ctx : Context) (id : String) : Except CommandError Task :=
  match requireProjectPrincipal ctx with
  | .error e => .error e
  | .ok p =>
    match base.get id with
    | .error e => .error e
    | .ok task =>
      if ¬ p.ownsProject task.tenantID task.projectID then .error .notFound else .ok task

def create (ctx : Context) (task : Task) :
    Except CommandError Task × MemoryTasks :=
  match requireProjectPrincipal ctx with
  | .error e => (.error e, base)
  | .ok p =>
    if task.tenantID ≠ "" ∧ task.tenantID ≠ p.tenantID then
      (.error (.invalid "task tenant identity does not match principal"), base)
    else if task.projectID ≠ "" ∧ task.projectID ≠ p.projectID then
      (.error (.invalid "task project identity does not match principal"), base)
    else if task.createdBy ≠ "" ∧ task.createdBy ≠ p.subjectID then
      (.error (.invalid "task creator identity does not match principal"), base)
    else base.create { task with
      tenantID := p.tenantID, projectID := p.projectID, createdBy := p.subjectID }

def update (ctx : Context) (task : Task) :
    Except CommandError Task × MemoryTasks :=
  match requireProjectPrincipal ctx with
  | .error e => (.error e, base)
  | .ok p =>
    match base.get task.id with
    | .error e => (.error e, base)
    | .ok current =>
      if ¬ p.ownsProject current.tenantID current.projectID then (.error .notFound, base)
      else if task.tenantID ≠ current.tenantID ∨ task.projectID ≠ current.projectID ∨
          task.createdBy ≠ current.createdBy then
        (.error (.invalid "task tenant, project and creator identity are immutable"), base)
      else base.update task

end ScopedTasks

inductive Call
  | list (ctx : Context)
  | get (ctx : Context) (id : String)
  | create (ctx : Context) (task : Task)
  | update (ctx : Context) (task : Task)

inductive Reply
  | tasks (result : Except CommandError (List Task))
  | task (result : Except CommandError Task)

def Call.ctx : Call → Context
  | .list ctx | .get ctx _ | .create ctx _ | .update ctx _ => ctx

/-- One call through `ScopedTasks`; only `List` leaves the reply open. -/
def Step (call : Call) (reply : Reply) (r' : MemoryTasks) : Prop :=
  match call with
  | .list ctx => r' = r ∧ ∃ items, r.Lists items ∧ reply = .tasks (ScopedTasks.list items ctx)
  | .get ctx id => r' = r ∧ reply = .task (ScopedTasks.get r ctx id)
  | .create ctx task =>
    r' = (ScopedTasks.create r ctx task).2 ∧ reply = .task (ScopedTasks.create r ctx task).1
  | .update ctx task =>
    r' = (ScopedTasks.update r ctx task).2 ∧ reply = .task (ScopedTasks.update r ctx task).1

variable {id : String}

namespace MemoryTasks

variable {r : MemoryTasks}

theorem mem_put {task t : Task} : t ∈ (r.put task).m ↔ t = task ∨ t ∈ r.m ∧ t.id ≠ task.id := by
  simp [put]

theorem lookup_eq_some {task : Task} : r.lookup id = some task ↔ task ∈ r.m ∧ task.id = id := by
  constructor
  · intro h
    exact ⟨mem_of_find?_eq_some h, by simpa using find?_some h⟩
  · rintro ⟨hmem, rfl⟩
    cases hfind : r.lookup task.id with
    | none => exact absurd (find?_eq_none.mp hfind task hmem) (by simp)
    | some found =>
      have hid : found.id = task.id := by simpa using find?_some hfind
      have : Std.Symm (fun a b : Task => a.id ≠ b.id) := ⟨fun _ _ h => h.symm⟩
      by_contra hne
      exact r.keyed.forall (mem_of_find?_eq_some hfind) hmem (fun he => hne (congrArg some he)) hid

theorem lookup_isSome : (r.lookup id).isSome ↔ ∃ task ∈ r.m, task.id = id := by
  simp [lookup]

end MemoryTasks

structure Project where
  (tenantID projectID : String)

variable (P : Project)

/-- The task's tenant and project, read without surrounding blanks. -/
def Project.Holds (task : Task) : Prop :=
  P.tenantID = trimSpace task.tenantID ∧ P.projectID = trimSpace task.projectID

instance : DecidablePred P.Holds := fun _ => inferInstanceAs (Decidable (_ ∧ _))

/-- Whoever the call is admitted for is a principal of the project. -/
def Call.By (call : Call) : Prop :=
  ∀ p, scopedPrincipal call.ctx = .ok p → p.tenantID = P.tenantID ∧ p.projectID = P.projectID

/-- A created task has an id that the store does not use. -/
def Call.Fresh : Call → Prop
  | .create _ task => ∀ t ∈ r.m, t.id ≠ task.id
  | _ => True

def SameTasks (a b : MemoryTasks) : Prop :=
  ∀ task, P.Holds task → (task ∈ a.m ↔ task ∈ b.m)

/-- The tasks of all other projects are those of before. -/
def KeepsOthers (before after : MemoryTasks) : Prop :=
  ∀ task, ¬ P.Holds task → (task ∈ after.m ↔ task ∈ before.m)

/-- The same reply, up to the order in which a listing shows tasks created at one time. -/
def Reply.Agrees : Reply → Reply → Prop
  | .tasks (.ok items), .tasks (.ok items') =>
    items.Perm items' ∧ items.map Task.createdAt = items'.map Task.createdAt
  | reply, reply' => reply = reply'

theorem Reply.Agrees.refl (reply : Reply) : reply.Agrees reply := by
  cases reply with
  | tasks result => cases result <;> simp [Reply.Agrees]
  | task result => simp [Reply.Agrees]

variable {p : Principal} {ctx : Context}

theorem requireProjectPrincipal_ok (h : ScopedTasks.requireProjectPrincipal ctx = .ok p) :
    scopedPrincipal ctx = .ok p := by
  unfold ScopedTasks.requireProjectPrincipal at h
  cases hp : scopedPrincipal ctx with
  | error e => simp [hp] at h
  | ok q =>
    simp only [hp, Except.ok.injEq] at h
    rw [h]

variable {P : Project} {call : Call}

theorem ownsProject_iff (hby : call.By P)
    (hp : ScopedTasks.requireProjectPrincipal call.ctx = .ok p) (task : Task) :
    p.ownsProject task.tenantID task.projectID ↔ P.Holds task := by
  have hscoped := requireProjectPrincipal_ok hp
  have howns := (requireProject_ok (scopedPrincipal_ok hscoped)).2.owns
  obtain ⟨ht, hj⟩ := hby p hscoped
  unfold Principal.ownsProject Project.Holds
  rw [← ht, ← hj]
  exact ⟨fun h => h.2.2, fun h => ⟨howns.1, howns.2.1, h⟩⟩

/-- The task of the project under an id. -/
def MemoryTasks.visible (P : Project) (id : String) : Option Task :=
  (r.lookup id).filter (fun task => P.Holds task)

variable {task : Task} {a b : MemoryTasks}

theorem MemoryTasks.visible_eq_some {r : MemoryTasks} :
    r.visible P id = some task ↔ task ∈ r.m ∧ task.id = id ∧ P.Holds task := by
  unfold MemoryTasks.visible
  rw [filter_eq_some_iff, MemoryTasks.lookup_eq_some, decide_eq_true_iff, and_assoc]

theorem SameTasks.visible (h : SameTasks P a b) (id : String) :
    a.visible P id = b.visible P id := by
  ext task
  rw [MemoryTasks.visible_eq_some, MemoryTasks.visible_eq_some]
  exact ⟨fun hm => ⟨(h task hm.2.2).mp hm.1, hm.2⟩, fun hm => ⟨(h task hm.2.2).mpr hm.1, hm.2⟩⟩

theorem SameTasks.put (h : SameTasks P a b) (task : Task) :
    SameTasks P (a.put task) (b.put task) := by
  intro t ht
  rw [MemoryTasks.mem_put, MemoryTasks.mem_put, h t ht]

theorem KeepsOthers.put {r : MemoryTasks} (htask : P.Holds task)
    (hid : ∀ t ∈ r.m, t.id = task.id → P.Holds t) : KeepsOthers P r (r.put task) := by
  intro t ht
  rw [MemoryTasks.mem_put]
  constructor
  · rintro (rfl | ⟨hmem, -⟩)
    · exact absurd htask ht
    · exact hmem
  · intro hmem
    exact .inr ⟨hmem, fun he => ht (hid t hmem he)⟩

theorem KeepsOthers.refl (P : Project) (r : MemoryTasks) : KeepsOthers P r r := fun _ _ => Iff.rfl

theorem KeepsOthers.trans {r₁ r₂ r₃ : MemoryTasks} (h₁ : KeepsOthers P r₁ r₂)
    (h₂ : KeepsOthers P r₂ r₃) : KeepsOthers P r₁ r₃ :=
  fun task ht => (h₂ task ht).trans (h₁ task ht)

section OneCall

variable {P : Project} {ctx : Context} {p : Principal}

theorem get_visible (hby : (Call.list ctx).By P)
    (hp : ScopedTasks.requireProjectPrincipal ctx = .ok p) (r : MemoryTasks) (id : String) :
    ScopedTasks.get r ctx id = (r.visible P id).elim (.error .notFound) .ok := by
  unfold ScopedTasks.get MemoryTasks.get MemoryTasks.visible
  simp only [hp]
  cases r.lookup id with
  | none => rfl
  | some task =>
    have howns := ownsProject_iff hby hp task
    by_cases hP : P.Holds task
    · rw [filter_some_pos (by simpa using hP)]
      exact if_neg (not_not.mpr (howns.mpr hP))
    · rw [filter_some_neg (by simpa using hP)]
      exact if_pos (fun h => hP (howns.mp h))

/-- What an update of the visible task replies and leaves behind. -/
def updateVisible (current task : Task) : Except CommandError Task × MemoryTasks :=
  if task.tenantID ≠ current.tenantID ∨ task.projectID ≠ current.projectID ∨
      task.createdBy ≠ current.createdBy then
    (.error (.invalid "task tenant, project and creator identity are immutable"), r)
  else if task.version ≠ current.version then (.error .versionConflict, r)
  else
    (.ok { task with version := task.version + 1 }, r.put { task with version := task.version + 1 })

theorem update_visible (hby : (Call.list ctx).By P)
    (hp : ScopedTasks.requireProjectPrincipal ctx = .ok p) (r : MemoryTasks) (task : Task) :
    ScopedTasks.update r ctx task =
      (r.visible P task.id).elim (.error .notFound, r)
        (fun current => updateVisible r current task) := by
  unfold ScopedTasks.update MemoryTasks.get MemoryTasks.update MemoryTasks.visible updateVisible
  simp only [hp]
  cases r.lookup task.id with
  | none => rfl
  | some current =>
    have howns := ownsProject_iff hby hp current
    by_cases hP : P.Holds current
    · rw [filter_some_pos (by simpa using hP)]
      exact if_neg (not_not.mpr (howns.mpr hP))
    · rw [filter_some_neg (by simpa using hP)]
      exact if_pos (fun h => hP (howns.mp h))

theorem updateVisible_holds {current : Task}
    (hid : ¬ (task.tenantID ≠ current.tenantID ∨ task.projectID ≠ current.projectID ∨
      task.createdBy ≠ current.createdBy))
    (hcurrent : P.Holds current) : P.Holds task := by
  unfold Project.Holds at hcurrent ⊢
  have ht : task.tenantID = current.tenantID := not_not.mp (fun h => hid (.inl h))
  have hj : task.projectID = current.projectID := not_not.mp (fun h => hid (.inr (.inl h)))
  rw [ht, hj]
  exact hcurrent

/-- The replies of two stores to one call, and what the call leaves of each. -/
structure Matched (P : Project) (a b : MemoryTasks)
    (x y : Except CommandError Task × MemoryTasks) : Prop where
  reply : x.1 = y.1
  same : SameTasks P x.2 y.2
  left : KeepsOthers P a x.2
  right : KeepsOthers P b y.2

theorem Matched.unmoved (hsame : SameTasks P a b)
    (result : Except CommandError Task) : Matched P a b (result, a) (result, b) :=
  ⟨rfl, hsame, .refl P a, .refl P b⟩

theorem updateVisible_matched (hsame : SameTasks P a b) {current : Task}
    (ha : a.visible P task.id = some current) (hb : b.visible P task.id = some current) :
    Matched P a b (updateVisible a current task) (updateVisible b current task) := by
  unfold updateVisible
  by_cases hid : task.tenantID ≠ current.tenantID ∨ task.projectID ≠ current.projectID ∨
      task.createdBy ≠ current.createdBy
  · rw [if_pos hid, if_pos hid]
    exact .unmoved hsame _
  rw [if_neg hid, if_neg hid]
  by_cases hv : task.version ≠ current.version
  · rw [if_pos hv, if_pos hv]
    exact .unmoved hsame _
  rw [if_neg hv, if_neg hv]
  -- The id written is the one of the visible task, which no foreign task shares.
  have hown : ∀ r : MemoryTasks, r.visible P task.id = some current →
      ∀ t ∈ r.m, t.id = task.id → P.Holds t := by
    intro r hr t ht he
    obtain ⟨hmem, hcid, hholds⟩ := MemoryTasks.visible_eq_some.mp hr
    have hfound := MemoryTasks.lookup_eq_some.mpr ⟨ht, he⟩
    rw [MemoryTasks.lookup_eq_some.mpr ⟨hmem, hcid⟩, some.injEq] at hfound
    exact hfound ▸ hholds
  have hholds : P.Holds { task with version := task.version + 1 } :=
    updateVisible_holds hid (MemoryTasks.visible_eq_some.mp ha).2.2
  exact ⟨rfl, hsame.put _, .put hholds (hown a ha), .put hholds (hown b hb)⟩

theorem update_matched (hby : (Call.list ctx).By P) (hsame : SameTasks P a b)
    (task : Task) : Matched P a b (ScopedTasks.update a ctx task)
    (ScopedTasks.update b ctx task) := by
  cases hp : ScopedTasks.requireProjectPrincipal ctx with
  | error e =>
    unfold ScopedTasks.update
    simp only [hp]
    exact .unmoved hsame _
  | ok p =>
    rw [update_visible hby hp, update_visible hby hp]
    have hvisible := hsame.visible task.id
    cases ha : a.visible P task.id with
    | none =>
      rw [← hvisible, ha]
      exact .unmoved hsame _
    | some current =>
      rw [← hvisible, ha]
      exact updateVisible_matched hsame ha (hvisible ▸ ha)

theorem get_same (hby : (Call.list ctx).By P) (hsame : SameTasks P a b)
    (id : String) : ScopedTasks.get a ctx id = ScopedTasks.get b ctx id := by
  cases hp : ScopedTasks.requireProjectPrincipal ctx with
  | error e =>
    unfold ScopedTasks.get
    simp only [hp]
  | ok p => rw [get_visible hby hp, get_visible hby hp, hsame.visible]

theorem memory_create_matched (hsame : SameTasks P a b) (hholds : P.Holds task)
    (hid : (a.lookup task.id).isSome ↔ (b.lookup task.id).isSome) :
    Matched P a b (a.create task) (b.create task) := by
  unfold MemoryTasks.create
  by_cases ha : (a.lookup task.id).isSome
  · rw [if_pos ha, if_pos (hid.mp ha)]
    exact .unmoved hsame _
  rw [if_neg ha, if_neg (fun hb => ha (hid.mpr hb))]
  have hfree : ∀ r : MemoryTasks, ¬ (r.lookup task.id).isSome →
      ∀ t ∈ r.m, t.id = task.id → P.Holds t :=
    fun r hr t ht he => absurd (MemoryTasks.lookup_isSome.mpr ⟨t, ht, he⟩) hr
  refine ⟨rfl, hsame.put _, .put ?_ ?_, .put ?_ ?_⟩
  · split <;> split <;> exact hholds
  · split <;> split <;> exact hfree a ha
  · split <;> split <;> exact hholds
  · split <;> split <;> exact hfree b (fun hb => ha (hid.mpr hb))

theorem create_matched (hby : (Call.list ctx).By P) (hsame : SameTasks P a b)
    (hid : (a.lookup task.id).isSome ↔ (b.lookup task.id).isSome) :
    Matched P a b (ScopedTasks.create a ctx task) (ScopedTasks.create b ctx task) := by
  unfold ScopedTasks.create
  cases hp : ScopedTasks.requireProjectPrincipal ctx with
  | error e => exact .unmoved hsame _
  | ok p =>
    dsimp only
    split
    · exact .unmoved hsame _
    split
    · exact .unmoved hsame _
    split
    · exact .unmoved hsame _
    have hscoped := requireProjectPrincipal_ok hp
    have howns := (requireProject_ok (scopedPrincipal_ok hscoped)).2.owns
    obtain ⟨ht, hj⟩ := hby p hscoped
    refine memory_create_matched hsame ?_ hid
    exact ⟨ht.symm.trans howns.2.2.1, hj.symm.trans howns.2.2.2⟩

end OneCall

theorem SameTasks.perm (h : SameTasks P a b) :
    (a.m.filter (fun task => P.Holds task)).Perm (b.m.filter (fun task => P.Holds task)) := by
  have hnodup : ∀ r : MemoryTasks, (r.m.filter P.Holds).Nodup := by
    intro r
    have hdistinct : r.m.Nodup := r.keyed.imp (fun hne he => hne (congrArg Task.id he))
    exact hdistinct.filter _
  rw [perm_ext_iff_of_nodup (hnodup a) (hnodup b)]
  intro task
  simp only [mem_filter, decide_eq_true_iff]
  exact ⟨fun hm => ⟨(h task hm.2).mp hm.1, hm.2⟩, fun hm => ⟨(h task hm.2).mpr hm.1, hm.2⟩⟩

def notAfter (a b : Task) : Bool := decide (¬ b.createdAt < a.createdAt)

theorem notAfter_trans (a b c : Task) (hab : notAfter a b = true) (hbc : notAfter b c = true) :
    notAfter a c = true := by
  simp only [notAfter, not_lt, decide_eq_true_iff] at hab hbc ⊢
  exact hab.trans hbc

theorem notAfter_total (a b : Task) : (notAfter a b || notAfter b a) = true := by
  simp only [notAfter, not_lt, Bool.or_eq_true, decide_eq_true_iff]
  exact le_total a.createdAt b.createdAt

/-- Whatever one store may list of the project, so may the other. -/
theorem SameTasks.lists (h : SameTasks P a b) {items : List Task}
    (hitems : a.Lists items) : ∃ items', b.Lists items' ∧
    items'.filter (fun task => P.Holds task) = items.filter (fun task => P.Holds task) := by
  have hperm := (hitems.1.filter (fun task => decide (P.Holds task))).trans h.perm
  have hsorted : (items.filter P.Holds).Pairwise (fun a b => notAfter a b = true) :=
    (hitems.2.filter _).imp decide_eq_true
  obtain ⟨items', hperm', hsorted', hfilter⟩ :=
    exists_sorted_filter notAfter_trans notAfter_total hperm hsorted
  exact ⟨items', ⟨hperm', hsorted'.imp of_decide_eq_true⟩, hfilter⟩

/-- Any two listings of the project differ in the order of simultaneous tasks only. -/
theorem SameTasks.lists_agree (h : SameTasks P a b) {items items' : List Task}
    (hitems : a.Lists items) (hitems' : b.Lists items') :
    Reply.Agrees (.tasks (.ok (items.filter (fun task => P.Holds task))))
      (.tasks (.ok (items'.filter (fun task => P.Holds task)))) := by
  have hperm : (items.filter P.Holds).Perm (items'.filter P.Holds) :=
    ((hitems.1.filter _).trans h.perm).trans (hitems'.1.filter _).symm
  have htimes : ∀ {l : List Task}, l.Pairwise (fun a b => ¬ b.createdAt < a.createdAt) →
      ((l.filter P.Holds).map Task.createdAt).Pairwise (· ≤ ·) := by
    intro l hl
    rw [pairwise_map]
    exact (hl.filter _).imp not_lt.mp
  exact ⟨hperm, (hperm.map _).eq_of_pairwise
    (fun _ _ _ _ hle => le_antisymm hle) (htimes hitems.2) (htimes hitems'.2)⟩

theorem list_holds (hby : (Call.list ctx).By P)
    (hp : ScopedTasks.requireProjectPrincipal ctx = .ok p) (items : List Task) :
    ScopedTasks.list items ctx = .ok (items.filter (fun task => P.Holds task)) := by
  unfold ScopedTasks.list
  simp only [hp]
  congr 1
  apply filter_congr
  intro task _
  exact decide_eq_decide.mpr (ownsProject_iff hby hp task)

/-- Two runs that began in `a` and `b`: the project's tasks are the same in both, and
neither has touched the others. -/
structure Coupled (P : Project) (a b u v : MemoryTasks) : Prop where
  same : SameTasks P u v
  left : KeepsOthers P a u
  right : KeepsOthers P b v

section Runs

variable {P : Project} {a b u v : MemoryTasks}

section

variable (h : Coupled P a b u v)

include h

theorem Coupled.symm : Coupled P b a v u :=
  ⟨fun task ht => (h.same task ht).symm, h.right, h.left⟩

theorem Coupled.matched {x y : Except CommandError Task × MemoryTasks}
    (hm : Matched P u v x y) : Coupled P a b x.2 y.2 :=
  ⟨hm.same, h.left.trans hm.left, h.right.trans hm.right⟩

/-- An id that neither store used at first is taken by a task of the project, if at all. -/
theorem Coupled.taken (ha : ∀ t ∈ a.m, t.id ≠ id)
    (htaken : (u.lookup id).isSome) : (v.lookup id).isSome := by
  obtain ⟨task, hmem, hid⟩ := MemoryTasks.lookup_isSome.mp htaken
  by_cases hP : P.Holds task
  · exact MemoryTasks.lookup_isSome.mpr ⟨task, (h.same task hP).mp hmem, hid⟩
  · exact absurd hid (ha task ((h.left task hP).mp hmem))

theorem Coupled.create (hby : (Call.create ctx task).By P)
    (ha : (Call.create ctx task).Fresh a) (hb : (Call.create ctx task).Fresh b) :
    Matched P u v (ScopedTasks.create u ctx task) (ScopedTasks.create v ctx task) :=
  create_matched hby h.same ⟨h.taken ha, h.symm.taken hb⟩

/-- Every reply that one store may give, the other may give too. -/
theorem Coupled.step (hby : call.By P) (ha : call.Fresh a)
    (hb : call.Fresh b) {reply : Reply} {u' : MemoryTasks} (hstep : Step u call reply u') :
    ∃ v', Step v call reply v' ∧ Coupled P a b u' v' := by
  cases call with
  | list ctx =>
    obtain ⟨rfl, items, hitems, rfl⟩ := hstep
    obtain ⟨items', hitems', hfilter⟩ := h.same.lists hitems
    refine ⟨v, ⟨rfl, items', hitems', ?_⟩, h⟩
    cases hp : ScopedTasks.requireProjectPrincipal ctx with
    | error e => simp only [ScopedTasks.list, hp]
    | ok p => rw [list_holds hby hp, list_holds hby hp, hfilter]
  | get ctx id =>
    obtain ⟨rfl, rfl⟩ := hstep
    exact ⟨v, ⟨rfl, congrArg Reply.task (get_same hby h.same id)⟩, h⟩
  | create ctx task =>
    obtain ⟨rfl, rfl⟩ := hstep
    have hm := h.create hby ha hb
    exact ⟨_, ⟨rfl, congrArg Reply.task hm.reply⟩, h.matched hm⟩
  | update ctx task =>
    obtain ⟨rfl, rfl⟩ := hstep
    have hm := update_matched hby h.same task
    exact ⟨_, ⟨rfl, congrArg Reply.task hm.reply⟩, h.matched hm⟩

/-- Whatever the two stores reply, the replies agree. -/
theorem Coupled.agree (hby : call.By P) (ha : call.Fresh a)
    (hb : call.Fresh b) {reply reply' : Reply} {u' v' : MemoryTasks} (hstep : Step u call reply u')
    (hstep' : Step v call reply' v') : reply.Agrees reply' ∧ Coupled P a b u' v' := by
  cases call with
  | list ctx =>
    obtain ⟨rfl, items, hitems, rfl⟩ := hstep
    obtain ⟨rfl, items', hitems', rfl⟩ := hstep'
    refine ⟨?_, h⟩
    cases hp : ScopedTasks.requireProjectPrincipal ctx with
    | error e =>
      simp only [ScopedTasks.list, hp]
      exact .refl _
    | ok p =>
      rw [list_holds hby hp, list_holds hby hp]
      exact h.same.lists_agree hitems hitems'
  | get ctx id =>
    obtain ⟨rfl, rfl⟩ := hstep
    obtain ⟨rfl, rfl⟩ := hstep'
    rw [get_same hby h.same id]
    exact ⟨.refl _, h⟩
  | create ctx task =>
    obtain ⟨rfl, rfl⟩ := hstep
    obtain ⟨rfl, rfl⟩ := hstep'
    have hm := h.create hby ha hb
    rw [hm.reply]
    exact ⟨.refl _, h.matched hm⟩
  | update ctx task =>
    obtain ⟨rfl, rfl⟩ := hstep
    obtain ⟨rfl, rfl⟩ := hstep'
    have hm := update_matched hby h.same task
    rw [hm.reply]
    exact ⟨.refl _, h.matched hm⟩

end

end Runs

theorem step_total (call : Call) : ∃ reply r', Step r call reply r' := by
  cases call with
  | list ctx =>
    refine ⟨_, r, rfl, r.m.mergeSort notAfter, ⟨mergeSort_perm _ _, ?_⟩, rfl⟩
    exact (pairwise_mergeSort notAfter_trans notAfter_total r.m).imp of_decide_eq_true
  | get ctx id => exact ⟨_, r, rfl, rfl⟩
  | create ctx task => exact ⟨_, _, rfl, rfl⟩
  | update ctx task => exact ⟨_, _, rfl, rfl⟩

/-- Noninterference. Calls made for one project return, and on two stores with the same
tasks of the project they may return exactly the same; any two results agree, and no run
changes a task of another project. -/
theorem scoped_calls_noninterfering (P : Project) (a b : MemoryTasks) (hsame : SameTasks P a b)
    (calls : List Call) (hby : ∀ call ∈ calls, call.By P)
    (hfresh : ∀ call ∈ calls, call.Fresh a ∧ call.Fresh b) :
    (∃ replies a', Runs Step a calls replies a') ∧
      (∀ replies, (∃ a', Runs Step a calls replies a') ↔ ∃ b', Runs Step b calls replies b') ∧
      ∀ replies replies' a' b', Runs Step a calls replies a' → Runs Step b calls replies' b' →
        Forall₂ Reply.Agrees replies replies' ∧ KeepsOthers P a a' ∧ KeepsOthers P b b' := by
  have hinit : Coupled P a b a b := ⟨hsame, .refl P a, .refl P b⟩
  refine ⟨Runs.total step_total calls a, fun replies => ⟨?_, ?_⟩, ?_⟩
  · rintro ⟨a', hrun⟩
    obtain ⟨b', hrun', -⟩ := hrun.transfer hinit (fun call hc _ _ _ _ hR hstep =>
      hR.step (hby call hc) (hfresh call hc).1 (hfresh call hc).2 hstep)
    exact ⟨b', hrun'⟩
  · rintro ⟨b', hrun⟩
    obtain ⟨a', hrun', -⟩ := hrun.transfer hinit.symm (fun call hc _ _ _ _ hR hstep =>
      hR.step (hby call hc) (hfresh call hc).2 (hfresh call hc).1 hstep)
    exact ⟨a', hrun'⟩
  · intro replies replies' a' b' hrun hrun'
    obtain ⟨hagree, hend⟩ := hrun.agree hrun' hinit (fun call hc _ _ _ _ _ _ hR hstep hstep' =>
      hR.agree (hby call hc) (hfresh call hc).1 (hfresh call hc).2 hstep hstep')
    exact ⟨hagree, hend.left, hend.right⟩

def analyst : Principal := ⟨.user, "analyst", "t-1", "p-1", [], [], "oidc", "", "", ""⟩

theorem analyst_scope : scopedPrincipal (some analyst) = .ok analyst := by decide

def sampleTask (id tenantID : String) : Task :=
  ⟨id, tenantID, "p-1", "analyst", "", "", .created, 1, "", 0, 0, 0, "", "", "", 5, 5, none⟩

/-- A look for a task by its id, a listing, an update and a creation. -/
def analystCalls : List Call :=
  [.get (some analyst) "secret", .list (some analyst), .update (some analyst)
    (sampleTask "secret" "t-1"), .create (some analyst) (sampleTask "new" "t-1")]

/-- The task of another tenant cannot be told from a task that is not there. -/
theorem foreign_task_invisible :
    (∃ replies a', Runs Step ⟨[sampleTask "own" "t-1"], by simp⟩ analystCalls replies a') ∧
      ∀ replies, (∃ a', Runs Step ⟨[sampleTask "own" "t-1"], by simp⟩ analystCalls replies a') ↔
        ∃ b', Runs Step ⟨[sampleTask "own" "t-1", sampleTask "secret" "t-2"], by simp [sampleTask]⟩
          analystCalls replies b' := by
  have hsame : SameTasks ⟨"t-1", "p-1"⟩ ⟨[sampleTask "own" "t-1"], by simp⟩
      ⟨[sampleTask "own" "t-1", sampleTask "secret" "t-2"], by simp [sampleTask]⟩ := by
    intro task hholds
    have hforeign : task ≠ sampleTask "secret" "t-2" := by
      rintro rfl
      exact absurd hholds (by decide)
    simp [hforeign]
  have hscope : ∀ p, scopedPrincipal (some analyst) = .ok p →
      p.tenantID = "t-1" ∧ p.projectID = "p-1" := by
    intro p hp
    rw [analyst_scope, Except.ok.injEq] at hp
    rw [← hp]
    exact ⟨rfl, rfl⟩
  have hall := scoped_calls_noninterfering ⟨"t-1", "p-1"⟩ _ _ hsame analystCalls ?_ ?_
  · exact ⟨hall.1, hall.2.1⟩
  · intro call hcall
    simp only [analystCalls, mem_cons, not_mem_nil, or_false] at hcall
    rcases hcall with rfl | rfl | rfl | rfl <;> exact hscope
  · intro call hcall
    simp only [analystCalls, mem_cons, not_mem_nil, or_false] at hcall
    rcases hcall with rfl | rfl | rfl | rfl <;> simp [Call.Fresh, sampleTask]

end AiCloud.TenantRepo
