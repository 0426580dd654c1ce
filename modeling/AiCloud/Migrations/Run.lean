import AiCloud.Lib.Rely
import AiCloud.Lib.Schedule
import Mathlib.Data.List.Sort
import Mathlib.Data.String.Basic

/-!
# Schema migrations

`Run` looks up every embedded migration in `schema_migrations` and applies the missing
ones in the order of their names. Looking up and applying are separate steps, so
runners that start together may all decide to apply a migration; the version is
inserted in the transaction of the migration's body, and its primary key lets only one
of them commit.
-/
namespace AiCloud.Migrations

open Lib Prog System List Except

structure File where
  name : String
  isDir : Bool
  content : String

/-- The directory that is compiled into the program. -/
structure Embedded where
  entries : List File
  distinct : (entries.map File.name).Nodup

def File.isMigration (f : File) : Bool := !f.isDir && ".sql".toList.isSuffixOf f.name.toList

def migrationNames (entries : List File) : List String :=
  ((entries.filter File.isMigration).map File.name).insertionSort (· ≤ ·)

variable (files : Embedded)

theorem migrationNames_nodup : (migrationNames files.entries).Nodup := by
  unfold migrationNames
  rw [(perm_insertionSort _ _).nodup_iff]
  exact files.distinct.sublist (filter_sublist.map File.name)

/-- The rows of `schema_migrations`, once the table exists, and the bodies that
transactions committed, each with its migration's name. -/
structure Database where
  table : Bool
  recorded : List String
  committed : List (String × String)

def Database.empty : Database := ⟨false, [], []⟩

/-- Where a migration's transaction failed. -/
inductive Stage
  | begin
  | execute
  | record
  | commit
  deriving DecidableEq

inductive Request
  | createTable
  | readDir
  | applied (name : String)
  | readFile (name : String)
  | transact (name body : String)

def Answer : Request → Type
  | .createTable => Except Unit Unit
  | .readDir => Except Unit (List File)
  | .applied _ => Except Unit Bool
  | .readFile _ => Except Unit String
  | .transact .. => Except Stage Unit

variable (db : Database)

/-- A migration's transaction took effect: its body ran and its version, which was not
there, was inserted. -/
structure Commits (name body : String) (db' : Database) : Prop where
  table : db.table = true
  fresh : name ∉ db.recorded
  result : db' = { db with
    recorded := db.recorded ++ [name], committed := db.committed ++ [(name, body)] }

/-- Every step may fail. A failed transaction has no effect, except that the answer to
a commit may be lost. -/
def answers : (q : Request) → Answer q → Database → Prop
  | .createTable, a, db' =>
    db' = { db with table := true } ∨ (a = error () ∧ db' = db)
  | .readDir, a, db' => db' = db ∧ ∀ entries, a = ok entries → entries = files.entries
  | .applied name, a, db' =>
    db' = db ∧ ∀ found, a = ok found → db.table = true ∧ (found = true ↔ name ∈ db.recorded)
  | .readFile name, a, db' =>
    db' = db ∧ ∀ body, a = ok body → ∃ f ∈ files.entries, f.name = name ∧ f.content = body
  | .transact name body, a, db' =>
    (a = ok () ∧ Commits db name body db') ∨ (∃ stage, a = error stage ∧ db' = db) ∨
      (a = error .commit ∧ Commits db name body db')

inductive MigrationError
  | databaseRequired
  | createTable
  | readEntries
  | check (name : String)
  | read (name : String)
  | transaction (stage : Stage) (name : String)
  deriving DecidableEq

abbrev Migration := Prog Request Answer (Except MigrationError Unit)

def ask (q : Request) : Prog Request Answer (Answer q) := request q

def migrateAll : List String → Migration
  | [] => return .ok ()
  | name :: rest => do
    match ← ask (.applied name) with
    | .error _ => return .error (.check name)
    | .ok true => migrateAll rest
    | .ok false =>
      match ← ask (.readFile name) with
      | .error _ => return .error (.read name)
      | .ok body =>
        match ← ask (.transact name body) with
        | .error stage => return .error (.transaction stage name)
        | .ok _ => migrateAll rest

/-- `Run`; `connected` says that a database was given. -/
def runMigrations (connected : Bool) : Migration := do
  if connected = false then return .error .databaseRequired
  else
    match ← ask .createTable with
    | .error _ => return .error .createTable
    | .ok _ =>
      match ← ask .readDir with
      | .error _ => return .error .readEntries
      | .ok entries => migrateAll (migrationNames entries)

abbrev MigrationSystem := System Database Bool Request Answer (Except MigrationError Unit)

/-- Any number of runners, from an empty database on. -/
abbrev MigrationReach (s : MigrationSystem) : Prop :=
  Reach runMigrations (fun _ => answers files) (fun _ _ => False) Database.empty s

/-- The versions are the first names, and the committed bodies are theirs. -/
structure Consistent : Prop where
  ordered : db.recorded <+: migrationNames files.entries
  versions : db.committed.map Prod.fst = db.recorded
  bodies : ∀ x ∈ db.committed, ∃ f ∈ files.entries, f.name = x.1 ∧ f.content = x.2

/-- What a runner relies on: versions stay, and nobody spoils the order. -/
structure Later (db db' : Database) : Prop where
  recorded : db.recorded ⊆ db'.recorded
  consistent : Consistent files db → Consistent files db'

theorem Later.refl : Later files db db := ⟨fun _ h => h, id⟩

theorem Later.trans {files : Embedded} (a b c : Database) (hab : Later files a b)
    (hbc : Later files b c) : Later files a c :=
  ⟨fun _ h => hbc.recorded (hab.recorded h), fun h => hbc.consistent (hab.consistent h)⟩

variable {name : String}

theorem eq_of_before {done pre rest : List String} (hdone : done <+: pre ++ name :: rest)
    (hpre : pre ⊆ done) (hname : name ∉ done) (hnodup : (pre ++ name :: rest).Nodup) :
    done = pre := by
  induction pre generalizing done with
  | nil =>
    cases done with
    | nil => rfl
    | cons d ds =>
      obtain ⟨rfl, -⟩ := cons_prefix_cons.mp hdone
      exact absurd mem_cons_self hname
  | cons p ps ih =>
    cases done with
    | nil => exact absurd (hpre mem_cons_self) not_mem_nil
    | cons d ds =>
      obtain ⟨rfl, hds⟩ := cons_prefix_cons.mp hdone
      obtain ⟨hd, hnodup⟩ := nodup_cons.mp hnodup
      have hps : ps ⊆ ds := by
        intro x hx
        rcases mem_cons.mp (hpre (mem_cons_of_mem d hx)) with rfl | hmem
        · exact absurd (mem_append_left _ hx) hd
        · exact hmem
      rw [ih hds hps (fun hmem => hname (mem_cons_of_mem d hmem)) hnodup]

variable {files : Embedded} {pre rest : List String}

theorem Consistent.commit {db db' : Database} {body : String} (h : Consistent files db)
    (hnames : migrationNames files.entries = pre ++ name :: rest) (hpre : pre ⊆ db.recorded)
    (hbody : ∃ f ∈ files.entries, f.name = name ∧ f.content = body)
    (hcommit : Commits db name body db') : Consistent files db' := by
  have hnodup := migrationNames_nodup files
  have hordered := h.ordered
  rw [hnames] at hnodup hordered
  have hdone : db.recorded = pre := eq_of_before hordered hpre hcommit.fresh hnodup
  rw [hcommit.result]
  refine ⟨?_, ?_, ?_⟩
  · simp only
    rw [hdone, hnames]
    exact ⟨rest, by simp⟩
  · simp [h.versions]
  · intro x hx
    rcases mem_append.mp hx with hold | hnew
    · exact h.bodies x hold
    · rw [mem_singleton.mp hnew]
      exact hbody

theorem Commits.later {db db' : Database} {body : String}
    (hnames : migrationNames files.entries = pre ++ name :: rest) (hpre : pre ⊆ db.recorded)
    (hbody : ∃ f ∈ files.entries, f.name = name ∧ f.content = body)
    (hcommit : Commits db name body db') : Later files db db' := by
  refine ⟨?_, fun h => h.commit hnames hpre hbody hcommit⟩
  rw [hcommit.result]
  exact subset_append_left _ _

abbrev RunnerEnsures (files : Embedded)
    (post : Database → List (Sigma Answer) → Except MigrationError Unit → Prop) (p : Migration)
    (db : Database) (h : List (Sigma Answer)) : Prop :=
  Ensures (Later files) (answers files) (fun db _ _ db' => Later files db db') post p db h

/-- A runner that returns without an error leaves everything recorded. -/
def AllRecorded (files : Embedded) (db : Database) (_ : List (Sigma Answer))
    (r : Except MigrationError Unit) : Prop :=
  r = .ok () → migrationNames files.entries ⊆ db.recorded

theorem ensures_error (files : Embedded) (e : MigrationError) (db : Database)
    (h : List (Sigma Answer)) : RunnerEnsures files (AllRecorded files) (pure (.error e)) db h := by
  apply ensures_pure
  intro db' _ hok
  cases hok

/-- The loop, with the names before the rest recorded already. -/
theorem migrateAll_ensures
    (hnames : migrationNames files.entries = pre ++ rest) {db : Database} (hpre : pre ⊆ db.recorded)
    (h : List (Sigma Answer)) :
    RunnerEnsures files (AllRecorded files) (migrateAll rest) db h := by
  induction rest generalizing pre db h with
  | nil =>
    apply ensures_pure
    intro db' hlater _
    rw [hnames, append_nil]
    exact fun name hname => hlater.recorded (hpre hname)
  | cons name rest ih =>
    have hnext : migrationNames files.entries = (pre ++ [name]) ++ rest := by
      rw [hnames, append_assoc]
      rfl
    -- with `name` recorded as well, the loop goes on
    have hgo : ∀ (db' : Database) (h' : List (Sigma Answer)), pre ⊆ db'.recorded →
        name ∈ db'.recorded → RunnerEnsures files (AllRecorded files) (migrateAll rest) db' h' := by
      intro db' h' hpre' hname
      refine ih hnext ?_ h'
      intro x hx
      rcases mem_append.mp hx with hx | hx
      · exact hpre' hx
      · rw [mem_singleton.mp hx]
        exact hname
    apply ensures_request
    rintro db₁ hlater₁ found db₁' ⟨rfl, hfound⟩
    refine ⟨Later.refl files db₁', ?_⟩
    have hpre₁ : pre ⊆ db₁'.recorded := fun x hx => hlater₁.recorded (hpre hx)
    match found, hfound with
    | .error _, _ => exact ensures_error files _ _ _
    | .ok true, hfound => exact hgo db₁' _ hpre₁ ((hfound true rfl).2.mp rfl)
    | .ok false, _ =>
      apply ensures_request
      rintro db₂ hlater₂ read db₂' ⟨rfl, hread⟩
      refine ⟨Later.refl files db₂', ?_⟩
      have hpre₂ : pre ⊆ db₂'.recorded := fun x hx => hlater₂.recorded (hpre₁ hx)
      match read, hread with
      | .error _, _ => exact ensures_error files _ _ _
      | .ok body, hread =>
        have hbody := hread body rfl
        apply ensures_request
        intro db₃ hlater₃ a db₃' ha
        have hpre₃ : pre ⊆ db₃.recorded := fun x hx => hlater₃.recorded (hpre₂ hx)
        rcases ha with ⟨rfl, hcommit⟩ | ⟨stage, rfl, rfl⟩ | ⟨rfl, hcommit⟩
        · have hlater := hcommit.later hnames hpre₃ hbody
          refine ⟨hlater, hgo db₃' _ (fun x hx => hlater.recorded (hpre₃ hx)) ?_⟩
          rw [hcommit.result]
          simp
        · exact ⟨Later.refl files db₃', ensures_error files _ _ _⟩
        · exact ⟨hcommit.later hnames hpre₃ hbody, ensures_error files _ _ _⟩

theorem runMigrations_ensures (files : Embedded) (connected : Bool) (db : Database) :
    RunnerEnsures files (AllRecorded files) (runMigrations connected) db [] := by
  unfold runMigrations
  split
  · exact ensures_error files _ _ _
  apply ensures_request
  intro db₁ _ created db₁' hcreated
  have hlater : Later files db₁ db₁' := by
    rcases hcreated with rfl | ⟨-, rfl⟩
    · exact ⟨fun _ hname => hname, fun hc => ⟨hc.ordered, hc.versions, hc.bodies⟩⟩
    · exact Later.refl files db₁'
  refine ⟨hlater, ?_⟩
  match created with
  | .error _ => exact ensures_error files _ _ _
  | .ok _ =>
    apply ensures_request
    rintro db₂ _ entries db₂' ⟨rfl, hentries⟩
    refine ⟨Later.refl files db₂', ?_⟩
    match entries, hentries with
    | .error _, _ => exact ensures_error files _ _ _
    | .ok entries, hentries =>
      obtain rfl := hentries entries rfl
      exact migrateAll_ensures (nil_append _).symm (nil_subset _) _

theorem reach_relying {s : MigrationSystem} (hr : MigrationReach files s) :
    Relying (fun _ => answers files) (fun _ db _ _ db' => Later files db db') (Later files)
      (fun _ => AllRecorded files) Database.empty s :=
  (Reach.relying (Later.refl files) Later.trans (fun _ _ _ _ _ h => h)
    (fun _ _ h => h.elim) (fun connected db _ => runMigrations_ensures files connected db) hr).2

theorem reach_consistent {s : MigrationSystem} (hr : MigrationReach files s) :
    Consistent files s.shared :=
  (reach_relying hr).later.consistent ⟨⟨_, rfl⟩, rfl, forall_mem_nil _⟩

/-- The committed bodies of one migration. -/
def Database.bodiesOf (name : String) : List String :=
  (db.committed.filter (fun x => x.1 = name)).map Prod.snd

theorem Consistent.bodiesOf {db : Database} (h : Consistent files db) (hname : name ∈ db.recorded) :
    ∃ f ∈ files.entries, f.name = name ∧ db.bodiesOf name = [f.content] := by
  have hnodup : (db.committed.map Prod.fst).Nodup := by
    rw [h.versions]
    exact (migrationNames_nodup files).sublist h.ordered.sublist
  rw [← h.versions] at hname
  obtain ⟨x, hx, rfl⟩ := mem_map.mp hname
  obtain ⟨f, hf, hfname, hcontent⟩ := h.bodies x hx
  refine ⟨f, hf, hfname, ?_⟩
  unfold Database.bodiesOf
  have hone : db.committed.filter (fun y => y.1 = x.1) = [x] := by
    obtain ⟨before, after, hsplit⟩ := append_of_mem hx
    rw [hsplit] at hnodup ⊢
    simp only [map_append, map_cons] at hnodup
    have hother : ∀ y ∈ before ++ after, ¬ y.1 = x.1 := by
      intro y hy heq
      have hmid := (nodup_middle.mp hnodup)
      rw [nodup_cons] at hmid
      apply hmid.1
      rw [← map_append, ← heq]
      exact mem_map_of_mem hy
    rw [filter_append, filter_cons_of_pos (by simp),
      filter_eq_nil_iff.mpr (fun y hy => by simpa using hother y (mem_append_left _ hy)),
      filter_eq_nil_iff.mpr (fun y hy => by simpa using hother y (mem_append_right _ hy))]
    rfl
  rw [hone, map_singleton, hcontent]

/-- However runners interleave, fail and stop: the recorded versions are the first of the
sorted names, the body of every recorded migration was committed exactly once, and of the
others none; and once a runner returned without an error, all are recorded. -/
theorem migrations_in_order (files : Embedded) {s : MigrationSystem} (hr : MigrationReach files s) :
    s.shared.recorded <+: migrationNames files.entries ∧ (∀ name ∈ s.shared.recorded,
        ∃ f ∈ files.entries, f.name = name ∧ s.shared.bodiesOf name = [f.content]) ∧
      (∀ name, name ∉ s.shared.recorded → s.shared.bodiesOf name = []) ∧
      ∀ i, s.result i = some (.ok ()) → s.shared.recorded = migrationNames files.entries := by
  have hc := reach_consistent hr
  refine ⟨hc.ordered, fun name => hc.bodiesOf, ?_, ?_⟩
  · intro name hname
    unfold Database.bodiesOf
    rw [map_eq_nil_iff, filter_eq_nil_iff]
    intro x hx hxname
    apply hname
    rw [← hc.versions, ← of_decide_eq_true hxname]
    exact mem_map_of_mem hx
  · intro i hi
    obtain ⟨connected, hthread⟩ := thread_of_result hi
    have hall : migrationNames files.entries ⊆ s.shared.recorded :=
      (reach_relying hr).ensures i connected _ hthread s.shared (Later.refl files _) rfl
    have hlength := (subperm_of_subset (migrationNames_nodup files) hall).length_le
    exact hc.ordered.eq_of_length_le hlength

def sampleFiles : Embedded :=
  ⟨[⟨"002_b.sql", false, "B"⟩, ⟨"001_a.sql", false, "A"⟩, ⟨"migrate.go", false, ""⟩], by decide⟩

/-- Everything succeeds that can; a version that is there is a duplicate. -/
def sampleReply (_ : Bool) (_ : Unit) (db : Database) :
    (q : Request) → Option (Answer q × Database)
  | .createTable => some (ok (), { db with table := true })
  | .readDir => some (ok sampleFiles.entries, db)
  | .applied name => if db.table then some (ok (name ∈ db.recorded), db) else none
  | .readFile name =>
    (sampleFiles.entries.find? (fun f => f.name = name)).map (fun f => (ok f.content, db))
  | .transact name body =>
    if db.table = false then none
    else if name ∈ db.recorded then some (error .record, db)
    else some (ok (), { db with
      recorded := db.recorded ++ [name], committed := db.committed ++ [(name, body)] })

theorem sampleReply_answers : ∀ θ choice db q a db',
    sampleReply θ choice db q = some (a, db') → answers sampleFiles db q a db' := by
  intro θ choice db q a db' h
  cases q with
  | createTable =>
    cases h
    exact .inl rfl
  | readDir =>
    cases h
    exact ⟨rfl, fun entries he => (ok.inj he).symm⟩
  | applied name =>
    simp only [sampleReply] at h
    split at h
    · rename_i htable
      cases h
      refine ⟨rfl, fun found hfound => ⟨htable, ?_⟩⟩
      rw [← ok.inj hfound]
      simp
    · cases h
  | readFile name =>
    obtain ⟨f, hf, heq⟩ := Option.map_eq_some_iff.mp h
    cases heq
    refine ⟨rfl, fun body hbody => ⟨f, mem_of_find?_eq_some hf, ?_, ok.inj hbody⟩⟩
    simpa using find?_some hf
  | transact name body =>
    simp only [sampleReply] at h
    split at h
    · cases h
    rename_i htable
    split at h
    · cases h
      exact .inr (.inl ⟨.record, rfl, rfl⟩)
    · rename_i hfresh
      cases h
      exact .inl ⟨rfl, ⟨by simpa using htable, hfresh, rfl⟩⟩

/-- Both find nothing applied; the first applies both migrations, then the second tries. -/
def racingMoves : List (Move Bool Unit Empty) :=
  [.spawn true, .spawn true] ++ replicate 3 (.run 0 ()) ++ replicate 3 (.run 1 ()) ++
    replicate 5 (.run 0 ()) ++ replicate 2 (.run 1 ())

def racingRunners : Option MigrationSystem :=
  schedule runMigrations sampleReply (fun e _ => e.elim) Database.empty racingMoves

theorem racing_runners_in_order : ∃ s, MigrationReach sampleFiles s ∧ s.result 0 = some (.ok ()) ∧
    s.result 1 = some (.error (.transaction .record "001_a.sql")) ∧
    s.shared.recorded = migrationNames sampleFiles.entries := by
  have hrun : racingRunners.any (fun s => s.result 0 = some (.ok ()) ∧
      s.result 1 = some (.error (.transaction .record "001_a.sql"))) = true := by
    decide
  obtain ⟨s, hr, hfirst, hsecond⟩ :=
    exists_schedule sampleReply_answers (fun e _ _ _ => e.elim) hrun
  exact ⟨s, hr, hfirst, hsecond, (migrations_in_order sampleFiles hr).2.2.2 0 hfirst⟩

end AiCloud.Migrations
