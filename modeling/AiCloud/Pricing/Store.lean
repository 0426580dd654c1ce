import Mathlib.Data.String.Basic
import AiCloud.Lib.Sorted
import AiCloud.Lib.Table
import AiCloud.Pricing.Quote

/-!
# Stored policies

`MemoryPricingPolicies` keeps policies in a map under `id@version`, with their times in
nanoseconds; `PostgresPricingPolicies` keeps them in the table of migration 015, keyed by
id and version, with times in microseconds. Both resolve the policy in force with the
latest start; among equal starts one looks at the version, the other at the creation time
first.
-/
namespace AiCloud.Pricing

open Lib Execution List

abbrev PricingPolicy.Clash (a b : PricingPolicy) : Prop := a.id = b.id ∧ a.version = b.version

abbrev PolicyTable := Table PricingPolicy (fun _ => True) PricingPolicy.Clash

/-- What depends on the database: the deployments it knows, the order of texts in its
collation, and how it rounds nanoseconds. -/
structure Database where
  deployments : List String
  collates : String → String → Bool
  collates_trans : ∀ a b c, collates a b = true → collates b c = true → collates a c = true
  collates_total : ∀ a b, (collates a b || collates b a) = true
  micros : Time → Time
  micros_whole : ∀ t, micros (1000 * t) = t

/-- A policy with its times in another unit. -/
def PricingPolicy.mapTimes (f : Time → Time) (p : PricingPolicy) : PricingPolicy :=
  { p with
    effectiveFrom := f p.effectiveFrom
    effectiveTo := p.effectiveTo.map f
    createdAt := f p.createdAt }

/-- A row as it is read back. -/
def loaded (row : PricingPolicy) : PricingPolicy := row.mapTimes (1000 * ·)

def PricingPolicy.texts (p : PricingPolicy) : List String :=
  [p.id, p.version, p.deploymentID, p.currency, p.region, p.evidenceRef, p.digest, p.capacity.mode,
    p.capacity.unit] ++ p.serviceTierFactors.map Prod.fst ++ p.inferenceEffortFactors.map Prod.fst

/-- PostgreSQL takes no text with a NUL, neither as a value nor as an argument. -/
def Storable (s : String) : Prop := Char.ofNat 0 ∉ s.toList

instance (s : String) : Decidable (Storable s) := inferInstanceAs (Decidable (¬ _))

inductive ReadError
  | notFound
  | database

/-- A row that is not there is `ErrNotFound`. -/
def found : Option PricingPolicy → Except ReadError PricingPolicy
  | none => .error .notFound
  | some p => .ok p

variable (collates : String → String → Bool)

namespace PolicyTable

variable (t : PolicyTable)

def get (id version : String) : Option PricingPolicy :=
  t.rows.find? (fun p => p.id = id ∧ p.version = version)

/-- `ORDER BY effective_from DESC, created_at DESC, version DESC`. -/
def newer (a b : PricingPolicy) : Bool :=
  if a.effectiveFrom ≠ b.effectiveFrom then decide (b.effectiveFrom < a.effectiveFrom)
  else if a.createdAt ≠ b.createdAt then decide (b.createdAt < a.createdAt)
  else collates b.version a.version

/-- The answer when the rows are scanned in the order of the list. -/
def resolveScan (scan : List PricingPolicy)
    (deploymentID : String) (at_ : Time) : Option PricingPolicy :=
  ((scan.filter (fun p => p.deploymentID = deploymentID ∧ p.EffectiveAt at_)).mergeSort
    (newer collates)).head?

/-- In a database that compares texts by code points. -/
def resolve (deploymentID : String) (at_ : Time) : Option PricingPolicy :=
  resolveScan (fun a b => decide (a ≤ b)) t.rows deploymentID at_

inductive CreateError
  | invalid (error : PricingError)
  | exists_
  | database
  deriving DecidableEq

/-- The column references `model_deployments`; the item is returned as it came. -/
def create (db : Database) (t : PolicyTable) (item : PricingPolicy) :
    Except CreateError PricingPolicy × PolicyTable :=
  match item.validate with
  | .error e => (.error (.invalid e), t)
  | .ok _ =>
    if ¬ (∀ s ∈ item.texts, Storable s) ∨ item.deploymentID ∉ db.deployments then
      (.error .database, t)
    else match t.insert (item.mapTimes db.micros) with
      | none => (.error .database, t)
      | some t' => (.ok item, t')

/-- `Get` of the repository. -/
def read (id version : String) : Except ReadError PricingPolicy :=
  if Storable id ∧ Storable version then found ((t.get id version).map loaded)
  else .error .database

end PolicyTable

/-- The map, with the entry of the last `Create` at the end. -/
structure MemoryPricingPolicies where
  items : List (String × PricingPolicy)
  named : ∀ entry ∈ items, entry.1 = entry.2.ref

variable (m : MemoryPricingPolicies)

namespace MemoryPricingPolicies

def empty : MemoryPricingPolicies := ⟨[], by simp⟩

def policies : List PricingPolicy := m.items.map Prod.snd

def get (id version : String) : Except ReadError PricingPolicy :=
  found (m.items.lookup (id ++ "@" ++ version))

def create (item : PricingPolicy) :
    Except PolicyTable.CreateError PricingPolicy × MemoryPricingPolicies :=
  match item.validate with
  | .error e => (.error (.invalid e), m)
  | .ok _ =>
    match m.items.lookup item.ref with
    | some _ => (.error .exists_, m)
    | none => (.ok item, ⟨m.items ++ [(item.ref, item)], by
        intro entry h
        rcases mem_append.mp h with h | h
        · exact m.named entry h
        · rw [mem_singleton.mp h]⟩)

/-- `sortPolicies`: later starts first, at one start higher versions. -/
def sortsBefore (a b : PricingPolicy) : Bool :=
  if a.effectiveFrom = b.effectiveFrom then decide (b.version ≤ a.version)
  else decide (b.effectiveFrom < a.effectiveFrom)

/-- The answer when Go iterates over the map in the order of the list. -/
def resolveScan (scan : List PricingPolicy) (deploymentID : String) (at_ : Time) :
    Option PricingPolicy :=
  ((scan.filter (fun p => p.deploymentID = deploymentID)).mergeSort sortsBefore).find?
    (fun p => p.EffectiveAt at_)

end MemoryPricingPolicies

section

variable {σ : Type}

/-- The answers of a sequence of `Create` calls, and what is stored after it. -/
def createAll (create : σ → PricingPolicy → Except PolicyTable.CreateError PricingPolicy × σ) :
    List PricingPolicy → σ → List (Option PricingPolicy) × σ
  | [], s => ([], s)
  | item :: items, s =>
    let (answer, s') := create s item
    let (answers, s'') := createAll create items s'
    (answer.toOption :: answers, s'')

end

/-- Both stores, from the beginning. -/
abbrev memoryRun (items : List PricingPolicy) :
    List (Option PricingPolicy) × MemoryPricingPolicies :=
  createAll MemoryPricingPolicies.create items .empty

abbrev postgresRun (db : Database) (items : List PricingPolicy) :
    List (Option PricingPolicy) × PolicyTable :=
  createAll (PolicyTable.create db) items Table.empty

variable (deploymentID : String)

/-- The possible answers: both stores leave the order of equals open. -/
def MemoryPricingPolicies.Resolves (at_ : Time) (answer : Except ReadError PricingPolicy) : Prop :=
  ∃ scan, scan.Perm m.policies ∧
    found (MemoryPricingPolicies.resolveScan scan deploymentID at_) = answer

def PolicyTable.Resolves (db : Database) (t : PolicyTable) (deploymentID : String) (at_ : Time)
    (answer : Except ReadError PricingPolicy) : Prop :=
  if Storable deploymentID then ∃ scan, scan.Perm t.rows ∧
    found ((PolicyTable.resolveScan db.collates scan deploymentID (db.micros at_)).map loaded) =
      answer
  else answer = .error .database

/-- The two stores hold the same policies. -/
def Mirrors (t : PolicyTable) : Prop :=
  m.items = t.rows.map (fun row => (row.ref, loaded row))

/-- A reference stands for one id and version. -/
def RefersTo (policies : List PricingPolicy) (id version : String) : Prop :=
  ∀ p ∈ policies, p.ref = id ++ "@" ++ version → p.id = id ∧ p.version = version

instance (policies : List PricingPolicy) (id version : String) :
    Decidable (RefersTo policies id version) :=
  inferInstanceAs (Decidable (∀ p ∈ policies, p.ref = id ++ "@" ++ version → _ ∧ _))

/-- A policy that the database takes and gives back as it is. -/
structure Database.Keeps (db : Database) (item : PricingPolicy) : Prop where
  deployed : item.deploymentID ∈ db.deployments
  storable : ∀ s ∈ item.texts, Storable s
  start : 1000 ∣ item.effectiveFrom
  finish : ∀ upTo ∈ item.effectiveTo, 1000 ∣ upTo
  created : 1000 ∣ item.createdAt

theorem lookup_refs (rows : List PricingPolicy) (ref : String) :
    (rows.map (fun row => (row.ref, loaded row))).lookup ref =
      (rows.find? (fun row => ref == row.ref)).map loaded := by
  induction rows with
  | nil => rfl
  | cons row rows ih =>
    rw [map_cons, lookup_cons, find?_cons, ih]
    split <;> rfl

variable {m : MemoryPricingPolicies} {t : PolicyTable} {db : Database}

theorem Database.Keeps.loaded_eq {item : PricingPolicy} (h : db.Keeps item) :
    loaded (item.mapTimes db.micros) = item := by
  have hwhole : ∀ time, 1000 ∣ time → 1000 * db.micros time = time := by
    rintro _ ⟨k, rfl⟩
    rw [db.micros_whole]
  have hfinish : (item.effectiveTo.map db.micros).map (1000 * ·) = item.effectiveTo := by
    cases hto : item.effectiveTo with
    | none => rfl
    | some upTo => exact congrArg some (hwhole upTo (h.finish upTo hto))
  unfold loaded PricingPolicy.mapTimes
  dsimp only
  rw [hfinish, hwhole _ h.start, hwhole _ h.created]

theorem Mirrors.policies (h : Mirrors m t) : m.policies = t.rows.map loaded := by
  unfold MemoryPricingPolicies.policies
  rw [h, map_map]
  rfl

theorem Mirrors.refers (h : Mirrors m t) {id version : String}
    (hrefers : RefersTo m.policies id version) : RefersTo t.rows id version :=
  fun row hrow => hrefers (loaded row) (h.policies ▸ mem_map_of_mem hrow)

theorem Mirrors.get (h : Mirrors m t) {id version : String} (hid : Storable id)
    (hversion : Storable version) (hrefers : RefersTo m.policies id version) :
    m.get id version = t.read id version := by
  unfold MemoryPricingPolicies.get PolicyTable.read PolicyTable.get
  rw [if_pos ⟨hid, hversion⟩, h, lookup_refs, ← head?_filter, ← head?_filter]
  congr 3
  apply filter_congr
  intro p hp
  by_cases hsame : p.id = id ∧ p.version = version
  · simp [hsame, PricingPolicy.ref]
  · have hne : ¬ (id ++ "@" ++ version = p.ref) := fun heq => hsame (h.refers hrefers p hp heq.symm)
    simp [hne, hsame]

/-- The map has no entry under a reference where the table has no row of its id and version. -/
theorem Mirrors.lookup_none (h : Mirrors m t) {item : PricingPolicy}
    (hrefers : RefersTo m.policies item.id item.version) :
    m.items.lookup item.ref = none ↔ ∀ p ∈ t.rows, ¬ p.Clash (item.mapTimes db.micros) := by
  rw [h, lookup_refs, Option.map_eq_none_iff, find?_eq_none]
  refine forall₂_congr fun p hp => not_congr ?_
  rw [beq_iff_eq]
  constructor
  · exact fun href => h.refers hrefers p hp href.symm
  · rintro ⟨hid, hversion⟩
    have hid : p.id = item.id := hid
    have hversion : p.version = item.version := hversion
    simp [PricingPolicy.ref, hid, hversion]

theorem Mirrors.create (h : Mirrors m t) {item : PricingPolicy} (hkeeps : db.Keeps item)
    (hrefers : RefersTo m.policies item.id item.version) :
    (m.create item).1.toOption = (t.create db item).1.toOption ∧
      Mirrors (m.create item).2 (t.create db item).2 ∧
      ∀ p ∈ (m.create item).2.policies, p ∈ m.policies ∨ p = item := by
  unfold MemoryPricingPolicies.create PolicyTable.create
  cases hvalid : item.validate with
  | error e => exact ⟨rfl, h, fun p => .inl⟩
  | ok u =>
    have htaken : ¬ (¬ (∀ s ∈ item.texts, Storable s) ∨ item.deploymentID ∉ db.deployments) := by
      rintro (hnot | hnot)
      · exact hnot hkeeps.storable
      · exact hnot hkeeps.deployed
    simp only [if_neg htaken]
    cases hfound : m.items.lookup item.ref with
    | some old =>
      cases hins : t.insert (item.mapTimes db.micros) with
      | none => exact ⟨rfl, h, fun p => .inl⟩
      | some t' =>
        rw [(h.lookup_none hrefers).mpr (Table.insert_some hins).2.1] at hfound
        cases hfound
    | none =>
      obtain ⟨t', hins⟩ := Table.insert_fresh trivial ((h.lookup_none hrefers).mp hfound)
      have hrows := (Table.insert_some hins).2.2
      rw [hins]
      refine ⟨rfl, ?_, ?_⟩
      · unfold Mirrors
        rw [hrows, map_append, ← h, map_singleton, hkeeps.loaded_eq]
        rfl
      · intro p hp
        unfold MemoryPricingPolicies.policies at hp
        rw [map_append] at hp
        rcases mem_append.mp hp with hp | hp
        · exact .inl hp
        · exact .inr (mem_singleton.mp hp)

def InForce (at_ : Time) (p : PricingPolicy) : Prop :=
  p.deploymentID = deploymentID ∧ p.EffectiveAt at_

instance (at_ : Time) (p : PricingPolicy) :
    Decidable (InForce deploymentID at_ p) := inferInstanceAs (Decidable (_ ∧ _))

/-- A policy in force that every other one in force stands behind: by an earlier start, or
at the same start by a lower version created earlier, or created at the same time and
lower for the database too. -/
structure Leads (db : Database) (policies : List PricingPolicy) (deploymentID : String)
    (at_ : Time) (x : PricingPolicy) : Prop where
  mem : x ∈ policies
  inForce : InForce deploymentID at_ x
  ahead : ∀ y ∈ policies, InForce deploymentID at_ y → y ≠ x → y.effectiveFrom < x.effectiveFrom ∨
    (y.effectiveFrom = x.effectiveFrom ∧ y.version < x.version ∧ (y.createdAt < x.createdAt ∨
      (y.createdAt = x.createdAt ∧ db.collates x.version y.version = false)))

theorem newer_trans (a b c : PricingPolicy) (hab : PolicyTable.newer db.collates a b = true)
    (hbc : PolicyTable.newer db.collates b c = true) :
    PolicyTable.newer db.collates a c = true := by
  have htrans := db.collates_trans c.version b.version a.version
  unfold PolicyTable.newer at *
  grind

theorem newer_total (a b : PricingPolicy) :
    (PolicyTable.newer db.collates a b || PolicyTable.newer db.collates b a) = true := by
  have htotal := db.collates_total b.version a.version
  unfold PolicyTable.newer
  grind

theorem newer_loaded (a b : PricingPolicy) :
    PolicyTable.newer collates a b = PolicyTable.newer collates (loaded a) (loaded b) := by
  unfold PolicyTable.newer loaded PricingPolicy.mapTimes
  grind

theorem effectiveAt_loaded (row : PricingPolicy) (k : Time) :
    row.EffectiveAt k ↔ (loaded row).EffectiveAt (1000 * k) := by
  unfold PricingPolicy.EffectiveAt loaded PricingPolicy.mapTimes
  cases row.effectiveTo <;> simp

/-- The query in microseconds is the one in nanoseconds on the policies read back. -/
theorem resolveScan_loaded (scan : List PricingPolicy) (deploymentID : String) (k : Time) :
    (PolicyTable.resolveScan collates scan deploymentID k).map loaded =
      PolicyTable.resolveScan collates (scan.map loaded) deploymentID (1000 * k) := by
  unfold PolicyTable.resolveScan
  rw [← head?_map, map_mergeSort (fun a _ b _ => newer_loaded collates a b), filter_map]
  congr 3
  apply filter_congr
  intro row _
  simp only [effectiveAt_loaded row k]
  rfl

theorem sortsBefore_trans (a b c : PricingPolicy)
    (hab : MemoryPricingPolicies.sortsBefore a b = true)
    (hbc : MemoryPricingPolicies.sortsBefore b c = true) :
    MemoryPricingPolicies.sortsBefore a c = true := by
  unfold MemoryPricingPolicies.sortsBefore at *
  grind

theorem sortsBefore_total (a b : PricingPolicy) :
    (MemoryPricingPolicies.sortsBefore a b || MemoryPricingPolicies.sortsBefore b a) = true := by
  unfold MemoryPricingPolicies.sortsBefore
  grind

section

variable {policies scan : List PricingPolicy} {deploymentID : String} {at_ : Time}
  {x : PricingPolicy}

/-- Each store resolves what its own order puts before all others in force. -/
theorem memory_resolves_first (hmem : x ∈ policies) (hforce : InForce deploymentID at_ x)
    (hfirst : ∀ y ∈ policies, InForce deploymentID at_ y → y ≠ x →
      MemoryPricingPolicies.sortsBefore y x = false) (hscan : scan.Perm policies) :
    MemoryPricingPolicies.resolveScan scan deploymentID at_ = some x := by
  unfold MemoryPricingPolicies.resolveScan
  apply find_mergeSort sortsBefore_trans sortsBefore_total
  · exact mem_filter.mpr ⟨hscan.mem_iff.mpr hmem, decide_eq_true hforce.1⟩
  · exact decide_eq_true hforce.2
  intro y hy heffective hne
  obtain ⟨hy, hdeployment⟩ := mem_filter.mp hy
  exact hfirst y (hscan.mem_iff.mp hy)
    ⟨of_decide_eq_true hdeployment, of_decide_eq_true heffective⟩ hne

theorem postgres_resolves_first (hmem : x ∈ policies) (hforce : InForce deploymentID at_ x)
    (hfirst : ∀ y ∈ policies, InForce deploymentID at_ y → y ≠ x →
      PolicyTable.newer db.collates y x = false) (hscan : scan.Perm policies) :
    PolicyTable.resolveScan db.collates scan deploymentID at_ = some x := by
  have hhead : ∀ l : List PricingPolicy, l.head? = l.find? (fun _ => true) := by
    intro l
    cases l <;> rfl
  unfold PolicyTable.resolveScan
  rw [hhead]
  apply find_mergeSort newer_trans newer_total
  · exact mem_filter.mpr ⟨hscan.mem_iff.mpr hmem, decide_eq_true hforce⟩
  · rfl
  intro y hy _ hne
  obtain ⟨hy, hyforce⟩ := mem_filter.mp hy
  have hyforce' : y.deploymentID = deploymentID ∧ y.EffectiveAt at_ := of_decide_eq_true hyforce
  exact hfirst y (hscan.mem_iff.mp hy) hyforce' hne

theorem Leads.before (h : Leads db policies deploymentID at_ x) {y : PricingPolicy}
    (hy : y ∈ policies) (hforce : InForce deploymentID at_ y) (hne : y ≠ x) :
    MemoryPricingPolicies.sortsBefore y x = false ∧ PolicyTable.newer db.collates y x = false := by
  have hahead := h.ahead y hy hforce hne
  unfold MemoryPricingPolicies.sortsBefore PolicyTable.newer
  grind

theorem memory_resolves_none (h : ∀ p ∈ policies, ¬ InForce deploymentID at_ p)
    (hscan : scan.Perm policies) :
    MemoryPricingPolicies.resolveScan scan deploymentID at_ = none := by
  unfold MemoryPricingPolicies.resolveScan
  rw [find?_eq_none]
  intro p hp heffective
  obtain ⟨hmem, hdeployment⟩ := mem_filter.mp (mem_mergeSort.mp hp)
  exact h p (hscan.mem_iff.mp hmem) ⟨of_decide_eq_true hdeployment, of_decide_eq_true heffective⟩

theorem postgres_resolves_none (h : ∀ p ∈ policies, ¬ InForce deploymentID at_ p)
    (hscan : scan.Perm policies) :
    PolicyTable.resolveScan db.collates scan deploymentID at_ = none := by
  have hempty : scan.filter (fun p => decide (p.deploymentID = deploymentID ∧ p.EffectiveAt at_)) =
      [] := by
    rw [filter_eq_nil_iff]
    intro p hp hforce
    have hforce' : p.deploymentID = deploymentID ∧ p.EffectiveAt at_ := of_decide_eq_true hforce
    exact h p (hscan.mem_iff.mp hp) hforce'
  unfold PolicyTable.resolveScan
  rw [hempty, mergeSort_nil]
  rfl

end

/-- Where one policy leads, or none is in force, both stores resolve alike. -/
theorem Mirrors.resolves (h : Mirrors m t) {deploymentID : String} {at_ : Time}
    (hstorable : Storable deploymentID) (hwhole : 1000 ∣ at_)
    (hled : (∃ x, Leads db m.policies deploymentID at_ x) ∨
      ∀ p ∈ m.policies, ¬ InForce deploymentID at_ p)
    (answer : Except ReadError PricingPolicy) :
    m.Resolves deploymentID at_ answer ↔ t.Resolves db deploymentID at_ answer := by
  obtain ⟨k, rfl⟩ := hwhole
  -- whatever the order of the scan, both come to one result
  obtain ⟨result, hsame⟩ : ∃ result, ∀ scan, scan.Perm m.policies →
      MemoryPricingPolicies.resolveScan scan deploymentID (1000 * k) = result ∧
      PolicyTable.resolveScan db.collates scan deploymentID (1000 * k) = result := by
    rcases hled with ⟨x, hx⟩ | hnone
    · refine ⟨some x, fun scan hscan => ⟨?_, ?_⟩⟩
      · exact memory_resolves_first hx.mem hx.inForce (fun y hy hf hne => (hx.before hy hf hne).1)
          hscan
      · exact postgres_resolves_first hx.mem hx.inForce (fun y hy hf hne => (hx.before hy hf hne).2)
          hscan
    · exact ⟨none, fun scan hscan =>
        ⟨memory_resolves_none hnone hscan, postgres_resolves_none hnone hscan⟩⟩
  unfold MemoryPricingPolicies.Resolves PolicyTable.Resolves
  rw [if_pos hstorable, db.micros_whole]
  simp only [resolveScan_loaded]
  constructor
  · rintro ⟨scan, hscan, rfl⟩
    refine ⟨t.rows, .refl _, ?_⟩
    rw [(hsame _ (h.policies ▸ .refl _)).2, (hsame scan hscan).1]
  · rintro ⟨scan, hscan, rfl⟩
    refine ⟨m.policies, .refl _, ?_⟩
    rw [(hsame _ (.refl _)).1, (hsame _ (h.policies ▸ hscan.map loaded)).2]

/-- A sequence of `Create` calls for policies that the database keeps and whose references
tell them apart: the same calls succeed, and the stores mirror each other after it. -/
theorem createAll_mirrors {items : List PricingPolicy} {m : MemoryPricingPolicies}
    {t : PolicyTable} (h : Mirrors m t) (hkeeps : ∀ item ∈ items, db.Keeps item)
    (hrefers : ∀ item ∈ items, RefersTo (m.policies ++ items) item.id item.version) :
    (createAll MemoryPricingPolicies.create items m).1 =
        (createAll (PolicyTable.create db) items t).1 ∧
      Mirrors (createAll MemoryPricingPolicies.create items m).2
        (createAll (PolicyTable.create db) items t).2 ∧
      ∀ p ∈ (createAll MemoryPricingPolicies.create items m).2.policies,
        p ∈ m.policies ++ items := by
  induction items generalizing m t with
  | nil => exact ⟨rfl, h, fun p => mem_append_left _⟩
  | cons item items ih =>
    obtain ⟨hanswer, hmirrors, hrows⟩ := h.create (hkeeps item mem_cons_self)
      (fun p hp => hrefers item mem_cons_self p (mem_append_left _ hp))
    have hsub : ∀ p ∈ (m.create item).2.policies ++ items, p ∈ m.policies ++ item :: items := by
      intro p hp
      rcases mem_append.mp hp with hp | hp
      · rcases hrows p hp with hp | rfl
        · exact mem_append_left _ hp
        · exact mem_append_right _ mem_cons_self
      · exact mem_append_right _ (mem_cons_of_mem _ hp)
    obtain ⟨hanswers, hmirrors', hrows'⟩ := ih hmirrors
      (fun q hq => hkeeps q (mem_cons_of_mem _ hq))
      (fun q hq p hp => hrefers q (mem_cons_of_mem _ hq) p (hsub p hp))
    refine ⟨?_, hmirrors', fun p hp => hsub p (hrows' p hp)⟩
    simp only [createAll]
    rw [hanswer, hanswers]

/-- A policy in force from the start, under any name and creation time. -/
def plainPolicy (id version : String) (createdAt : Time) : PricingPolicy :=
  tokenPolicy id version "deployment" 1000 createdAt

/-- Two versions of one start, with their creation times. -/
def twoVersions (first second : Time) : List PricingPolicy :=
  [plainPolicy "price" "v1" first, plainPolicy "price" "v2" second]

/-- A database that knows the given deployments, compares code points and rounds to the
nearest microsecond. -/
def plainDatabase (deployments : List String) : Database where
  deployments := deployments
  collates a b := decide (a ≤ b)
  collates_trans a b c := by grind
  collates_total a b := by grind
  micros t := (t + 500) / 1000
  micros_whole (t : Int) := show (1000 * t + 500) / 1000 = t by omega

abbrev oneDeployment : Database := plainDatabase ["deployment"]

end AiCloud.Pricing
