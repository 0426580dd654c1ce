import AiCloud.GitOps.Approval
import AiCloud.GitOps.PrintedLines

/-!
# Reading a printed manifest

A document that was read and is printed is read back exactly if none of its lines looks like
a header and none of its values changes when it is read again. For a patched manifest this
is a condition on the manifest that was patched: a patch changes no text.
-/
namespace AiCloud.GitOps

open Lib Text List

/-- A label whose line is an entry. -/
def EntryLine (x : String × String) : Prop :=
  x.1.toList.head? = some '-' ∨ ¬ LooksLikeHeader x.2

def rereadLabels (labels : StringMap) : StringMap := labels.map (fun x => (x.1, reread x.2))

def labelPairs (labels : StringMap) : List (List Char) :=
  labels.map (fun x => pairLine "    " x.1 x.2)

namespace Scan

variable {s s' : Scan} {labels : StringMap}

def withLabels (s : Scan) (labels : StringMap) : Scan :=
  { s with doc := { s.doc with labels := labels } }

theorem put_label {key value : String} (hworkers : s.inWorkers = false) (hin : s.inLabels = true) :
    s.put key.toList value.toList = .ok (s.withLabels (setEntry key value s.doc.labels)) := by
  simp [put, hworkers, hin, withLabels]

theorem run_labelPairs (hworkers : s.inWorkers = false) (hin : s.inLabels = true)
    (hkeys : ∀ x ∈ labels, PlainKey x.1.toList) (hentry : ∀ x ∈ labels, EntryLine x)
    (hsorted : labels.Pairwise (fun a b => a.1 < b.1))
    (hafter : ∀ y ∈ s.doc.labels, ∀ x ∈ labels, y.1 < x.1) :
    s.run (labelPairs labels) = .ok (s.withLabels (s.doc.labels ++ rereadLabels labels)) := by
  induction labels generalizing s with
  | nil => simp [labelPairs, rereadLabels, run, withLabels]
  | cons x rest ih =>
    obtain ⟨hx, hrest⟩ := pairwise_cons.mp hsorted
    have hstep : s.step (pairLine "    " x.1 x.2) =
        .ok (s.withLabels (s.doc.labels ++ [(x.1, reread x.2)])) := by
      rw [s.step_pair (by decide) (hkeys x mem_cons_self) (hentry x mem_cons_self),
        put_label hworkers hin, setEntry_last (fun y hy => hafter y hy x mem_cons_self)]
    refine run_cons_iff.mpr ⟨_, hstep, ?_⟩
    refine (@ih (s.withLabels (s.doc.labels ++ [(x.1, reread x.2)])) hworkers hin
      (fun y hy => hkeys y (mem_cons_of_mem x hy))
      (fun y hy => hentry y (mem_cons_of_mem x hy)) hrest ?_).trans ?_
    · intro y hy z hz
      rcases mem_append.mp hy with hold | hnew
      · exact hafter y hold z (mem_cons_of_mem x hz)
      · rw [mem_singleton.mp hnew]
        exact hx z hz
    · simp [withLabels, rereadLabels]

theorem put_labels_subset {key value : List Char} (hworkers : s.doc.workers = [])
    (h : s.put key value = .ok s') :
    s'.doc.workers = [] ∧ ∀ x ∈ s'.doc.labels, x ∈ s.doc.labels ∨ x.1 = String.ofList key := by
  unfold put invalidYAML at h
  rw [if_neg (fun hcurrent => hcurrent.2 hworkers)] at h
  split at h
  · rw [← Except.ok.inj h]
    refine ⟨hworkers, fun x hx => ?_⟩
    rcases mem_setEntry hx with rfl | hin
    · exact .inr rfl
    · exact .inl hin
  · split at h <;> split_ifs at h <;> rw [← Except.ok.inj h] <;>
      exact ⟨hworkers, fun x => .inl⟩

/-- Wherever the scan is, only the line of a label that is an entry can set that label. -/
theorem run_labelPairs_subset (hworkers : s.doc.workers = [])
    (hkeys : ∀ x ∈ labels, PlainKey x.1.toList) (h : s.run (labelPairs labels) = .ok s') :
    s'.doc.workers = [] ∧ ∀ x ∈ s'.doc.labels,
      x ∈ s.doc.labels ∨ ∃ y ∈ labels, x.1 = y.1 ∧ EntryLine y := by
  induction labels generalizing s with
  | nil => exact Except.ok.inj h ▸ ⟨hworkers, fun x => .inl⟩
  | cons y rest ih =>
    obtain ⟨next, hstep, hrun⟩ := run_cons_iff.mp h
    have hplain : PlainKey y.1.toList := hkeys y mem_cons_self
    have hindent : ∀ c ∈ "    ".toList, isSpace c = true := by decide
    have hnext : next.doc.workers = [] ∧ ∀ x ∈ next.doc.labels,
        x ∈ s.doc.labels ∨ (x.1 = y.1 ∧ EntryLine y) := by
      by_cases hentry : EntryLine y
      · rw [s.step_pair hindent hplain hentry] at hstep
        obtain ⟨hnone, hlabels⟩ := put_labels_subset hworkers hstep
        refine ⟨hnone, fun x hx => (hlabels x hx).imp_right (fun hkey => ⟨?_, hentry⟩)⟩
        rw [hkey, String.ofList_toList]
      · obtain ⟨hdash, hheader⟩ := not_or.mp hentry
        have hsame : next.doc = s.doc := by
          rcases s.step_pair_header hindent hplain hdash (not_not.mp hheader) with
            henter | ⟨_, _, henter⟩
          · exact enter_doc (henter.symm.trans hstep)
          · exact enter_doc (henter.symm.trans hstep)
        rw [hsame]
        exact ⟨hworkers, fun x => .inl⟩
    obtain ⟨hnone, hlabels⟩ := ih hnext.1 (fun x hx => hkeys x (mem_cons_of_mem y hx)) hrun
    refine ⟨hnone, fun x hx => ?_⟩
    rcases hlabels x hx with hold | ⟨z, hz, hkey, hentry⟩
    · exact (hnext.2 x hold).imp_right (fun hy => ⟨y, mem_cons_self, hy⟩)
    · exact .inr ⟨z, mem_cons_of_mem y hz, hkey, hentry⟩

theorem labelPairs_sorted (hsorted : labels.Pairwise (fun a b => a.1 < b.1)) (hne : labels ≠ []) :
    labelLines labels = headerLine "  " "labels" :: labelPairs labels := by
  unfold labelLines labelPairs
  rw [if_neg hne, Pairwise.insertionSort_eq (hsorted.imp le_of_lt)]

theorem run_labelLines (hnone : s.doc.labels = []) (hkeys : ∀ x ∈ labels, PlainKey x.1.toList)
    (hentry : ∀ x ∈ labels, EntryLine x) (hsorted : labels.Pairwise (fun a b => a.1 < b.1)) :
    ∃ next, s.run (labelLines labels) = .ok next ∧
      next.doc = (s.withLabels (rereadLabels labels)).doc := by
  by_cases hne : labels = []
  · subst hne
    refine ⟨s, rfl, ?_⟩
    unfold withLabels
    rw [show rereadLabels [] = s.doc.labels from hnone.symm]
  · rw [labelPairs_sorted hsorted hne]
    let opened : Scan := ⟨s.doc, s.position, true, false, false⟩
    have hrun := @run_labelPairs opened labels rfl rfl hkeys hentry hsorted
      (fun y hy => absurd hy (by simp [opened, hnone]))
    refine ⟨_, run_cons_iff.mpr ⟨opened, step_labels, hrun⟩, ?_⟩
    simp [opened, withLabels, hnone]

theorem run_labelLines_subset (hworkers : s.doc.workers = []) (hnone : s.doc.labels = [])
    (hkeys : ∀ x ∈ labels, PlainKey x.1.toList)
    (hsorted : labels.Pairwise (fun a b => a.1 < b.1)) (h : s.run (labelLines labels) = .ok s') :
    ∀ x ∈ s'.doc.labels, ∃ y ∈ labels, x.1 = y.1 ∧ EntryLine y := by
  by_cases hne : labels = []
  · subst hne
    rw [← Except.ok.inj h, hnone]
    exact forall_mem_nil _
  · rw [labelPairs_sorted hsorted hne, run_cons_iff] at h
    obtain ⟨opened, hopen, hrun⟩ := h
    rw [step_labels] at hopen
    obtain rfl := Except.ok.inj hopen
    intro x hx
    have hsubset := @run_labelPairs_subset
      ⟨s.doc, s.position, true, false, false⟩ s' labels hworkers hkeys hrun
    exact (hsubset.2 x hx).resolve_left (by simp [hnone])

end Scan

variable (doc : ManagedClusterYAML)

def ManagedClusterYAML.reread : ManagedClusterYAML where
  apiVersion := GitOps.reread doc.apiVersion
  kind := GitOps.reread doc.kind
  name := GitOps.reread doc.name
  namespaceName := GitOps.reread doc.namespaceName
  labels := rereadLabels doc.labels
  environment := GitOps.reread doc.environment
  workers := doc.workers.map WorkerGroupYAML.reread

/-- No line of the printed document looks like a header that it is not. -/
structure ManagedClusterYAML.Entries : Prop where
  apiVersion : ¬ LooksLikeHeader doc.apiVersion
  kind : ¬ LooksLikeHeader doc.kind
  name : ¬ LooksLikeHeader doc.name
  namespaceName : ¬ LooksLikeHeader doc.namespaceName
  labels : ∀ x ∈ doc.labels, EntryLine x
  environment : ¬ LooksLikeHeader doc.environment
  workers : ∀ w ∈ doc.workers, ¬ LooksLikeHeader w.machineClassRef

/-- The scan behind the name and the namespace. -/
def Scan.named : Scan :=
  ⟨⟨reread doc.apiVersion, reread doc.kind, reread doc.name, reread doc.namespaceName, [], "", []⟩,
    .metadata, false, false, false⟩

variable {doc : ManagedClusterYAML}

theorem Scan.reads_named {doc' : ManagedClusterYAML} {rest : List (List Char)} :
    Scan.start.Reads ([pairLine "" "apiVersion" doc.apiVersion, pairLine "" "kind" doc.kind,
        headerLine "" "metadata", pairLine "  " "name" doc.name,
        pairLine "  " "namespace" doc.namespaceName] ++ rest) doc' ↔
      ¬ LooksLikeHeader doc.apiVersion ∧ ¬ LooksLikeHeader doc.kind ∧ ¬ LooksLikeHeader doc.name ∧
        ¬ LooksLikeHeader doc.namespaceName ∧ (Scan.named doc).Reads rest doc' := by
  let a : String := reread doc.apiVersion
  let k : String := reread doc.kind
  let n : String := reread doc.name
  have h1 : Scan.start.put "apiVersion".toList a.toList =
      .ok ⟨⟨a, "", "", "", [], "", []⟩, .top, false, false, false⟩ := by
    simp [put, start]
  have h2 : Scan.put ⟨⟨a, "", "", "", [], "", []⟩, .top, false, false, false⟩ "kind".toList
    k.toList = .ok ⟨⟨a, k, "", "", [], "", []⟩, .top, false, false, false⟩ := by
    simp [put]
  have h3 : Scan.put ⟨⟨a, k, "", "", [], "", []⟩, .metadata, false, false, false⟩ "name".toList
      n.toList = .ok ⟨⟨a, k, n, "", [], "", []⟩, .metadata, false, false, false⟩ := by
    simp [put]
  have h4 : Scan.put ⟨⟨a, k, n, "", [], "", []⟩, .metadata, false, false, false⟩ "namespace".toList
      (reread doc.namespaceName).toList = .ok (Scan.named doc) := by
    simp [put, Scan.named, a, k, n]
  rw [cons_append, cons_append, cons_append, cons_append, cons_append,
    nil_append, reads_field (by decide) (fieldKey (by decide)) h1,
    reads_field (by decide) (fieldKey (by decide)) h2, reads_cons_of_step step_metadata,
    reads_field (by decide) (fieldKey (by decide)) h3,
    reads_field (by decide) (fieldKey (by decide)) h4]

/-- A printed document is read as itself exactly if all its lines are entries and reading
changes no value. -/
theorem reads_formatLines (hdoc : doc.WasRead) (hn : ∀ w ∈ doc.workers, 0 ≤ w.replicas.val) :
    Scan.start.Reads (formatLines doc ++ [[]]) doc ↔ doc.Entries ∧ doc.reread = doc := by
  have hkeys : ∀ x ∈ doc.labels, PlainKey x.1.toList := fun x hx => (hdoc.labels x hx).1
  unfold formatLines
  rw [append_assoc, append_assoc, append_assoc, Scan.reads_named, Scan.reads_append]
  simp only [Scan.reads_spec hn]
  constructor
  · rintro ⟨hapi, hkind, hname, hnamespace, next, hrun, henv, hrefs, hresult⟩
    have hlabels : next.doc.labels = doc.labels := by
      rw [← hresult, ManagedClusterYAML.withSpec_labels]
    -- a label that is not an entry is missing afterwards; keys are unique
    have hentry : ∀ x ∈ doc.labels, EntryLine x := by
      intro x hx
      obtain ⟨y, hy, hkey, hyentry⟩ :=
        Scan.run_labelLines_subset rfl rfl hkeys hdoc.sorted hrun x (hlabels ▸ hx)
      have hunique : (doc.labels.map Prod.fst).Nodup :=
        pairwise_map.mpr (hdoc.sorted.imp (fun h => h.ne))
      exact inj_on_of_nodup_map hunique hx hy hkey ▸ hyentry
    obtain ⟨next', hrun', hnext⟩ :=
      @Scan.run_labelLines (Scan.named doc) doc.labels rfl hkeys hentry hdoc.sorted
    obtain rfl : next = next' := Except.ok.inj (hrun.symm.trans hrun')
    refine ⟨⟨hapi, hkind, hname, hnamespace, hentry, henv, hrefs⟩, ?_⟩
    rw [hnext] at hresult
    exact hresult
  · rintro ⟨h, hsame⟩
    obtain ⟨next, hrun, hnext⟩ :=
      @Scan.run_labelLines (Scan.named doc) doc.labels rfl hkeys h.labels hdoc.sorted
    refine ⟨h.apiVersion, h.kind, h.name, h.namespaceName, next, hrun, h.environment, h.workers, ?_⟩
    rw [hnext]
    exact hsame

variable {v : String}

theorem pairLine_chars {indent key : String} (hindent : ∀ c ∈ indent.toList, LineChar c)
    (hkey : ∀ c ∈ key.toList, LineChar c) (hv : ∀ c ∈ v.toList, LineChar c) :
    ∀ c ∈ pairLine indent key v, LineChar c := by
  unfold pairLine
  simp only [forall_mem_append, forall_mem_cons]
  exact ⟨hindent, hkey, by decide, by decide, hv⟩

theorem labelLines_chars {labels : StringMap}
    (h : ∀ x ∈ labels, PlainKey x.1.toList ∧ ReadValue x.2) :
    ∀ line ∈ labelLines labels, ∀ c ∈ line, LineChar c := by
  unfold labelLines
  split
  · exact forall_mem_nil _
  rw [forall_mem_cons]
  refine ⟨by decide, fun line hline => ?_⟩
  obtain ⟨x, hx, rfl⟩ := mem_map.mp hline
  obtain ⟨hkey, hvalue⟩ := h x ((mem_insertionSort _).mp hx)
  exact pairLine_chars (by decide) hkey.chars hvalue.chars

theorem workerLines_chars {w : WorkerGroupYAML} (hname : ReadValue w.name)
    (href : ReadValue w.machineClassRef) (hn : 0 ≤ w.replicas.val) :
    ∀ line ∈ workerLines w, ∀ c ∈ line, LineChar c := by
  unfold workerLines
  simp only [forall_mem_cons]
  refine ⟨pairLine_chars (by decide) (by decide) hname.chars,
    pairLine_chars (by decide) (by decide) (fun c hc => ?_), by decide,
    pairLine_chars (by decide) (by decide) href.chars, forall_mem_nil _⟩
  exact (digit_plain (replicas_digit hn hc)).2.2.2.2.2

theorem formatLines_chars (hdoc : doc.WasRead) (hn : ∀ w ∈ doc.workers, 0 ≤ w.replicas.val) :
    ∀ line ∈ formatLines doc, ∀ c ∈ line, LineChar c := by
  unfold formatLines
  simp only [forall_mem_append, forall_mem_cons]
  refine ⟨⟨⟨⟨pairLine_chars (by decide) (by decide) hdoc.apiVersion.chars,
    pairLine_chars (by decide) (by decide) hdoc.kind.chars, by decide,
    pairLine_chars (by decide) (by decide) hdoc.name.chars,
    pairLine_chars (by decide) (by decide) hdoc.namespaceName.chars,
    forall_mem_nil _⟩, labelLines_chars hdoc.labels⟩, by decide,
    pairLine_chars (by decide) (by decide) hdoc.environment.chars, by decide,
    forall_mem_nil _⟩, fun line hline => ?_⟩
  obtain ⟨w, hw, hin⟩ := mem_flatMap.mp hline
  exact workerLines_chars (hdoc.workers w hw).1 (hdoc.workers w hw).2 (hn w hw) line hin

variable {lines : List (List Char)}

theorem parse_textOfLines (hchars : ∀ line ∈ lines, ∀ c ∈ line, LineChar c) :
    parseManagedClusterYAML (textOfLines lines) =
      match Scan.start.run (lines ++ [[]]) with
      | .error e => .error e
      | .ok s => .ok s.doc := by
  have hlines : (textOfLines lines).toList.splitOn '\n' = lines ++ [[]] := by
    unfold textOfLines
    rw [String.toList_ofList]
    exact splitOn_terminated (fun line hline hin => (hchars line hline _ hin).1 rfl)
  have hbrackets : ¬ ('[' ∈ (textOfLines lines).toList ∨ ']' ∈ (textOfLines lines).toList) := by
    unfold textOfLines
    simp only [String.toList_ofList, mem_flatMap, mem_append, mem_singleton]
    rintro (⟨line, hline, hin | hin⟩ | ⟨line, hline, hin | hin⟩)
    · exact (hchars line hline _ hin).2.1 rfl
    · exact absurd hin (by decide)
    · exact (hchars line hline _ hin).2.2 rfl
    · exact absurd hin (by decide)
  unfold parseManagedClusterYAML
  cases hscan : Scan.start.run (lines ++ [[]]) <;> simp only [if_neg hbrackets, hlines, hscan]

theorem parse_textOfLines_ok_iff (hchars : ∀ line ∈ lines, ∀ c ∈ line, LineChar c) :
    parseManagedClusterYAML (textOfLines lines) = .ok doc ↔
      Scan.start.Reads (lines ++ [[]]) doc := by
  rw [parse_textOfLines hchars]
  unfold Scan.Reads
  cases Scan.start.run (lines ++ [[]]) with
  | error e => simp
  | ok s => simp

/-- A value that its printed line gives back. -/
def PlainValue (v : String) : Prop := v ≠ "" ∧ trimSpace v = v ∧ v.toList.getLast? ≠ some ':'

instance (v : String) : Decidable (PlainValue v) := inferInstanceAs (Decidable (_ ∧ _))

/-- The line of a worker's name, and that of a label whose key begins with a dash, is never
taken for a header. -/
structure ManagedClusterYAML.Printable (doc : ManagedClusterYAML) : Prop where
  apiVersion : PlainValue doc.apiVersion
  kind : PlainValue doc.kind
  name : PlainValue doc.name
  namespaceName : PlainValue doc.namespaceName
  labels : ∀ x ∈ doc.labels, trimSpace x.2 = x.2 ∧ (x.1.toList.head? = some '-' ∨ PlainValue x.2)
  environment : PlainValue doc.environment
  workers : ∀ w ∈ doc.workers, trimSpace w.name = w.name ∧ PlainValue w.machineClassRef

theorem trimSpace_eq_iff : trimSpace v = v ↔ strip isSpace v.toList = v.toList := by
  rw [← String.toList_inj]
  show (String.ofList (strip isSpace v.toList)).toList = _ ↔ _
  rw [String.toList_ofList]

theorem ReadValue.reread_iff (hv : ReadValue v) : reread v = v ↔ trimSpace v = v := by
  rw [trimSpace_eq_iff, ← String.toList_inj, reread, String.toList_ofList]
  exact ⟨strip_eq_self_of_strip, fun h => by rw [h, hv.unquoted]⟩

theorem plainValue_iff (ht : trimSpace v = v) : PlainValue v ↔ ¬ LooksLikeHeader v := by
  unfold PlainValue LooksLikeHeader
  rw [trimSpace_eq_iff.mp ht, String.toList_eq_nil_iff, not_or]
  exact ⟨fun h => ⟨h.1, h.2.2⟩, fun h => ⟨h.1, ht, h.2⟩⟩

theorem ReadValue.plain_iff (hv : ReadValue v) :
    PlainValue v ↔ ¬ LooksLikeHeader v ∧ reread v = v := by
  rw [hv.reread_iff]
  exact ⟨fun h => ⟨(plainValue_iff h.2.1).mp h, h.2.1⟩, fun h => (plainValue_iff h.2).mpr h.1⟩

theorem map_eq_self_iff {α : Type} {f : α → α} {l : List α} : l.map f = l ↔ ∀ x ∈ l, f x = x := by
  rw [← map_inj_left (g := fun x => x), map_id']

theorem ManagedClusterYAML.reread_eq_iff : doc.reread = doc ↔
    GitOps.reread doc.apiVersion = doc.apiVersion ∧ GitOps.reread doc.kind = doc.kind ∧
      GitOps.reread doc.name = doc.name ∧ GitOps.reread doc.namespaceName = doc.namespaceName ∧
      (∀ x ∈ doc.labels, GitOps.reread x.2 = x.2) ∧
      GitOps.reread doc.environment = doc.environment ∧
      ∀ w ∈ doc.workers, GitOps.reread w.name = w.name ∧
        GitOps.reread w.machineClassRef = w.machineClassRef := by
  obtain ⟨apiVersion, kind, name, namespaceName, labels, environment, workers⟩ := doc
  have hlabels : rereadLabels labels = labels ↔ ∀ x ∈ labels, GitOps.reread x.2 = x.2 := by
    unfold rereadLabels
    simp only [map_eq_self_iff, Prod.ext_iff, true_and]
  have hworkers : workers.map WorkerGroupYAML.reread = workers ↔
      ∀ w ∈ workers, GitOps.reread w.name = w.name ∧
        GitOps.reread w.machineClassRef = w.machineClassRef := by
    rw [map_eq_self_iff]
    refine forall₂_congr (fun w _ => ?_)
    obtain ⟨wname, replicas, ref⟩ := w
    simp [WorkerGroupYAML.reread]
  simp only [ManagedClusterYAML.reread, ManagedClusterYAML.mk.injEq, hlabels, hworkers]

/-- The condition on the lines is one on the values alone. -/
theorem ManagedClusterYAML.WasRead.printable_iff (hdoc : doc.WasRead) :
    doc.Printable ↔ doc.Entries ∧ doc.reread = doc := by
  rw [ManagedClusterYAML.reread_eq_iff]
  constructor
  · intro h
    have happi := hdoc.apiVersion.plain_iff.mp h.apiVersion
    have hkind := hdoc.kind.plain_iff.mp h.kind
    have hname := hdoc.name.plain_iff.mp h.name
    have hnamespace := hdoc.namespaceName.plain_iff.mp h.namespaceName
    have henvironment := hdoc.environment.plain_iff.mp h.environment
    have hrefs := fun w hw => (hdoc.workers w hw).2.plain_iff.mp (h.workers w hw).2
    refine ⟨⟨happi.1, hkind.1, hname.1, hnamespace.1, fun x hx => ?_, henvironment.1,
      fun w hw => (hrefs w hw).1⟩, happi.2, hkind.2, hname.2, hnamespace.2, fun x hx => ?_,
      henvironment.2, fun w hw => ⟨?_, (hrefs w hw).2⟩⟩
    · exact (h.labels x hx).2.imp_right (plainValue_iff (h.labels x hx).1).mp
    · exact (hdoc.labels x hx).2.reread_iff.mpr (h.labels x hx).1
    · exact (hdoc.workers w hw).1.reread_iff.mpr (h.workers w hw).1
  · rintro ⟨h, happi, hkind, hname, hnamespace, hlabels, henvironment, hworkers⟩
    refine ⟨hdoc.apiVersion.plain_iff.mpr ⟨h.apiVersion, happi⟩,
      hdoc.kind.plain_iff.mpr ⟨h.kind, hkind⟩, hdoc.name.plain_iff.mpr ⟨h.name, hname⟩,
      hdoc.namespaceName.plain_iff.mpr ⟨h.namespaceName, hnamespace⟩, fun x hx => ?_,
      hdoc.environment.plain_iff.mpr ⟨h.environment, henvironment⟩, fun w hw => ⟨?_, ?_⟩⟩
    · have htight : trimSpace x.2 = x.2 := (hdoc.labels x hx).2.reread_iff.mp (hlabels x hx)
      exact ⟨htight, (h.labels x hx).imp_right (plainValue_iff htight).mpr⟩
    · exact (hdoc.workers w hw).1.reread_iff.mp (hworkers w hw).1
    · exact (hdoc.workers w hw).2.plain_iff.mpr ⟨h.workers w hw, (hworkers w hw).2⟩

theorem parse_format_self_iff (hdoc : doc.WasRead) (hn : ∀ w ∈ doc.workers, 0 ≤ w.replicas.val) :
    parseManagedClusterYAML (formatManagedClusterYAML doc) = .ok doc ↔ doc.Printable := by
  unfold formatManagedClusterYAML
  rw [parse_textOfLines_ok_iff (formatLines_chars hdoc hn), reads_formatLines hdoc hn,
    hdoc.printable_iff]

theorem toWorker_fromWorker (w : WorkerGroupYAML) : toWorker (fromWorker w) = w := rfl

theorem toManagedClusterYAML_from (doc : ManagedClusterYAML) :
    toManagedClusterYAML (fromManagedClusterYAML doc) = doc := by
  unfold toManagedClusterYAML fromManagedClusterYAML
  simp only [map_map]
  rw [show toWorker ∘ fromWorker = id from funext toWorker_fromWorker, map_id]

theorem readManagedCluster_ok_iff {data : String} {cluster : ManagedCluster} :
    readManagedCluster data = .ok cluster ↔
      data ≠ "" ∧ ∃ doc, parseManagedClusterYAML data = .ok doc ∧
        cluster = fromManagedClusterYAML doc ∧ cluster.Valid := by
  unfold readManagedCluster
  split
  · rename_i hempty
    simp [hempty]
  · rename_i hne
    cases hparse : parseManagedClusterYAML data with
    | error e => simp
    | ok doc =>
      by_cases hvalid : (fromManagedClusterYAML doc).Valid
      · simp only [if_pos hvalid]
        refine ⟨fun h => ⟨hne, doc, rfl, (Except.ok.inj h).symm, Except.ok.inj h ▸ hvalid⟩, ?_⟩
        rintro ⟨-, doc', hdoc, rfl, -⟩
        rw [Except.ok.inj hdoc]
      · simp only [if_neg hvalid]
        refine ⟨fun h => (by cases h), ?_⟩
        rintro ⟨-, doc', hdoc, rfl, hvalid'⟩
        exact absurd (Except.ok.inj hdoc ▸ hvalid') hvalid

theorem textOfLines_ne_empty (h : lines ≠ []) : textOfLines lines ≠ "" := by
  obtain ⟨line, rest, rfl⟩ := exists_cons_of_ne_nil h
  intro hempty
  have hlist := congrArg String.toList hempty
  unfold textOfLines at hlist
  rw [String.toList_ofList, flatMap_cons] at hlist
  simp at hlist

/-- The texts of a worker; its size is printed by the code. -/
def WorkerGroupYAML.texts (w : WorkerGroupYAML) : String × String := (w.name, w.machineClassRef)

theorem resize_fromWorker (n : I32) (workers : List WorkerGroupYAML) :
    ∃ workers' : List WorkerGroupYAML, resize n (workers.map fromWorker) = workers'.map fromWorker ∧
        workers'.map WorkerGroupYAML.texts = workers.map WorkerGroupYAML.texts := by
  induction workers with
  | nil => exact ⟨[], rfl, rfl⟩
  | cons w rest ih =>
    by_cases hname : w.name = "gpu-workers"
    · refine ⟨{ w with replicas := n } :: rest, ?_, rfl⟩
      simp [resize, fromWorker, hname]
    · obtain ⟨rest', hresize, htexts⟩ := ih
      refine ⟨w :: rest', ?_, by rw [map_cons, map_cons, htexts]⟩
      rw [map_cons, map_cons, ← hresize]
      exact if_neg hname

theorem forall_texts {workers workers' : List WorkerGroupYAML} {P : String × String → Prop}
    (h : workers'.map WorkerGroupYAML.texts = workers.map WorkerGroupYAML.texts) :
    (∀ w ∈ workers', P w.texts) ↔ ∀ w ∈ workers, P w.texts := by
  rw [← forall_mem_map, h, forall_mem_map]

section Retexted

variable {doc : ManagedClusterYAML} {workers : List WorkerGroupYAML}
  (htexts : workers.map WorkerGroupYAML.texts = doc.workers.map WorkerGroupYAML.texts)
include htexts

theorem wasRead_of_texts (hdoc : doc.WasRead) : (doc.withSpec doc.environment workers).WasRead :=
  { hdoc with
    workers := (@forall_texts _ _ (fun t => ReadValue t.1 ∧ ReadValue t.2) htexts).mpr
      hdoc.workers }

theorem printable_of_texts : (doc.withSpec doc.environment workers).Printable ↔ doc.Printable := by
  have hworkers := @forall_texts _ _ (fun t => trimSpace t.1 = t.1 ∧ PlainValue t.2) htexts
  exact ⟨fun h => { h with workers := hworkers.mp h.workers },
    fun h => { h with workers := hworkers.mpr h.workers }⟩

end Retexted

theorem resized_fromManagedClusterYAML (n : I32) (doc : ManagedClusterYAML) :
    ∃ workers : List WorkerGroupYAML,
      workers.map WorkerGroupYAML.texts = doc.workers.map WorkerGroupYAML.texts ∧
        (fromManagedClusterYAML doc).resized n =
          fromManagedClusterYAML (doc.withSpec doc.environment workers) := by
  obtain ⟨workers, hresize, htexts⟩ := resize_fromWorker n doc.workers
  refine ⟨workers, htexts, ?_⟩
  unfold ManagedCluster.resized fromManagedClusterYAML
  simp only [hresize]
  rfl

theorem read_write_iff (hdoc : doc.WasRead) (hvalid : (fromManagedClusterYAML doc).Valid) :
    readManagedCluster (formatManagedClusterYAML doc) = .ok (fromManagedClusterYAML doc) ↔
      doc.Printable := by
  have hn : ∀ w ∈ doc.workers, 0 ≤ w.replicas.val := fun w hw =>
    hvalid.replicas (fromWorker w) (mem_map_of_mem hw)
  rw [readManagedCluster_ok_iff, ← parse_format_self_iff hdoc hn]
  constructor
  · rintro ⟨-, doc', hparse, hsame, -⟩
    have heq := congrArg toManagedClusterYAML hsame
    rw [toManagedClusterYAML_from, toManagedClusterYAML_from] at heq
    exact hparse.trans (congrArg Except.ok heq.symm)
  · intro hparse
    exact ⟨textOfLines_ne_empty (cons_ne_nil _ _), doc, hparse, rfl, hvalid⟩

theorem writeManagedClusterBytes_ok_iff {render : AnyValue → String} {plan : ManifestPatchPlan}
    {input : String} {result : ManifestBytesResult} :
    writeManagedClusterBytes render plan input = .ok result ↔
      ∃ cluster updated, readManagedCluster input = .ok cluster ∧
        applyManagedClusterPatch plan cluster = .ok updated ∧
        result = ⟨⟨plan.sourcePath, plan.outputPath, summarizeChanges render plan, updated,
          plan.changes, plan.rollback⟩, formatManagedClusterYAML
            (toManagedClusterYAML updated)⟩ := by
  unfold writeManagedClusterBytes writeDryRun patchError
  cases hread : readManagedCluster input with
  | error e => simp
  | ok cluster =>
    cases hpatch : applyManagedClusterPatch plan cluster with
    | error e =>
      simp only [hpatch]
      constructor
      · intro h
        cases h
      · rintro ⟨_, _, hcluster, hupdated, -⟩
        rw [← Except.ok.inj hcluster, hpatch] at hupdated
        cases hupdated
    | ok updated =>
      obtain ⟨-, -, -, -, -, -, -, -, hvalid⟩ := applyManagedClusterPatch_ok_iff.mp hpatch
      simp only [hpatch, writeManagedCluster, if_pos hvalid]
      constructor
      · intro h
        exact ⟨cluster, updated, rfl, hpatch, (Except.ok.inj h).symm⟩
      · rintro ⟨_, _, hcluster, hupdated, rfl⟩
        rw [← Except.ok.inj hcluster, hpatch] at hupdated
        rw [Except.ok.inj hupdated]

/-- A patched manifest is read as the patched cluster exactly if the manifest that was
patched gives every field a value that its line gives back. -/
theorem patched_manifest_reads_back_iff (render : AnyValue → String) (plan : ManifestPatchPlan)
    (input : String) (result : ManifestBytesResult)
    (h : writeManagedClusterBytes render plan input = .ok result) :
    readManagedCluster result.manifest = .ok result.writeResult.updated ↔
      ∃ doc, parseManagedClusterYAML input = .ok doc ∧ doc.Printable := by
  obtain ⟨cluster, updated, hread, hpatch, rfl⟩ := writeManagedClusterBytes_ok_iff.mp h
  obtain ⟨-, doc, hparse, rfl, -⟩ := readManagedCluster_ok_iff.mp hread
  obtain ⟨-, -, -, -, n, -, -, hupdated, hvalid⟩ := applyManagedClusterPatch_ok_iff.mp hpatch
  obtain ⟨workers, htexts, hresized⟩ := resized_fromManagedClusterYAML n doc
  rw [hupdated.trans hresized] at hvalid
  simp only [hupdated, hresized]
  rw [toManagedClusterYAML_from,
    read_write_iff (wasRead_of_texts htexts (parse_wasRead hparse)) hvalid,
    printable_of_texts htexts]
  constructor
  · exact fun hprintable => ⟨doc, hparse, hprintable⟩
  · rintro ⟨doc', hparse', hprintable⟩
    exact Except.ok.inj (hparse.symm.trans hparse') ▸ hprintable

def gpuManifest (namespaceLines : List String) : List (List Char) :=
  (["apiVersion: v1alpha1", "kind: ManagedCluster", "metadata:", "  name: dev-gpu-cluster"] ++
    namespaceLines ++ ["spec:", "  environment: dev", "  workers:", "    - name: gpu-workers",
      "      replicas: 3", "      machineClassRef:", "        name: gpu-large"]).map String.toList

def gpuDocument (namespaceName : String) (replicas : I32) : ManagedClusterYAML :=
  ⟨"v1alpha1", kindManagedCluster, "dev-gpu-cluster", namespaceName, [], "dev",
    [⟨"gpu-workers", replicas, "gpu-large"⟩]⟩

/-- A plan for any namespace. -/
def scaleAnywhere : ManifestPatchPlan :=
  { scaleOutPatch [replicaChange 3 6] with
    target := ⟨"v1alpha1", kindManagedCluster, "", "dev-gpu-cluster"⟩ }

def scaledManifest (namespaceName : String) : ManifestBytesResult where
  writeResult :=
    ⟨"cluster.yaml", "cluster.yaml", summarizeChanges (fun _ => "") scaleAnywhere,
      fromManagedClusterYAML (gpuDocument namespaceName ⟨6, by decide⟩), scaleAnywhere.changes,
      scaleAnywhere.rollback⟩
  manifest := formatManagedClusterYAML (gpuDocument namespaceName ⟨6, by decide⟩)

/-- The patch as it reaches the manifest that is read as a document. -/
theorem gpuManifest_written {input namespaceName : String} (hne : input ≠ "")
    (hparse : parseManagedClusterYAML input = .ok (gpuDocument namespaceName ⟨3, by decide⟩)) :
    writeManagedClusterBytes (fun _ => "") scaleAnywhere input =
      .ok (scaledManifest namespaceName) := by
  have hread : readManagedCluster input =
      .ok (fromManagedClusterYAML (gpuDocument namespaceName ⟨3, by decide⟩)) :=
    readManagedCluster_ok_iff.mpr ⟨hne, _, hparse, rfl, rfl⟩
  have hpatch : applyManagedClusterPatch scaleAnywhere
      (fromManagedClusterYAML (gpuDocument namespaceName ⟨3, by decide⟩)) =
      .ok (fromManagedClusterYAML (gpuDocument namespaceName ⟨6, by decide⟩)) := rfl
  exact writeManagedClusterBytes_ok_iff.mpr ⟨_, _, hread, hpatch, rfl⟩

theorem namespaced_manifest_reads_back : writeManagedClusterBytes (fun _ => "") scaleAnywhere
      (textOfLines (gpuManifest ["  namespace: default"])) = .ok (scaledManifest "default") ∧
    readManagedCluster (scaledManifest "default").manifest =
      .ok (scaledManifest "default").writeResult.updated := by
  have hparse : parseManagedClusterYAML (textOfLines (gpuManifest ["  namespace: default"])) =
      .ok (gpuDocument "default" ⟨3, by decide⟩) := by
    rw [parse_textOfLines (by decide)]
    decide
  have hwrite := gpuManifest_written (textOfLines_ne_empty (cons_ne_nil _ _)) hparse
  refine ⟨hwrite, (patched_manifest_reads_back_iff _ _ _ _ hwrite).mpr ⟨_, hparse, ?_⟩⟩
  exact ⟨by decide, by decide, by decide, by decide, by decide, by decide, by decide⟩

/-- A manifest need not name a namespace; the printed one then has the line `namespace: `. -/
theorem missing_namespace_not_read_back :
    writeManagedClusterBytes (fun _ => "") scaleAnywhere (textOfLines (gpuManifest [])) =
        .ok (scaledManifest "") ∧ readManagedCluster (scaledManifest "").manifest =
        .error ⟨"InvalidYAML", "unsupported section: namespace"⟩ := by
  have hparse : parseManagedClusterYAML (textOfLines (gpuManifest [])) =
      .ok (gpuDocument "" ⟨3, by decide⟩) := by
    rw [parse_textOfLines (by decide)]
    decide
  refine ⟨gpuManifest_written (textOfLines_ne_empty (cons_ne_nil _ _)) hparse, ?_⟩
  have hreread : parseManagedClusterYAML (scaledManifest "").manifest =
      .error ⟨"InvalidYAML", "unsupported section: namespace"⟩ := by
    unfold scaledManifest formatManagedClusterYAML
    rw [parse_textOfLines (by decide)]
    decide
  have hne : (scaledManifest "").manifest ≠ "" := textOfLines_ne_empty (cons_ne_nil _ _)
  unfold readManagedCluster
  rw [if_neg hne, hreread]

/-- A character that means nothing to the reader. -/
def NameChar (c : Char) : Prop := isSpace c = false ∧ c ∉ ['"', ':', '#', '[', ']']

instance (c : Char) : Decidable (NameChar c) := inferInstanceAs (Decidable (_ ∧ _))

/-- The alphabet of names: letters, digits, `.`, `-`, `_` and `/`. -/
theorem nameChar_of_alphabet {c : Char} (h : c.isAlphanum = true ∨ c ∈ ['.', '-', '_', '/']) :
    NameChar c := by
  have hascii : ∀ n < 128, (Char.ofNat n).isAlphanum = true ∨
      Char.ofNat n ∈ ['.', '-', '_', '/'] → NameChar (Char.ofNat n) := by decide
  have hlt : c.toNat < 128 := by
    rcases h with h | h
    · change (decide (c.val ≥ 'A'.val ∧ c.val ≤ 'Z'.val) || (c.val ≥ 'a'.val && c.val ≤ 'z'.val) ||
        (c.val ≥ '0'.val && c.val ≤ '9'.val)) = true at h
      simp only [Bool.or_eq_true, Bool.and_eq_true, decide_eq_true_eq] at h
      rcases h with (h | h) | h <;> exact Nat.lt_of_le_of_lt h.2 (by decide)
    · revert c
      decide
  rw [← Char.ofNat_toNat c] at h ⊢
  exact hascii _ hlt h

def IsName (v : String) : Prop := v ≠ "" ∧ ∀ c ∈ v.toList, NameChar c

instance (v : String) : Decidable (IsName v) := inferInstanceAs (Decidable (_ ∧ _))

structure ManagedClusterYAML.Named (doc : ManagedClusterYAML) : Prop where
  apiVersion : IsName doc.apiVersion
  kind : IsName doc.kind
  name : IsName doc.name
  namespaceName : IsName doc.namespaceName
  environment : IsName doc.environment
  labels : ∀ x ∈ doc.labels, IsName x.1 ∧ IsName x.2
  workers : ∀ w ∈ doc.workers, IsName w.name ∧ IsName w.machineClassRef

namespace IsName

variable {v : String} (h : IsName v)
include h

theorem lineChar {c : Char} (hc : c ∈ v.toList) : LineChar c := by
  obtain ⟨hspace, hmark⟩ := h.2 c hc
  simp only [List.mem_cons, not_or] at hmark
  exact ⟨fun heq => absurd hspace (heq ▸ by decide), hmark.2.2.2.1, hmark.2.2.2.2.1⟩

theorem strip_eq {p : Char → Bool} (hp : ∀ c, NameChar c → p c = false) :
    strip p v.toList = v.toList :=
  strip_eq_self (fun d hd => hp d (h.2 d (List.mem_of_head? hd)))
    (fun d hd => hp d (h.2 d (List.mem_of_getLast? hd)))

theorem readValue : ReadValue v := by
  refine ⟨fun c hc => h.lineChar hc, h.strip_eq fun c hc => ?_⟩
  simpa [isQuote] using fun heq : c = '"' => hc.2 (heq ▸ mem_cons_self)

theorem not_mem {c : Char} (hc : ¬ NameChar c) : c ∉ v.toList := fun hin => hc (h.2 c hin)

theorem plainKey : PlainKey v.toList := by
  refine ⟨fun hnil => h.1 (String.toList_eq_nil_iff.mp hnil), fun c => h.lineChar,
    h.strip_eq fun c hc => hc.1, h.not_mem (by decide), fun hhead => ?_, fun hitem => ?_⟩
  · exact h.not_mem (by decide) (mem_of_head? hhead)
  · exact h.not_mem (by decide : ¬ NameChar ' ') (hitem.subset (by decide))

theorem plainValue : PlainValue v :=
  ⟨h.1, trimSpace_eq_iff.mpr (h.strip_eq fun c hc => hc.1),
    fun hlast => h.not_mem (by decide) (mem_of_getLast? hlast)⟩

end IsName

variable {doc : ManagedClusterYAML} (h : doc.Named)
include h

theorem ManagedClusterYAML.Named.wasRead (hmap : doc.labels.Pairwise (fun a b => a.1 < b.1)) :
    doc.WasRead :=
  ⟨h.apiVersion.readValue, h.kind.readValue, h.name.readValue, h.namespaceName.readValue,
    h.environment.readValue, fun x hx => ⟨(h.labels x hx).1.plainKey, (h.labels x hx).2.readValue⟩,
    hmap, fun w hw => ⟨(h.workers w hw).1.readValue, (h.workers w hw).2.readValue⟩⟩

theorem ManagedClusterYAML.Named.printable : doc.Printable :=
  ⟨h.apiVersion.plainValue, h.kind.plainValue, h.name.plainValue, h.namespaceName.plainValue,
    fun x hx => ⟨(h.labels x hx).2.plainValue.2.1, .inr (h.labels x hx).2.plainValue⟩,
    h.environment.plainValue,
    fun w hw => ⟨(h.workers w hw).1.plainValue.2.1, (h.workers w hw).2.plainValue⟩⟩

omit h

theorem validateWorkers_carried (i : Nat) (seen : List String) (workers : List WorkerGroupSpec) :
    validateWorkers i seen ((workers.map toWorker).map fromWorker) =
      validateWorkers i seen workers := by
  induction workers generalizing i seen with
  | nil => rfl
  | cons w rest ih =>
    simp only [map_cons, validateWorkers, ih]
    rfl

/-- A valid cluster of plain names is written and read back with all that a manifest carries;
its labels are a map, kept in the order of their keys. -/
theorem named_cluster_reads_back (cluster : ManagedCluster) (hvalid : cluster.Valid)
    (hnamed : (toManagedClusterYAML cluster).Named)
    (hmap : cluster.metadata.labels.Pairwise (fun a b => a.1 < b.1)) :
    ∃ text read, writeManagedCluster cluster = .ok text ∧ readManagedCluster text = .ok read ∧
      toManagedClusterYAML read = toManagedClusterYAML cluster := by
  have hvalid' : (fromManagedClusterYAML (toManagedClusterYAML cluster)).Valid := by
    unfold ManagedCluster.Valid validateManagedCluster at hvalid ⊢
    rw [← validateWorkers_carried] at hvalid
    exact hvalid
  refine ⟨_, _, if_pos hvalid, (read_write_iff (hnamed.wasRead hmap) hvalid').mpr hnamed.printable,
    toManagedClusterYAML_from _⟩

theorem labelled_cluster_reads_back :
    ∃ text read, writeManagedCluster (fromManagedClusterYAML
        { gpuDocument "default" ⟨3, by decide⟩ with labels := [("name", "a/b"), ("team", "-")] }) =
        .ok text ∧
      readManagedCluster text = .ok read ∧
        read.metadata.labels = [("name", "a/b"), ("team", "-")] := by
  obtain ⟨text, read, hwrite, hread, hsame⟩ := named_cluster_reads_back (fromManagedClusterYAML
    { gpuDocument "default" ⟨3, by decide⟩ with labels := [("name", "a/b"), ("team", "-")] })
    (by decide) ⟨by decide, by decide, by decide, by decide, by decide, by decide,
      by decide⟩
    (by decide)
  exact ⟨text, read, hwrite, hread, congrArg ManagedClusterYAML.labels hsame⟩

end AiCloud.GitOps
