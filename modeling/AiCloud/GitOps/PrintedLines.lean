import AiCloud.GitOps.Reading
import Mathlib.Tactic.IntervalCases

/-!
# Reading printed lines

A printed line is read as an entry unless its value is blank or ends in a colon; then it
looks like the header of a section. An entry gives its value trimmed and unquoted once more.
-/
namespace AiCloud.GitOps

open Lib Text List

variable (v : String)

/-- What the reader makes of a printed value. -/
def reread : String := String.ofList (strip isQuote (strip isSpace v.toList))

/-- The line of such a value ends in a colon. -/
def LooksLikeHeader : Prop :=
  strip isSpace v.toList = [] ∨ (strip isSpace v.toList).getLast? = some ':'

instance : Decidable (LooksLikeHeader v) := inferInstanceAs (Decidable (_ ∨ _))

/-- What stands behind the colon of a printed pair. -/
def printedTail : List Char := (' ' :: v.toList).rdropWhile isSpace

theorem strip_space_cons : strip isSpace (' ' :: v.toList) = strip isSpace v.toList :=
  strip_append_left (s := [' ']) (by decide) v.toList

theorem strip_printedTail : strip isSpace (printedTail v) = strip isSpace v.toList := by
  rw [printedTail, strip_rdropWhile, strip_space_cons]

theorem printedTail_header_iff :
    (':' :: printedTail v).getLast? = some ':' ↔ LooksLikeHeader v := by
  unfold LooksLikeHeader
  rw [getLast?_cons, printedTail, rdropWhile_getLast, strip_space_cons]
  cases hlast : (strip isSpace v.toList).getLast? with
  | none => simp [getLast?_eq_none_iff.mp hlast]
  | some c =>
    have hne : strip isSpace v.toList ≠ [] := fun hnil => by simp [hnil] at hlast
    simp [hne]

theorem PlainKey.head_not_space {key : List Char} (hkey : PlainKey key) :
    ∀ d, key.head? = some d → isSpace d = false := fun d hd =>
  head_strip (p := isSpace) (s := key) (by rw [hkey.tight, hd])

variable {indent key : String}

theorem strip_pairLine (hindent : ∀ c ∈ indent.toList, isSpace c = true)
    (hne : key.toList ≠ []) (hhead : ∀ d, key.toList.head? = some d → isSpace d = false)
    (v : String) : strip isSpace (pairLine indent key v) = key.toList ++ ':' :: printedTail v := by
  have hfirst : ∀ d, (key.toList ++ [':']).head? = some d → isSpace d = false := by
    intro d hd
    rw [head?_append_of_ne_nil _ hne] at hd
    exact hhead d hd
  unfold pairLine
  rw [strip_append_left hindent]
  exact strip_append_not hfirst (by decide) _

theorem PlainKey.append_no_item {key : List Char} (hkey : PlainKey key) (rest : List Char) :
    ¬ ['-', ' '] <+: key ++ ':' :: rest := by
  intro hitem
  match key, hkey.ne_nil, hkey.no_item with
  | [c], _, _ =>
    rw [singleton_append, cons_prefix_cons, cons_prefix_cons] at hitem
    exact absurd hitem.2.1 (by decide)
  | c :: d :: tail, _, hnot =>
    rw [cons_append, cons_append, cons_prefix_cons, cons_prefix_cons] at hitem
    exact hnot (by rw [← hitem.1, ← hitem.2.1]; exact prefix_append ['-', ' '] tail)

variable {v : String}

theorem Scan.assign_pair {s : Scan} {key : String} (hkey : PlainKey key.toList) :
    s.assign (key.toList ++ ':' :: printedTail v) = s.put key.toList (reread v).toList := by
  have hsplit := splitYAMLKeyValue_of_key hkey.no_colon (hkey.tight.symm ▸ hkey.ne_nil)
    (printedTail v)
  rw [hkey.tight, strip_printedTail] at hsplit
  unfold Scan.assign reread
  rw [String.toList_ofList]
  simp only [hsplit]

section PrintedPair

variable {indent key : String} (hindent : ∀ c ∈ indent.toList, isSpace c = true)
  (hkey : PlainKey key.toList) {v : String}
include hindent hkey

theorem readLine_pair :
    readLine (pairLine indent key v) =
      if LooksLikeHeader v ∧ key.toList.head? ≠ some '-' then
        .header (key.toList ++ ':' :: printedTail v).dropLast
      else .entry (key.toList ++ ':' :: printedTail v) := by
  have hhead : (key.toList ++ ':' :: printedTail v).head? = key.toList.head? :=
    head?_append_of_ne_nil _ hkey.ne_nil
  have hlast : (key.toList ++ ':' :: printedTail v).getLast? = (':' :: printedTail v).getLast? :=
    getLast?_append_of_ne_nil _ (cons_ne_nil _ _)
  have hskip : ¬ (key.toList ++ ':' :: printedTail v = [] ∨ key.toList.head? = some '#') := by
    simp [hkey.no_comment]
  have hitem : ¬ ['-', ' '].isPrefixOf (key.toList ++ ':' :: printedTail v) = true :=
    mt isPrefixOf_iff_prefix.1 (hkey.append_no_item _)
  unfold readLine
  rw [strip_pairLine hindent hkey.ne_nil hkey.head_not_space]
  simp only [hhead, hlast, printedTail_header_iff, if_neg hskip, if_neg hitem]

theorem Scan.step_pair (s : Scan) (h : key.toList.head? = some '-' ∨ ¬ LooksLikeHeader v) :
    s.step (pairLine indent key v) = s.put key.toList (reread v).toList := by
  have hentry : ¬ (LooksLikeHeader v ∧ key.toList.head? ≠ some '-') := by tauto
  unfold Scan.step
  rw [readLine_pair hindent hkey, if_neg hentry]
  exact Scan.assign_pair hkey

/-- A pair whose line is not an entry opens the section of its key, or none. -/
theorem Scan.step_pair_header (s : Scan) (hdash : key.toList.head? ≠ some '-')
    (h : LooksLikeHeader v) : s.step (pairLine indent key v) = s.enter key.toList ∨
    ∃ name, ':' ∈ name ∧ s.step (pairLine indent key v) = s.enter name := by
  unfold Scan.step
  rw [readLine_pair hindent hkey, if_pos ⟨h, hdash⟩]
  cases htail : printedTail v with
  | nil => exact .inl (by rw [dropLast_concat])
  | cons c rest =>
    refine .inr ⟨_, ?_, rfl⟩
    rw [dropLast_append_of_ne_nil (cons_ne_nil _ _), dropLast_cons_cons]
    simp

end PrintedPair

def sectionKeys : List String := ["metadata", "spec", "labels", "workers", "machineClassRef"]

theorem Scan.enter_ok_mem {s s' : Scan} {key : List Char} (h : s.enter key = .ok s') :
    key ∈ sectionKeys.map String.toList := by
  unfold Scan.enter invalidYAML at h
  split_ifs at h <;> simp_all [sectionKeys]

/-- A key of the printer's own. -/
structure FieldKey (key : String) : Prop where
  plain : PlainKey key.toList
  no_dash : key.toList.head? ≠ some '-'
  no_section : key.toList ∉ sectionKeys.map String.toList

instance (c : Char) : Decidable (LineChar c) := inferInstanceAs (Decidable (_ ∧ _))

theorem fieldKey {key : String}
    (h : key ∈ ["apiVersion", "kind", "name", "namespace", "environment", "replicas"]) :
    FieldKey key := by
  simp only [mem_cons, not_mem_nil, or_false] at h
  rcases h with rfl | rfl | rfl | rfl | rfl | rfl <;>
    exact ⟨⟨by decide, by decide, by decide, by decide, by decide, by decide⟩, by decide, by decide⟩

theorem Scan.step_field (hindent : ∀ c ∈ indent.toList, isSpace c = true)
    (hkey : FieldKey key) {s s' : Scan} : s.step (pairLine indent key v) = .ok s' ↔
    ¬ LooksLikeHeader v ∧ s.put key.toList (reread v).toList = .ok s' := by
  by_cases hv : LooksLikeHeader v
  · refine ⟨fun h => absurd h ?_, fun h => absurd hv h.1⟩
    intro hok
    rcases s.step_pair_header hindent hkey.plain hkey.no_dash hv with
      henter | ⟨name, hcolon, henter⟩
    · exact hkey.no_section (Scan.enter_ok_mem (henter.symm.trans hok))
    · have hmem := Scan.enter_ok_mem (henter.symm.trans hok)
      have hnone : ∀ k ∈ sectionKeys.map String.toList, ':' ∉ k := by decide
      exact hnone name hmem hcolon
  · rw [s.step_pair hindent hkey.plain (.inr hv)]
    exact ⟨fun h => ⟨hv, h⟩, fun h => h.2⟩

/-- The lines are read, and the document is then `doc`. -/
def Scan.Reads (s : Scan) (lines : List (List Char)) (doc : ManagedClusterYAML) : Prop :=
  ∃ s', s.run lines = .ok s' ∧ s'.doc = doc

namespace Scan

variable {s : Scan} {line : List Char} {lines rest : List (List Char)} {doc : ManagedClusterYAML}

theorem run_cons_iff {s' : Scan} :
    s.run (line :: lines) = .ok s' ↔ ∃ next, s.step line = .ok next ∧ next.run lines = .ok s' := by
  cases hstep : s.step line with
  | error e => simp [run, hstep]
  | ok next => simp [run, hstep]

theorem reads_cons :
    s.Reads (line :: lines) doc ↔ ∃ next, s.step line = .ok next ∧ next.Reads lines doc := by
  unfold Reads
  simp only [run_cons_iff]
  constructor
  · rintro ⟨s', ⟨next, hstep, hrun⟩, hdoc⟩
    exact ⟨next, hstep, s', hrun, hdoc⟩
  · rintro ⟨next, hstep, s', hrun, hdoc⟩
    exact ⟨s', ⟨next, hstep, hrun⟩, hdoc⟩

theorem reads_cons_of_step {next : Scan} (hstep : s.step line = .ok next) :
    s.Reads (line :: lines) doc ↔ next.Reads lines doc := by
  rw [reads_cons, hstep]
  exact ⟨fun ⟨_, hok, h⟩ => Except.ok.inj hok ▸ h, fun h => ⟨next, rfl, h⟩⟩

theorem reads_append :
    s.Reads (lines ++ rest) doc ↔ ∃ next, s.run lines = .ok next ∧ next.Reads rest doc := by
  induction lines generalizing s with
  | nil => exact ⟨fun h => ⟨s, rfl, h⟩, fun ⟨_, hok, h⟩ => Except.ok.inj hok ▸ h⟩
  | cons line lines ih =>
    rw [cons_append, reads_cons]
    simp only [ih, run_cons_iff]
    constructor
    · rintro ⟨next, hstep, last, hrun, h⟩
      exact ⟨last, ⟨next, hstep, hrun⟩, h⟩
    · rintro ⟨last, ⟨next, hstep, hrun⟩, h⟩
      exact ⟨next, hstep, last, hrun, h⟩

theorem reads_field {next : Scan}
    (hindent : ∀ c ∈ indent.toList, isSpace c = true) (hkey : FieldKey key)
    (hput : s.put key.toList (reread v).toList = .ok next) :
    s.Reads (pairLine indent key v :: rest) doc ↔ ¬ LooksLikeHeader v ∧ next.Reads rest doc := by
  rw [reads_cons]
  simp only [step_field hindent hkey, hput]
  constructor
  · rintro ⟨n, ⟨hv, hok⟩, h⟩
    exact ⟨hv, Except.ok.inj hok ▸ h⟩
  · rintro ⟨hv, h⟩
    exact ⟨next, ⟨hv, rfl⟩, h⟩

theorem reads_end : s.Reads [[]] doc ↔ s.doc = doc := by
  rw [reads_cons_of_step (show s.step [] = .ok s from rfl)]
  exact ⟨fun ⟨_, hok, h⟩ => Except.ok.inj hok ▸ h, fun h => ⟨s, rfl, h⟩⟩

theorem step_metadata :
    s.step (headerLine "" "metadata") = .ok ⟨s.doc, .metadata, false, false, false⟩ := rfl

theorem step_spec : s.step (headerLine "" "spec") = .ok ⟨s.doc, .spec, false, false, false⟩ := rfl

theorem step_labels :
    s.step (headerLine "  " "labels") = .ok ⟨s.doc, s.position, true, false, false⟩ := rfl

theorem step_workers :
    s.step (headerLine "  " "workers") = .ok ⟨s.doc, s.position, false, true, false⟩ := rfl

theorem step_machineClassRef :
    s.step (headerLine "      " "machineClassRef") = .ok { s with inMachineClassRef := true } := rfl

end Scan

theorem digit_plain {c : Char} (h : c.isDigit = true) :
    isSpace c = false ∧ isQuote c = false ∧ c ≠ ':' ∧ c ≠ '-' ∧ c ≠ '+' ∧ LineChar c := by
  have hrange : 48 ≤ c.toNat ∧ c.toNat ≤ 57 := by
    simpa [Char.isDigit, UInt32.le_iff_toNat_le] using h
  obtain ⟨hlow, hhigh⟩ := hrange
  rw [← Char.ofNat_toNat c]
  generalize c.toNat = n at hlow hhigh
  interval_cases n <;> decide

section Replicas

variable {n : I32} (hn : 0 ≤ n.val)
include hn

theorem replicas_repr : toString n.val = n.val.toNat.repr := by
  show n.val.repr = _
  rw [Int.repr_eq_if, if_pos hn]

theorem replicas_digit {c : Char} (hc : c ∈ (toString n.val).toList) : c.isDigit = true :=
  isDigit_of_mem_repr (replicas_repr hn ▸ hc)

theorem strip_replicas {p : Char → Bool} (hp : ∀ c : Char, c.isDigit = true → p c = false) :
    strip p (toString n.val).toList = (toString n.val).toList :=
  strip_eq_self (fun d hd => hp d (replicas_digit hn (mem_of_head? hd)))
    (fun d hd => hp d (replicas_digit hn (mem_of_getLast? hd)))

theorem reread_replicas : reread (toString n.val) = toString n.val := by
  unfold reread
  rw [strip_replicas hn (fun c hc => (digit_plain hc).1),
    strip_replicas hn (fun c hc => (digit_plain hc).2.1), String.ofList_toList]

theorem replicas_not_header : ¬ LooksLikeHeader (toString n.val) := by
  unfold LooksLikeHeader
  rw [strip_replicas hn (fun c hc => (digit_plain hc).1)]
  rintro (hnil | hlast)
  · rw [replicas_repr hn] at hnil
    exact repr_toList_ne_nil _ hnil
  · exact (digit_plain (replicas_digit hn (mem_of_getLast? hlast))).2.2.1 rfl

theorem parseInt32_replicas : parseInt32 (toString n.val).toList = some n := by
  have hdigits : parseDigits (toString n.val).toList = some n.val.toNat := by
    rw [replicas_repr hn, parseDigits_repr]
  have hsize : checkedInt32 (n.val.toNat : Int) = some n := by
    unfold checkedInt32
    rw [Int.toNat_of_nonneg hn, dif_pos n.property]
  unfold parseInt32
  split
  · rename_i digits heq
    exact absurd rfl (digit_plain (replicas_digit hn (heq ▸ mem_cons_self))).2.2.2.1
  · rename_i digits heq
    exact absurd rfl (digit_plain (replicas_digit hn (heq ▸ mem_cons_self))).2.2.2.2.1
  · rw [hdigits, Option.bind_some, hsize]

end Replicas

def WorkerGroupYAML.reread (w : WorkerGroupYAML) : WorkerGroupYAML :=
  ⟨GitOps.reread w.name, w.replicas, GitOps.reread w.machineClassRef⟩

def ManagedClusterYAML.withSpec (doc : ManagedClusterYAML) (environment : String)
    (workers : List WorkerGroupYAML) : ManagedClusterYAML :=
  { doc with environment := environment, workers := workers }

theorem ManagedClusterYAML.withSpec_labels (doc : ManagedClusterYAML) (environment : String)
    (workers : List WorkerGroupYAML) : (doc.withSpec environment workers).labels = doc.labels := rfl

namespace Scan

variable {s : Scan} {rest : List (List Char)} {doc : ManagedClusterYAML}

def withWorkers (s : Scan) (workers : List WorkerGroupYAML) (inMachineClassRef : Bool) : Scan :=
  { s with doc := { s.doc with workers := workers }, inMachineClassRef := inMachineClassRef }

variable {workers : List WorkerGroupYAML} {w : WorkerGroupYAML}

theorem put_last {ref : Bool} {key value : List Char} (hin : s.inWorkers = true) :
    (s.withWorkers (workers ++ [w]) ref).put key value =
      (s.withWorkers (workers ++ [w]) ref).putWorker key value := by
  unfold put
  exact if_pos ⟨hin, append_ne_nil_of_right_ne_nil _ (cons_ne_nil _ _)⟩

theorem setWorker_last {f : WorkerGroupYAML → WorkerGroupYAML} {ref : Bool} :
    (s.withWorkers (workers ++ [w]) ref).setWorker f = s.withWorkers (workers ++ [f w]) ref := by
  unfold setWorker withWorkers
  simp only [modifyLast_concat]

theorem putWorker_name (h : s.inMachineClassRef = false) :
    s.putWorker "name".toList v.toList = .ok (s.setWorker (fun w => { w with name := v })) := by
  simp [putWorker, h]

theorem putWorker_machineClassRef (h : s.inMachineClassRef = true) :
    s.putWorker "name".toList v.toList =
      .ok (s.setWorker (fun w => { w with machineClassRef := v })) := by
  simp [putWorker, h]

theorem putWorker_replicas {n : I32} (h : s.inMachineClassRef = false) (hn : 0 ≤ n.val) :
    s.putWorker "replicas".toList (reread (toString n.val)).toList =
      .ok (s.setWorker (fun w => { w with replicas := n })) := by
  unfold putWorker
  rw [h, if_neg (by decide), if_neg (by decide), if_pos rfl, reread_replicas hn,
    parseInt32_replicas hn]

theorem step_item (hin : s.inWorkers = true) : s.step (pairLine "    - " "name" v) =
    .ok (s.withWorkers (s.doc.workers ++ [⟨reread v, zeroI32, ""⟩]) false) := by
  have hstrip : strip isSpace (pairLine "    - " "name" v) =
    "- name".toList ++ ':' :: printedTail v :=
    @strip_pairLine "    " "- name" (by decide) (by decide)
      (fun d hd => Option.some.inj hd ▸ by decide) v
  have hread : readLine (pairLine "    - " "name" v) =
      .item ("name".toList ++ ':' :: printedTail v) := by
    unfold readLine
    rw [hstrip]
    simp
  have hbody : "name".toList ++ ':' :: printedTail v ≠ [] :=
    append_ne_nil_of_right_ne_nil _ (cons_ne_nil _ _)
  have hput : s.addWorker.put "name".toList (reread v).toList =
      .ok (s.withWorkers (s.doc.workers ++ [⟨reread v, zeroI32, ""⟩]) false) := by
    have hadd : s.addWorker = s.withWorkers (s.doc.workers ++ [⟨"", zeroI32, ""⟩]) false := rfl
    rw [hadd, put_last hin, putWorker_name rfl, setWorker_last]
  unfold step
  simp only [hread, hin, if_neg hbody]
  rw [if_neg (by decide), assign_pair (fieldKey (by decide)).plain, hput]

theorem reads_worker (hin : s.inWorkers = true) (hn : 0 ≤ w.replicas.val) :
    s.Reads (workerLines w ++ rest) doc ↔ ¬ LooksLikeHeader w.machineClassRef ∧
      (s.withWorkers (s.doc.workers ++ [w.reread]) true).Reads rest doc := by
  have hreplicas : (s.withWorkers (s.doc.workers ++ [⟨reread w.name, zeroI32, ""⟩]) false).put
      "replicas".toList (reread (toString w.replicas.val)).toList =
      .ok (s.withWorkers (s.doc.workers ++ [⟨reread w.name, w.replicas, ""⟩]) false) := by
    rw [put_last hin, putWorker_replicas rfl hn, setWorker_last]
  have href : (s.withWorkers (s.doc.workers ++ [⟨reread w.name, w.replicas, ""⟩]) true).put
      "name".toList (reread w.machineClassRef).toList =
      .ok (s.withWorkers (s.doc.workers ++ [w.reread]) true) := by
    rw [put_last hin, putWorker_machineClassRef rfl, setWorker_last]
    rfl
  unfold workerLines
  rw [cons_append, cons_append, cons_append, cons_append, nil_append,
    reads_cons_of_step (step_item hin), reads_field (by decide) (fieldKey (by decide)) hreplicas,
    and_iff_right (replicas_not_header hn), reads_cons_of_step step_machineClassRef]
  exact reads_field (by decide) (fieldKey (by decide)) href

theorem reads_workers (hin : s.inWorkers = true) (hn : ∀ w ∈ workers, 0 ≤ w.replicas.val) :
    s.Reads (workers.flatMap workerLines ++ [[]]) doc ↔
      (∀ w ∈ workers, ¬ LooksLikeHeader w.machineClassRef) ∧ s.doc.withSpec s.doc.environment
          (s.doc.workers ++ workers.map WorkerGroupYAML.reread) = doc := by
  induction workers generalizing s with
  | nil =>
    rw [flatMap_nil, nil_append, reads_end, map_nil, append_nil]
    simp [ManagedClusterYAML.withSpec]
  | cons w workers ih =>
    have hnext : (s.withWorkers (s.doc.workers ++ [w.reread]) true).inWorkers = true := hin
    rw [flatMap_cons, append_assoc, reads_worker hin (hn w mem_cons_self),
      ih hnext (fun x hx => hn x (mem_cons_of_mem w hx)), forall_mem_cons, and_assoc]
    simp [withWorkers, ManagedClusterYAML.withSpec]

theorem reads_spec {environment : String} (hn : ∀ w ∈ workers, 0 ≤ w.replicas.val) :
    s.Reads ([headerLine "" "spec", pairLine "  " "environment" environment,
        headerLine "  " "workers"] ++ (workers.flatMap workerLines ++ [[]])) doc ↔
      ¬ LooksLikeHeader environment ∧ (∀ w ∈ workers, ¬ LooksLikeHeader w.machineClassRef) ∧
        s.doc.withSpec (reread environment)
          (s.doc.workers ++ workers.map WorkerGroupYAML.reread) = doc := by
  have hput : Scan.put ⟨s.doc, .spec, false, false, false⟩ "environment".toList
      (reread environment).toList =
      .ok ⟨{ s.doc with environment := reread environment }, .spec, false, false, false⟩ := by
    simp [put]
  rw [cons_append, cons_append, cons_append, nil_append,
    reads_cons_of_step step_spec, reads_field (by decide) (fieldKey (by decide)) hput,
    reads_cons_of_step step_workers, reads_workers rfl hn]
  simp only [ManagedClusterYAML.withSpec]

end Scan

end AiCloud.GitOps
