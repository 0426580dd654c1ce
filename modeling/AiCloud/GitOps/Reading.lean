import AiCloud.GitOps.PatchPlan
import AiCloud.Lib.Numbers
import Mathlib.Data.List.ModifyLast
import Mathlib.Data.List.Sort
import Mathlib.Data.String.Basic

/-!
# Manifests as text

The reader and the writer of `ManagedCluster` manifests. The reader scans line by line
and knows where it is by a section and three flags; the writer prints one line for each
field. Maps of labels are kept in the order of their keys, so that equal maps are equal
lists. What a reading ends with is not any document: each line keeps the form of values
and keys.
-/
namespace AiCloud.GitOps

open Lib Text List Except

structure WorkerGroupYAML where
  name : String
  replicas : I32
  machineClassRef : String
  deriving DecidableEq

structure ManagedClusterYAML where
  (apiVersion kind name namespaceName : String)
  labels : StringMap
  environment : String
  workers : List WorkerGroupYAML
  deriving DecidableEq

def zeroI32 : I32 := ⟨0, by decide⟩

/-- A line of a manifest: one to skip, a key without a value, a list item or an entry. -/
inductive Line
  | skip
  | header (key : List Char)
  | item (body : List Char)
  | entry (body : List Char)

def readLine (line : List Char) : Line :=
  let trimmed := strip isSpace line
  if trimmed = [] ∨ trimmed.head? = some '#' then .skip
  else if trimmed.getLast? = some ':' ∧ trimmed.head? ≠ some '-' then .header trimmed.dropLast
  else if ['-', ' '].isPrefixOf trimmed then .item (trimmed.drop 2)
  else .entry trimmed

def isQuote (c : Char) : Bool := c == '"'

def isColon (c : Char) : Bool := c == ':'

def splitYAMLKeyValue (line : List Char) : Option (List Char × List Char) :=
  match line.dropWhile (fun c => !isColon c) with
  | [] => none
  | _ :: rest =>
    let key := strip isSpace (line.takeWhile (fun c => !isColon c))
    let value := strip isQuote (strip isSpace rest)
    if key = [] then none else some (key, value)

/-- `strconv.ParseInt(value, 10, 32)`. -/
def parseInt32 : List Char → Option I32
  | '-' :: digits => (parseDigits digits).bind (fun n => checkedInt32 (-n))
  | '+' :: digits => (parseDigits digits).bind (fun n => checkedInt32 n)
  | digits => (parseDigits digits).bind (fun n => checkedInt32 n)

inductive Section
  | top
  | metadata
  | spec

/-- Where the scan is. The current worker is the last one, once there is one. -/
structure Scan where
  doc : ManagedClusterYAML
  position : Section
  (inLabels inWorkers inMachineClassRef : Bool)

def Scan.start : Scan := ⟨⟨"", "", "", "", [], "", []⟩, .top, false, false, false⟩

def invalidYAML {α : Type} (message : String) : Except CodedError α :=
  .error ⟨"InvalidYAML", message⟩

/-- `labels[key] = value`. -/
def setEntry (key value : String) : StringMap → StringMap
  | [] => [(key, value)]
  | (k, v) :: rest =>
    if key = k then (key, value) :: rest
    else if key < k then (key, value) :: (k, v) :: rest
    else (k, v) :: setEntry key value rest

/-- A key without a value. -/
def Scan.enter (s : Scan) (key : List Char) : Except CodedError Scan :=
  if key = "metadata".toList then .ok ⟨s.doc, .metadata, false, false, false⟩
  else if key = "spec".toList then .ok ⟨s.doc, .spec, false, false, false⟩
  else if key = "labels".toList then .ok ⟨s.doc, s.position, true, false, false⟩
  else if key = "workers".toList then .ok ⟨s.doc, s.position, false, true, false⟩
  else if key = "machineClassRef".toList then .ok { s with inMachineClassRef := true }
  else invalidYAML ("unsupported section: " ++ String.ofList key)

def Scan.setWorker (s : Scan) (f : WorkerGroupYAML → WorkerGroupYAML) : Scan :=
  { s with doc := { s.doc with workers := s.doc.workers.modifyLast f } }

/-- A field of the current worker. -/
def Scan.putWorker (s : Scan) (key value : List Char) : Except CodedError Scan :=
  if s.inMachineClassRef = true then
    if key ≠ "name".toList then
      invalidYAML ("unsupported machineClassRef field: " ++ String.ofList key)
    else .ok (s.setWorker (fun w => { w with machineClassRef := String.ofList value }))
  else if key = "name".toList then
    .ok (s.setWorker (fun w => { w with name := String.ofList value }))
  else if key = "replicas".toList then
    match parseInt32 value with
    | none => invalidYAML "invalid replicas"
    | some n => .ok (s.setWorker (fun w => { w with replicas := n }))
  else invalidYAML ("unsupported worker field: " ++ String.ofList key)

/-- A key with its value. -/
def Scan.put (s : Scan) (key value : List Char) : Except CodedError Scan :=
  if s.inWorkers = true ∧ s.doc.workers ≠ [] then s.putWorker key value
  else if s.inLabels = true then
    .ok { s with doc := { s.doc with
      labels := setEntry (String.ofList key) (String.ofList value) s.doc.labels } }
  else match s.position with
    | .top =>
      if key = "apiVersion".toList then
        .ok { s with doc := { s.doc with apiVersion := String.ofList value } }
      else if key = "kind".toList then
        .ok { s with doc := { s.doc with kind := String.ofList value } }
      else invalidYAML ("unsupported top-level field: " ++ String.ofList key)
    | .metadata =>
      if key = "name".toList then
        .ok { s with doc := { s.doc with name := String.ofList value } }
      else if key = "namespace".toList then
        .ok { s with doc := { s.doc with namespaceName := String.ofList value } }
      else invalidYAML ("unsupported metadata field: " ++ String.ofList key)
    | .spec =>
      if key = "environment".toList then
        .ok { s with doc := { s.doc with environment := String.ofList value } }
      else invalidYAML ("unsupported spec field: " ++ String.ofList key)

def Scan.assign (s : Scan) (body : List Char) : Except CodedError Scan :=
  match splitYAMLKeyValue body with
  | none => invalidYAML ("expected key-value line: " ++ String.ofList body)
  | some (key, value) => s.put key value

/-- A list item begins a worker. -/
def Scan.addWorker (s : Scan) : Scan :=
  { s with
    doc := { s.doc with workers := s.doc.workers ++ [⟨"", zeroI32, ""⟩] }
    inMachineClassRef := false }

def Scan.step (s : Scan) (line : List Char) : Except CodedError Scan :=
  match readLine line with
  | .skip => .ok s
  | .header key => s.enter key
  | .item body =>
    if s.inWorkers = false then invalidYAML "list item outside workers"
    else if body = [] then .ok s.addWorker
    else s.addWorker.assign body
  | .entry body => s.assign body

def Scan.run (s : Scan) : List (List Char) → Except CodedError Scan
  | [] => .ok s
  | line :: rest =>
    match s.step line with
    | .error e => .error e
    | .ok s => s.run rest

def parseManagedClusterYAML (raw : String) : Except CodedError ManagedClusterYAML :=
  if '[' ∈ raw.toList ∨ ']' ∈ raw.toList then invalidYAML "unsupported YAML sequence syntax"
  else match Scan.start.run (raw.toList.splitOn '\n') with
    | .error e => .error e
    | .ok s => .ok s.doc

def pairLine (indent key value : String) : List Char :=
  indent.toList ++ (key.toList ++ ':' :: ' ' :: value.toList)

def headerLine (indent key : String) : List Char := indent.toList ++ (key.toList ++ [':'])

def workerLines (worker : WorkerGroupYAML) : List (List Char) :=
  [pairLine "    - " "name" worker.name,
    pairLine "      " "replicas" (toString worker.replicas.val),
    headerLine "      " "machineClassRef", pairLine "        " "name" worker.machineClassRef]

/-- The labels in the order of their keys. -/
def labelLines (labels : StringMap) : List (List Char) :=
  if labels = [] then []
  else headerLine "  " "labels" ::
    (labels.insertionSort (fun a b => a.1 ≤ b.1)).map (fun x => pairLine "    " x.1 x.2)

def formatLines (doc : ManagedClusterYAML) : List (List Char) :=
  [pairLine "" "apiVersion" doc.apiVersion, pairLine "" "kind" doc.kind,
    headerLine "" "metadata", pairLine "  " "name" doc.name,
    pairLine "  " "namespace" doc.namespaceName] ++
  labelLines doc.labels ++
  [headerLine "" "spec", pairLine "  " "environment" doc.environment, headerLine "  " "workers"] ++
  doc.workers.flatMap workerLines

def textOfLines (lines : List (List Char)) : String :=
  String.ofList (lines.flatMap (fun line => line ++ ['\n']))

def formatManagedClusterYAML (doc : ManagedClusterYAML) : String := textOfLines (formatLines doc)

def fromWorker (w : WorkerGroupYAML) : WorkerGroupSpec :=
  ⟨w.name, w.replicas, ⟨"", w.machineClassRef⟩, []⟩

def toWorker (w : WorkerGroupSpec) : WorkerGroupYAML :=
  ⟨w.name, w.replicas, w.machineClassRef.name⟩

/-- `NewManagedCluster` starts generation 1; all else that a manifest does not say is empty. -/
def fromManagedClusterYAML (doc : ManagedClusterYAML) : ManagedCluster where
  apiVersion := doc.apiVersion
  kind := doc.kind
  metadata := ⟨doc.name, doc.namespaceName, doc.labels, [], 1, [], []⟩
  spec := ⟨doc.environment, ⟨"", ""⟩, doc.workers.map fromWorker⟩
  status := ⟨0, "", zeroI32, []⟩

def toManagedClusterYAML (cluster : ManagedCluster) : ManagedClusterYAML where
  apiVersion := cluster.apiVersion
  kind := cluster.kind
  name := cluster.metadata.name
  namespaceName := cluster.metadata.namespaceName
  labels := cluster.metadata.labels
  environment := cluster.spec.environment
  workers := cluster.spec.workers.map toWorker

/-- `ValidationErrors.Error`. -/
def validationText (errors : List ValidationError) : String :=
  if errors = [] then ""
  else errors.foldl (fun text e => text ++ "; " ++ (e.field ++ ": " ++ e.message))
    "validation failed"

def readManagedCluster (data : String) : Except CodedError ManagedCluster :=
  if data = "" then .error ⟨"EmptyInput", "managed cluster YAML is empty"⟩
  else match parseManagedClusterYAML data with
    | .error e => .error e
    | .ok doc =>
      let cluster := fromManagedClusterYAML doc
      if cluster.Valid then .ok cluster
      else .error ⟨"InvalidManagedCluster", validationText (validateManagedCluster cluster)⟩

def writeManagedCluster (cluster : ManagedCluster) : Except CodedError String :=
  if cluster.Valid then .ok (formatManagedClusterYAML (toManagedClusterYAML cluster))
  else .error ⟨"InvalidManagedCluster", validationText (validateManagedCluster cluster)⟩

structure WriteResult where
  (sourcePath outputPath summary : String)
  updated : ManagedCluster
  (changes rollback : List FieldChange)

structure ManifestBytesResult where
  writeResult : WriteResult
  manifest : String

/-- `render` is `fmt`'s `%v` of a value. -/
def summarizeChanges (render : AnyValue → String) (plan : ManifestPatchPlan) : String :=
  if plan.changes = [] then "no manifest changes"
  else "; ".intercalate (plan.changes.map (fun change =>
    change.field ++ ": " ++ render change.from_ ++ " -> " ++ render change.to_))

/-- The dry-run writer. -/
def writeDryRun (render : AnyValue → String) (plan : ManifestPatchPlan) (cluster : ManagedCluster) :
    Except PatchError WriteResult :=
  match applyManagedClusterPatch plan cluster with
  | .error e => .error e
  | .ok updated =>
    .ok ⟨plan.sourcePath, plan.outputPath, summarizeChanges render plan, updated, plan.changes,
      plan.rollback⟩

def writeManagedClusterBytes (render : AnyValue → String) (plan : ManifestPatchPlan)
    (input : String) : Except PatchError ManifestBytesResult :=
  match readManagedCluster input with
  | .error e => patchError "ReadManagedClusterManifestFailed" (e.code ++ ": " ++ e.message)
  | .ok cluster =>
    match writeDryRun render plan cluster with
    | .error e => .error e
    | .ok writeResult =>
      match writeManagedCluster writeResult.updated with
      | .error e => patchError "RenderManagedClusterManifestFailed" (e.code ++ ": " ++ e.message)
      | .ok manifest => .ok ⟨writeResult, manifest⟩

/-- A character inside a line of a manifest that is read. -/
def LineChar (c : Char) : Prop := c ≠ '\n' ∧ c ≠ '[' ∧ c ≠ ']'

structure ReadValue (v : String) : Prop where
  chars : ∀ c ∈ v.toList, LineChar c
  unquoted : strip isQuote v.toList = v.toList

/-- A key that its own line gives back. -/
structure PlainKey (key : List Char) : Prop where
  ne_nil : key ≠ []
  chars : ∀ c ∈ key, LineChar c
  tight : strip isSpace key = key
  no_colon : ':' ∉ key
  no_comment : key.head? ≠ some '#'
  no_item : ¬ ['-', ' '] <+: key

structure ManagedClusterYAML.WasRead (doc : ManagedClusterYAML) : Prop where
  apiVersion : ReadValue doc.apiVersion
  kind : ReadValue doc.kind
  name : ReadValue doc.name
  namespaceName : ReadValue doc.namespaceName
  environment : ReadValue doc.environment
  labels : ∀ x ∈ doc.labels, PlainKey x.1.toList ∧ ReadValue x.2
  sorted : doc.labels.Pairwise (fun a b => a.1 < b.1)
  workers : ∀ w ∈ doc.workers, ReadValue w.name ∧ ReadValue w.machineClassRef

variable {labels : StringMap}

theorem mem_setEntry {key value : String} {x : String × String}
    (h : x ∈ setEntry key value labels) : x = (key, value) ∨ x ∈ labels := by
  induction labels with
  | nil => simpa [setEntry] using h
  | cons y rest ih =>
    unfold setEntry at h
    split at h
    · exact (List.mem_cons.mp h).imp_right (List.mem_cons_of_mem y)
    split at h
    · exact List.mem_cons.mp h
    · rcases List.mem_cons.mp h with rfl | hin
      · exact Or.inr List.mem_cons_self
      · exact (ih hin).imp_right (List.mem_cons_of_mem y)

theorem setEntry_sorted {key value : String} (h : labels.Pairwise (fun a b => a.1 < b.1)) :
    (setEntry key value labels).Pairwise (fun a b => a.1 < b.1) := by
  induction labels with
  | nil => exact List.pairwise_singleton _ _
  | cons y rest ih =>
    obtain ⟨hy, hrest⟩ := List.pairwise_cons.mp h
    unfold setEntry
    split
    · rename_i heq
      exact List.pairwise_cons.mpr ⟨fun x hx => heq ▸ hy x hx, hrest⟩
    · rename_i hne
      split
      · rename_i hlt
        refine List.pairwise_cons.mpr ⟨fun x hx => ?_, h⟩
        rcases List.mem_cons.mp hx with rfl | hin
        · exact hlt
        · exact hlt.trans (hy x hin)
      · rename_i hge
        refine List.pairwise_cons.mpr ⟨fun x hx => ?_, ih hrest⟩
        rcases mem_setEntry hx with rfl | hin
        · exact lt_of_le_of_ne (not_lt.mp hge) (Ne.symm hne)
        · exact hy x hin

theorem setEntry_last {key value : String}
    (h : ∀ x ∈ labels, x.1 < key) : setEntry key value labels = labels ++ [(key, value)] := by
  induction labels with
  | nil => rfl
  | cons y rest ih =>
    have hy : y.1 < key := h y List.mem_cons_self
    unfold setEntry
    rw [if_neg hy.ne', if_neg hy.not_gt, ih (fun x hx => h x (List.mem_cons_of_mem y hx)),
      List.cons_append]

theorem splitYAMLKeyValue_some {body key value : List Char}
    (h : splitYAMLKeyValue body = some (key, value)) :
    ∃ before after, body = before ++ ':' :: after ∧ ':' ∉ before ∧ key = strip isSpace before ∧
      key ≠ [] ∧ value = strip isQuote (strip isSpace after) := by
  have hbody := List.takeWhile_append_dropWhile (p := fun c => !isColon c) (l := body)
  unfold splitYAMLKeyValue at h
  split at h
  · cases h
  rename_i c rest hdrop
  have hc : c = ':' := by
    have hhead := List.head?_dropWhile_not (fun c => !isColon c) body
    rw [hdrop] at hhead
    simpa [isColon] using hhead
  dsimp only at h
  split at h
  · cases h
  rename_i hkey
  obtain ⟨rfl, rfl⟩ := Prod.mk.inj (Option.some.inj h)
  refine ⟨body.takeWhile (fun c => !isColon c), rest, ?_, ?_, rfl, hkey, rfl⟩
  · rw [← hc, ← hdrop, hbody]
  · intro hin
    have hnot := List.mem_takeWhile_imp hin
    simp [isColon] at hnot

theorem splitYAMLKeyValue_of_key {before : List Char} (hcolon : ':' ∉ before)
    (hkey : strip isSpace before ≠ []) (after : List Char) :
    splitYAMLKeyValue (before ++ ':' :: after) =
      some (strip isSpace before, strip isQuote (strip isSpace after)) := by
  have hall : ∀ c ∈ before, (!isColon c) = true := by
    intro c hc
    have hne : c ≠ ':' := fun heq => hcolon (heq ▸ hc)
    simp [isColon, hne]
  unfold splitYAMLKeyValue
  rw [List.dropWhile_append_of_pos hall, List.takeWhile_append_of_pos hall,
    List.dropWhile_cons_of_neg (by simp [isColon]), List.takeWhile_cons_of_neg (by simp [isColon]),
    List.append_nil]
  exact if_neg hkey

/-- The key of an entry is the beginning of its line. -/
theorem plainKey_of_split {body key value : List Char} (htight : strip isSpace body = body)
    (hchars : ∀ c ∈ body, LineChar c) (hcomment : body.head? ≠ some '#')
    (hitem : ¬ ['-', ' '] <+: body) (h : splitYAMLKeyValue body = some (key, value)) :
    PlainKey key := by
  obtain ⟨before, after, rfl, hcolon, rfl, hne, -⟩ := splitYAMLKeyValue_some h
  have hfirst : ∀ d, before.head? = some d → isSpace d = false := by
    intro d hd
    apply head_strip (p := isSpace) (s := before ++ ':' :: after)
    rw [htight, List.head?_append, hd, Option.some_or]
  have hbegin : strip isSpace before <+: before ++ ':' :: after :=
    (strip_prefix_of_head hfirst).trans (List.prefix_append before _)
  refine ⟨hne, fun c hc => hchars c (hbegin.mem hc), ?_, fun hin => hcolon (mem_of_mem_strip hin),
    fun hhead => hcomment ?_, fun hdash => hitem (hdash.trans hbegin)⟩
  · exact strip_eq_self (fun d hd => head_strip hd) (fun d hd => last_strip hd)
  · obtain ⟨tail, htail⟩ := hbegin
    rw [← htail, List.head?_append, hhead, Option.some_or]

theorem readValue_of_split {body key value : List Char} (hchars : ∀ c ∈ body, LineChar c)
    (h : splitYAMLKeyValue body = some (key, value)) : ReadValue (String.ofList value) := by
  obtain ⟨before, after, rfl, -, -, -, rfl⟩ := splitYAMLKeyValue_some h
  refine ⟨fun c hc => ?_, ?_⟩
  · rw [String.toList_ofList] at hc
    exact hchars c (List.mem_append_right before
      (List.mem_cons_of_mem ':' (mem_of_mem_strip (mem_of_mem_strip hc))))
  · rw [String.toList_ofList]
    exact strip_eq_self (fun d hd => head_strip hd) (fun d hd => last_strip hd)

theorem readLine_item {line body : List Char} (h : readLine line = .item body) :
    body = (strip isSpace line).drop 2 := by
  unfold readLine at h
  dsimp only at h
  split at h
  · cases h
  split at h
  · cases h
  split at h
  · exact (Line.item.inj h).symm
  · cases h

theorem readLine_entry {line body : List Char} (h : readLine line = .entry body) :
    body = strip isSpace line ∧ body.head? ≠ some '#' ∧ ¬ ['-', ' '] <+: body := by
  unfold readLine at h
  dsimp only at h
  split at h
  · cases h
  rename_i hskip
  split at h
  · cases h
  split at h
  · cases h
  rename_i hitem
  obtain rfl := Line.entry.inj h
  exact ⟨rfl, fun hhead => hskip (Or.inr hhead), by simpa using hitem⟩

theorem Scan.enter_doc {s s' : Scan} {key : List Char} (h : s.enter key = .ok s') :
    s'.doc = s.doc := by
  unfold Scan.enter invalidYAML at h
  split_ifs at h <;> rw [← Except.ok.inj h]

theorem mem_modifyLast {α : Type} {f : α → α} {l : List α} {x : α} (h : x ∈ l.modifyLast f) :
    x ∈ l ∨ ∃ y ∈ l, x = f y := by
  induction l using List.reverseRecOn with
  | nil => cases h
  | append_singleton l a =>
    rw [List.modifyLast_concat] at h
    rcases List.mem_append.mp h with hin | hlast
    · exact Or.inl (List.mem_append_left _ hin)
    · exact Or.inr ⟨a, by simp, List.mem_singleton.mp hlast⟩

theorem readValue_empty : ReadValue "" := ⟨forall_mem_nil _, rfl⟩

namespace Scan

variable {s s' : Scan}

section

variable (hs : s.doc.WasRead)

include hs

theorem setWorker_wasRead {f : WorkerGroupYAML → WorkerGroupYAML}
    (hf : ∀ w, ReadValue w.name ∧ ReadValue w.machineClassRef →
      ReadValue (f w).name ∧ ReadValue (f w).machineClassRef) : (s.setWorker f).doc.WasRead := by
  refine { hs with workers := fun w hw => ?_ }
  rcases mem_modifyLast hw with hin | ⟨y, hy, rfl⟩
  · exact hs.workers w hin
  · exact hf y (hs.workers y hy)

theorem addWorker_wasRead : s.addWorker.doc.WasRead := by
  refine { hs with workers := fun w hw => ?_ }
  rcases mem_append.mp hw with hin | hnew
  · exact hs.workers w hin
  · rw [mem_singleton.mp hnew]
    exact ⟨readValue_empty, readValue_empty⟩

theorem putWorker_wasRead {key value : List Char}
    (hv : ReadValue (String.ofList value)) (h : s.putWorker key value = .ok s') :
    s'.doc.WasRead := by
  unfold putWorker invalidYAML at h
  split_ifs at h
  · rw [← ok.inj h]
    exact setWorker_wasRead hs (fun w hw => ⟨hw.1, hv⟩)
  · rw [← ok.inj h]
    exact setWorker_wasRead hs (fun w hw => ⟨hv, hw.2⟩)
  · split at h
    · cases h
    rw [← ok.inj h]
    exact setWorker_wasRead hs (fun w hw => hw)

/-- A key becomes a label only where no worker is current. -/
theorem put_wasRead {key value : List Char} (hv : ReadValue (String.ofList value))
    (hk : (s.inWorkers = true ∧ s.doc.workers ≠ []) ∨ PlainKey key)
    (h : s.put key value = .ok s') : s'.doc.WasRead := by
  unfold put at h
  split at h
  · exact putWorker_wasRead hs hv h
  rename_i hworker
  have hkey : PlainKey key := hk.resolve_left hworker
  split at h
  · rw [← ok.inj h]
    refine { hs with labels := fun x hx => ?_, sorted := setEntry_sorted hs.sorted }
    rcases mem_setEntry hx with rfl | hin
    · exact ⟨by rwa [String.toList_ofList], hv⟩
    · exact hs.labels x hin
  · unfold invalidYAML at h
    cases hposition : s.position with
    | top =>
      simp only [hposition] at h
      split_ifs at h
      · exact ok.inj h ▸ { hs with apiVersion := hv }
      · exact ok.inj h ▸ { hs with kind := hv }
    | metadata =>
      simp only [hposition] at h
      split_ifs at h
      · exact ok.inj h ▸ { hs with name := hv }
      · exact ok.inj h ▸ { hs with namespaceName := hv }
    | spec =>
      simp only [hposition] at h
      split_ifs at h
      exact ok.inj h ▸ { hs with environment := hv }

theorem step_wasRead {line : List Char} (hline : ∀ c ∈ line, LineChar c)
    (h : s.step line = .ok s') : s'.doc.WasRead := by
  have htrimmed : ∀ c ∈ strip isSpace line, LineChar c := fun c hc => hline c (mem_of_mem_strip hc)
  unfold step at h
  cases hread : readLine line with
  | skip =>
    rw [hread] at h
    exact ok.inj h ▸ hs
  | header key =>
    rw [hread] at h
    exact enter_doc h ▸ hs
  | item body =>
    simp only [hread] at h
    have hbody : ∀ c ∈ body, LineChar c := fun c hc =>
      htrimmed c (mem_of_mem_drop (readLine_item hread ▸ hc))
    split at h
    · cases h
    rename_i hin
    split at h
    · exact ok.inj h ▸ addWorker_wasRead hs
    unfold assign at h
    split at h
    · cases h
    rename_i key value hsplit
    refine put_wasRead (addWorker_wasRead hs) (readValue_of_split hbody hsplit)
      (.inl ⟨Bool.eq_true_of_not_eq_false hin, ?_⟩) h
    exact append_ne_nil_of_right_ne_nil _ (cons_ne_nil _ _)
  | entry body =>
    simp only [hread] at h
    obtain ⟨rfl, hcomment, hitem⟩ := readLine_entry hread
    unfold assign at h
    split at h
    · cases h
    rename_i key value hsplit
    have htight : strip isSpace (strip isSpace line) = strip isSpace line :=
      strip_eq_self (fun d => head_strip) (fun d => last_strip)
    exact put_wasRead hs (readValue_of_split htrimmed hsplit)
      (.inr (plainKey_of_split htight htrimmed hcomment hitem hsplit)) h

theorem run_wasRead {lines : List (List Char)}
    (hlines : ∀ line ∈ lines, ∀ c ∈ line, LineChar c) (h : s.run lines = .ok s') :
    s'.doc.WasRead := by
  induction lines generalizing s with
  | nil => exact ok.inj h ▸ hs
  | cons line rest ih =>
    unfold run at h
    split at h
    · cases h
    rename_i next hstep
    exact ih (step_wasRead hs (hlines line mem_cons_self) hstep)
      (fun l hl => hlines l (mem_cons_of_mem line hl)) h

end

theorem start_wasRead : start.doc.WasRead :=
  ⟨readValue_empty, readValue_empty, readValue_empty, readValue_empty, readValue_empty,
    forall_mem_nil _, Pairwise.nil, forall_mem_nil _⟩

end Scan

theorem parse_wasRead {raw : String} {doc : ManagedClusterYAML}
    (h : parseManagedClusterYAML raw = .ok doc) : doc.WasRead := by
  unfold parseManagedClusterYAML invalidYAML at h
  split at h
  · cases h
  rename_i hbrackets
  split at h
  · cases h
  rename_i s hrun
  rw [← ok.inj h]
  refine Scan.run_wasRead Scan.start_wasRead (fun line hline c hc => ?_) hrun
  obtain ⟨hin, hnewline⟩ := mem_splitOn hline c hc
  exact ⟨hnewline, fun heq => hbrackets (.inl (heq ▸ hin)), fun heq => hbrackets (.inr (heq ▸ hin))⟩

end AiCloud.GitOps
