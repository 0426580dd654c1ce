import Mathlib.Data.List.Basic

/-!
# Slash-separated paths

Go's `strings.Split`, `strings.Trim`, `path.Clean` and `url.PathUnescape` on the
characters of a text; where percent-encoding matters a character stands for a byte.
-/
namespace AiCloud.Lib.Path
open List

/-- `strings.Split(s, sep)` for a separator of one character. -/
def split (sep : Char) : List Char → List (List Char)
  | [] => [[]]
  | c :: cs =>
    if c = sep then [] :: split sep cs
    else match split sep cs with
      | [] => [[c]]
      | part :: parts => (c :: part) :: parts

/-- `strings.Trim(s, cut)` for a cutset of one character. -/
def trim (cut : Char) (s : List Char) : List Char :=
  ((s.dropWhile (· = cut)).reverse.dropWhile (· = cut)).reverse

/-- One element of a path on the stack of those before it, the last on top. -/
def cleanStep (rooted : Bool) (stack : List (List Char)) (part : List Char) : List (List Char) :=
  if part = [] ∨ part = ['.'] then stack
  else if part = ['.', '.'] then
    match stack with
    | [] => if rooted then [] else [part]
    | top :: rest => if top = ['.', '.'] then part :: stack else rest
  else part :: stack

variable (p : List Char)

/-- `path.Clean`, which on Unix is also `filepath.Clean`. -/
def clean : List Char :=
  let rooted : Bool := p.head? = some '/'
  let parts := ((split '/' p).foldl (cleanStep rooted) []).reverse
  if rooted then '/' :: intercalate ['/'] parts
  else if parts = [] then ['.']
  else intercalate ['/'] parts

variable {part : List Char}

section Split

variable {sep : Char} {s : List Char}

theorem split_ne_nil (sep : Char) (s : List Char) : split sep s ≠ [] := by
  cases s with
  | nil => simp [split]
  | cons c cs =>
    unfold split
    split
    · simp
    · split <;> simp

theorem intercalate_split (sep : Char) (s : List Char) : intercalate [sep] (split sep s) = s := by
  induction s with
  | nil => simp [split]
  | cons c cs ih =>
    cases hparts : split sep cs with
    | nil => exact absurd hparts (split_ne_nil sep cs)
    | cons part parts =>
      rw [hparts] at ih
      by_cases hc : c = sep
      · simp [split, hc, hparts, intercalate_cons_cons, ih]
      · cases parts <;> simp_all [split, intercalate_cons_cons]

theorem not_mem_of_mem_split (h : part ∈ split sep s) : sep ∉ part := by
  induction s generalizing part with
  | nil =>
    simp only [split, mem_singleton] at h
    simp [h]
  | cons c cs ih =>
    cases hparts : split sep cs with
    | nil => exact absurd hparts (split_ne_nil sep cs)
    | cons first parts =>
      rw [hparts] at ih
      by_cases hc : c = sep
      · simp only [split, hc, hparts, if_true, mem_cons] at h
        rcases h with rfl | h
        · simp
        · exact ih (mem_cons.mpr h)
      · simp only [split, hc, hparts, if_false, mem_cons] at h
        rcases h with rfl | h
        · have := ih mem_cons_self
          simp [this, Ne.symm hc]
        · exact ih (mem_cons_of_mem _ h)

theorem split_append {a : List Char} (ha : sep ∉ a) (b : List Char) :
    split sep (a ++ sep :: b) = a :: split sep b := by
  induction a with
  | nil => simp [split]
  | cons c cs ih =>
    have hc : c ≠ sep := fun h => ha (h ▸ mem_cons_self)
    simp [split, hc, ih (fun h => ha (mem_cons_of_mem _ h))]

theorem headD_split_mem (sep : Char) (s : List Char) : (split sep s).headD [] ∈ split sep s := by
  cases hparts : split sep s with
  | nil => exact absurd hparts (split_ne_nil sep s)
  | cons part parts => exact mem_cons_self

theorem headD_split_initial (sep : Char) (s : List Char) : (split sep s).headD [] <+: s := by
  have hjoin := intercalate_split sep s
  match hparts : split sep s with
  | [] => exact absurd hparts (split_ne_nil sep s)
  | [part] =>
    rw [hparts, intercalate_singleton] at hjoin
    exact ⟨[], by simpa using hjoin⟩
  | part :: next :: parts =>
    rw [hparts, intercalate_cons_cons] at hjoin
    exact ⟨_, by simpa using hjoin⟩

theorem split_eq_singleton (h : sep ∉ s) : split sep s = [s] := by
  induction s with
  | nil => rfl
  | cons c cs ih =>
    have hc : c ≠ sep := fun hc => h (hc ▸ mem_cons_self)
    simp [split, hc, ih (fun hmem => h (mem_cons_of_mem _ hmem))]

theorem split_intercalate {parts : List (List Char)} (hne : parts ≠ [])
    (hparts : ∀ part ∈ parts, sep ∉ part) : split sep (intercalate [sep] parts) = parts := by
  induction parts with
  | nil => exact absurd rfl hne
  | cons part rest ih =>
    obtain ⟨hpart, hrest⟩ := forall_mem_cons.mp hparts
    cases rest with
    | nil => rw [intercalate_singleton, split_eq_singleton hpart]
    | cons next more =>
      rw [intercalate_cons_cons, append_assoc, singleton_append,
        split_append hpart, ih (cons_ne_nil _ _) hrest]

/-- The first part of a text is all of it or ends at a separator. -/
theorem head?_split_eq_some (h : sep ∉ part) :
    (split sep s).head? = some part ↔ s = part ∨ part ++ [sep] <+: s := by
  constructor
  · intro hhead
    have hjoin := intercalate_split sep s
    match hparts : split sep s with
    | [] => rw [hparts] at hhead; cases hhead
    | [only] =>
      rw [hparts] at hhead hjoin
      cases hhead
      exact .inl (by simpa using hjoin.symm)
    | first :: next :: parts =>
      rw [hparts] at hhead hjoin
      cases hhead
      rw [intercalate_cons_cons] at hjoin
      exact .inr ⟨_, hjoin⟩
  · rintro (rfl | ⟨rest, rfl⟩)
    · rw [split_eq_singleton h]
      rfl
    · rw [append_assoc, singleton_append, split_append h]
      rfl

end Split

/-- The elements that are left of a path once `.` and `..` are resolved. -/
def resolved : List (List Char) :=
  ((split '/' p).foldl (cleanStep (p.head? = some '/')) []).reverse

theorem cleanStep_elements {rooted : Bool} {stack : List (List Char)}
    (hstack : ∀ e ∈ stack, e ≠ [] ∧ '/' ∉ e) (hpart : '/' ∉ part) :
    ∀ e ∈ cleanStep rooted stack part, e ≠ [] ∧ '/' ∉ e := by
  unfold cleanStep
  split
  · exact hstack
  · rename_i hkept
    have hnew : part ≠ [] ∧ '/' ∉ part := ⟨fun h => hkept (.inl h), hpart⟩
    grind

theorem resolved_elements : ∀ e ∈ resolved p, e ≠ [] ∧ '/' ∉ e := by
  have hfold : ∀ (parts stack : List (List Char)), (∀ part ∈ parts, '/' ∉ part) →
      (∀ e ∈ stack, e ≠ [] ∧ '/' ∉ e) →
      ∀ e ∈ parts.foldl (cleanStep (p.head? = some '/')) stack, e ≠ [] ∧ '/' ∉ e := by
    intro parts
    induction parts with
    | nil => exact fun stack _ hstack => hstack
    | cons part parts ih =>
      intro stack hparts hstack
      obtain ⟨hpart, hrest⟩ := forall_mem_cons.mp hparts
      exact ih _ hrest (cleanStep_elements hstack hpart)
  intro e he
  exact hfold _ [] (fun part => not_mem_of_mem_split) (fun e he => by cases he) e
    (mem_reverse.mp he)

theorem clean_eq :
    clean p = if decide (p.head? = some '/') = true then '/' :: intercalate ['/'] (resolved p)
      else if resolved p = [] then ['.'] else intercalate ['/'] (resolved p) := rfl

/-- A path that is rooted once it is clean was rooted before. -/
theorem clean_of_rooted {p rest : List Char} (h : clean p = '/' :: rest) :
    rest = intercalate ['/'] (resolved p) := by
  rw [clean_eq] at h
  split at h
  · exact (cons.inj h).2.symm
  split at h
  · cases h
  have helements := resolved_elements p
  match hparts : resolved p with
  | [] => contradiction
  | first :: more =>
    rw [hparts] at h helements
    obtain ⟨hne, hslash⟩ := helements first mem_cons_self
    cases first with
    | nil => exact absurd rfl hne
    | cons c cs =>
      have hc : c = '/' := by cases more <;> simp_all [intercalate_cons_cons]
      exact absurd (hc ▸ mem_cons_self) hslash

/-- A rooted path lies in a directory iff that is the first of its elements. -/
theorem clean_inside_iff {p rest dir : List Char} (hroot : clean p = '/' :: rest)
    (hdir : '/' ∉ dir) (hne : dir ≠ []) :
    clean p = '/' :: dir ∨ '/' :: dir ++ ['/'] <+: clean p ↔ (resolved p).head? = some dir := by
  have hrest := clean_of_rooted hroot
  rw [hroot, cons_inj_right, cons_append, prefix_cons_inj, ← head?_split_eq_some hdir, hrest]
  by_cases hnone : resolved p = []
  · rw [hnone]
    simp [split, hne.symm]
  · rw [split_intercalate hnone (fun part hpart => (resolved_elements p part hpart).2)]

/-- The first element of a path that starts like a directory starts like its name. -/
theorem head?_of_clean {p dir : List Char} (h : '/' :: dir <+: clean p) (hdir : '/' ∉ dir)
    (hne : dir ≠ []) : ∃ first, (resolved p).head? = some first ∧ dir <+: first := by
  obtain ⟨rest, hrest⟩ := h
  have hjoin : dir ++ rest = intercalate ['/'] (resolved p) := clean_of_rooted hrest.symm
  match hparts : resolved p with
  | [] =>
    rw [hparts] at hjoin
    exact absurd (append_eq_nil_iff.mp hjoin).1 hne
  | [first] =>
    rw [hparts, intercalate_singleton] at hjoin
    exact ⟨first, rfl, rest, hjoin⟩
  | first :: next :: more =>
    rw [hparts, intercalate_cons_cons, append_assoc] at hjoin
    refine ⟨first, rfl, ?_⟩
    -- A directory that is longer than the element would reach over the slash behind it.
    rcases append_eq_append_iff.mp hjoin with ⟨tail, hfirst, -⟩ | ⟨tail, rfl, htail⟩
    · exact ⟨tail, hfirst.symm⟩
    · cases tail with
      | nil => simp
      | cons c tail =>
        obtain rfl : '/' = c := (cons.inj htail).1
        simp at hdir

theorem trim_getLast? (cut : Char) (s : List Char) : (trim cut s).getLast? ≠ some cut := by
  intro h
  rw [trim, getLast?_reverse] at h
  have hnot := head?_dropWhile_not (· = cut) (s.dropWhile (· = cut)).reverse
  rw [h] at hnot
  simp at hnot

theorem trim_eq_self {cut : Char} {s : List Char} (hhead : s.head? ≠ some cut)
    (hlast : s.getLast? ≠ some cut) : trim cut s = s := by
  have hdrop : ∀ {l : List Char}, l.head? ≠ some cut → l.dropWhile (· = cut) = l := by
    intro l hl
    cases l with
    | nil => rfl
    | cons c cs =>
      have hc : c ≠ cut := fun h => hl (congrArg some h)
      simp [hc]
  unfold trim
  rw [hdrop hhead, hdrop (by rwa [head?_reverse]), reverse_reverse]

theorem trim_cons_cut (cut : Char) (s : List Char) : trim cut (cut :: s) = trim cut s := by
  simp [trim]

theorem trim_append_cut (cut : Char) (s : List Char) : trim cut (s ++ [cut]) = trim cut s := by
  unfold trim
  rw [dropWhile_append]
  split
  · rename_i hempty
    rw [isEmpty_iff.mp hempty]
    simp
  · rw [reverse_append]
    simp

def unhex (c : Char) : Option Nat :=
  if '0' ≤ c ∧ c ≤ '9' then some (c.toNat - '0'.toNat)
  else if 'a' ≤ c ∧ c ≤ 'f' then some (c.toNat - 'a'.toNat + 10)
  else if 'A' ≤ c ∧ c ≤ 'F' then some (c.toNat - 'A'.toNat + 10)
  else none

/-- `url.PathUnescape`. -/
def unescape : List Char → Option (List Char)
  | [] => some []
  | '%' :: h :: l :: rest =>
    match unhex h, unhex l with
    | some hi, some lo => (unescape rest).map (Char.ofNat (16 * hi + lo) :: ·)
    | _, _ => none
  | '%' :: _ => none
  | c :: rest => (unescape rest).map (c :: ·)

theorem unescape_cons {c : Char} (hc : c ≠ '%') (rest : List Char) :
    unescape (c :: rest) = (unescape rest).map (c :: ·) := by
  rw [unescape]
  · exact fun _ _ _ h => absurd h hc
  · exact hc

theorem unescape_eq_nil {s : List Char} (h : unescape s = some []) : s = [] := by
  revert h
  fun_cases unescape s <;> simp

theorem unhex_slash : unhex '/' = none := by decide

/-- A slash is never part of an escape, so the parts of a path are decoded one by one. -/
theorem unescape_slash (a b : List Char) :
    unescape (a ++ '/' :: b) =
      (unescape a).bind (fun x => (unescape b).map (fun y => x ++ '/' :: y)) := by
  fun_induction unescape a with
  | case1 => simp [unescape_cons]
  | case2 h l rest hi lo hhi hlo ih =>
    simp only [cons_append, unescape, hhi, hlo, ih]
    cases unescape rest <;> cases unescape b <;> simp
  | case3 h l rest hno =>
    simp only [cons_append, unescape]
    rfl
  | case4 rest hshort =>
    -- The escape is cut off by the slash.
    match rest, hshort with
    | [], _ =>
      cases b <;> simp [unescape, unhex_slash]
    | [h], _ => simp [unescape, unhex_slash]
    | h :: l :: rest, hshort => exact absurd rfl (hshort h l rest)
  | case5 c rest hlong hc ih =>
    rw [cons_append, unescape_cons hc, ih]
    cases unescape rest <;> cases unescape b <;> simp

end AiCloud.Lib.Path
