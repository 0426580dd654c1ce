import Mathlib.Data.List.DropRight

/-!
# White space as Go's `strings` package sees it

`TrimSpace` removes leading and trailing characters with the Unicode White_Space
property. A text is blank when nothing is left of it. A text is stripped at both ends,
and split at a separator into pieces without it.
-/
namespace AiCloud.Lib.Text
open List

/-- Go's `unicode.IsSpace`: the ASCII controls, NEL, NBSP and the category Z spaces. -/
def isSpace (c : Char) : Bool :=
  c == '\t' || c == '\n' || c.toNat == 0x0B || c.toNat == 0x0C || c == '\r' || c == ' ' ||
    c.toNat == 0x85 || c.toNat == 0xA0 || c.toNat == 0x1680 ||
    (0x2000 ≤ c.toNat && c.toNat ≤ 0x200A) || c.toNat == 0x2028 || c.toNat == 0x2029 ||
    c.toNat == 0x202F || c.toNat == 0x205F || c.toNat == 0x3000

variable (s : String)

def trimSpace : String :=
  String.ofList ((s.toList.dropWhile isSpace).reverse.dropWhile isSpace).reverse

/-- The test `strings.TrimSpace(s) == ""`. -/
def Blank : Prop := trimSpace s = ""

instance : Decidable (Blank s) := inferInstanceAs (Decidable (trimSpace s = ""))

/-- A test of every character of a text runs along the text, not over all characters. -/
instance (priority := high) decidableAllChars {P : Char → Prop} [DecidablePred P]
    (cs : List Char) : Decidable (∀ c ∈ cs, P c) :=
  decidableBAll P cs

/-- `strings.FieldsFunc`: the nonempty pieces between characters that separate. -/
def fieldsFunc (separates : Char → Bool) (s : String) : List String :=
  ((s.toList.splitOnP separates).filter (· ≠ [])).map String.ofList

/-- `strings.Fields`. -/
def fields : List String := fieldsFunc isSpace s

theorem blank_empty : Blank "" := by decide

variable {s : String}

theorem ne_empty (h : ¬ Blank s) : s ≠ "" := by
  rintro rfl
  exact h blank_empty

theorem trimSpace_trimSpace (s : String) : trimSpace (trimSpace s) = trimSpace s := by
  have htrim : ∀ s, trimSpace s = String.ofList ((s.toList.dropWhile isSpace).rdropWhile isSpace) :=
    fun _ => rfl
  rw [htrim (trimSpace s), htrim s, String.toList_ofList]
  congr 1
  have hfirst : ((s.toList.dropWhile isSpace).rdropWhile isSpace).dropWhile isSpace =
      (s.toList.dropWhile isSpace).rdropWhile isSpace := by
    rw [dropWhile_eq_self_iff]
    intro hpos
    have hpre := rdropWhile_prefix isSpace (s.toList.dropWhile isSpace)
    have hlong : 0 < (s.toList.dropWhile isSpace).length := Nat.lt_of_lt_of_le hpos hpre.length_le
    rw [hpre.getElem hpos]
    exact dropWhile_get_zero_not _ _ hlong
  rw [hfirst, rdropWhile_idempotent]

theorem blank_iff : Blank s ↔ ∀ c ∈ s.toList, isSpace c = true := by
  have hblank : Blank s ↔ ∀ c ∈ s.toList.dropWhile isSpace, isSpace c = true := by
    unfold Blank trimSpace
    rw [← String.toList_inj, String.toList_ofList, String.toList_empty, reverse_eq_nil_iff,
      dropWhile_eq_nil_iff]
    simp only [mem_reverse]
  rw [hblank]
  constructor
  · intro h c hc
    -- what was dropped is space, and so is the rest
    rw [← takeWhile_append_dropWhile (p := isSpace) (l := s.toList)] at hc
    rcases mem_append.mp hc with hc | hc
    · exact mem_takeWhile_imp hc
    · exact h c hc
  · intro h c hc
    exact h c ((dropWhile_suffix isSpace).subset hc)

theorem trimSpace_of_solid (h : ∀ c ∈ s.toList, isSpace c = false) :
    trimSpace s = s := by
  have hsolid : ∀ cs : List Char, (∀ c ∈ cs, isSpace c = false) → cs.dropWhile isSpace = cs := by
    rintro (_ | ⟨c, cs⟩) hcs
    · rfl
    · exact dropWhile_cons_of_neg (by simp [hcs c mem_cons_self])
  unfold trimSpace
  rw [hsolid _ h, hsolid _ (fun c hc => h c (mem_reverse.mp hc)), reverse_reverse,
    String.ofList_toList]

theorem blank_append {a b : String} : Blank (a ++ b) ↔ Blank a ∧ Blank b := by
  simp only [blank_iff, String.toList_append, mem_append, or_imp, forall_and]

theorem blank_trimSpace : Blank (trimSpace s) ↔ Blank s := by
  unfold Blank
  rw [trimSpace_trimSpace]

theorem not_blank_of_trimmed (ht : trimSpace s = s) (hs : s ≠ "") : ¬ Blank s := by
  unfold Blank
  rw [ht]
  exact hs

theorem head_append {t : String} {c : Char} (h : s.toList.head? = some c) :
    (s ++ t).toList.head? = some c := by
  rw [String.toList_append, head?_append, h]
  rfl

end AiCloud.Lib.Text

namespace AiCloud.Lib
open List

variable {α : Type} {p q : α → Bool} {s t : List α} {c : α}

def strip (p : α → Bool) (s : List α) : List α := (s.dropWhile p).rdropWhile p

theorem strip_within (p : α → Bool) (s : List α) : strip p s <:+: s := by
  have hright : strip p s <+: s.dropWhile p := rdropWhile_prefix p _
  exact hright.isInfix.trans (dropWhile_suffix p).isInfix

theorem mem_of_mem_strip (h : c ∈ strip p s) : c ∈ s := (strip_within p s).mem h

theorem strip_prefix_of_head (hfirst : ∀ d, s.head? = some d → p d = false) : strip p s <+: s := by
  unfold strip
  cases s with
  | nil => exact prefix_rfl
  | cons d rest =>
    rw [dropWhile_cons_of_neg (by simp [hfirst d rfl])]
    exact rdropWhile_prefix p _

theorem head_dropWhile (h : (s.dropWhile p).head? = some c) : p c = false := by
  have hmatch := head?_dropWhile_not p s
  rw [h] at hmatch
  exact hmatch

theorem last_rdropWhile (h : (s.rdropWhile p).getLast? = some c) : p c = false := by
  unfold rdropWhile at h
  rw [getLast?_reverse] at h
  exact head_dropWhile h

theorem rdropWhile_append_not (h : p c = false) (s t : List α) :
    (s ++ c :: t).rdropWhile p = s ++ c :: t.rdropWhile p := by
  induction t using reverseRecOn with
  | nil => simpa using rdropWhile_concat_neg p s c (by simp [h])
  | append_singleton t d ih =>
    have hassoc : s ++ c :: (t ++ [d]) = (s ++ c :: t) ++ [d] := by simp
    by_cases hd : p d
    · rw [hassoc, rdropWhile_concat_pos p _ d hd, rdropWhile_concat_pos p t d hd, ih]
    · rw [hassoc, rdropWhile_concat_neg p _ d hd, rdropWhile_concat_neg p t d hd]
      simp

/-- A character that stays keeps everything between it and the beginning. -/
theorem strip_append_not (hfirst : ∀ d, (s ++ [c]).head? = some d → p d = false)
    (hc : p c = false) (t : List α) : strip p (s ++ c :: t) = s ++ c :: t.rdropWhile p := by
  have hdrop : (s ++ c :: t).dropWhile p = s ++ c :: t := by
    cases s with
    | nil => simp [hc]
    | cons d s =>
      have hd : p d = false := hfirst d rfl
      simp [hd]
  unfold strip
  rw [hdrop, rdropWhile_append_not hc]

theorem strip_append_left (h : ∀ d ∈ s, p d = true) (t : List α) :
    strip p (s ++ t) = strip p t := by
  unfold strip
  rw [dropWhile_append_of_pos h]

/-- A text is to be stripped altogether, or has a first character that stays. -/
theorem first_kept (p : α → Bool) (s : List α) : (∀ d ∈ s, p d = true) ∨
    ∃ before c after, s = before ++ c :: after ∧ (∀ d ∈ before, p d = true) ∧ p c = false := by
  cases hrest : s.dropWhile p with
  | nil => exact Or.inl (dropWhile_eq_nil_iff.mp hrest)
  | cons c after =>
    refine Or.inr ⟨s.takeWhile p, c, after, ?_, fun d => mem_takeWhile_imp, ?_⟩
    · rw [← hrest, takeWhile_append_dropWhile]
    · exact head_dropWhile (s := s) (by rw [hrest]; rfl)

theorem strip_of_first (hbefore : ∀ d ∈ s, p d = true) (hc : p c = false) (t : List α) :
    strip p (s ++ c :: t) = c :: t.rdropWhile p := by
  rw [strip_append_left hbefore]
  exact strip_append_not (s := []) (fun d hd => Option.some.inj hd ▸ hc) hc t

theorem strip_eq_nil_iff : strip p s = [] ↔ ∀ d ∈ s, p d = true := by
  rcases first_kept p s with hall | ⟨before, c, after, rfl, hbefore, hc⟩
  · refine ⟨fun _ => hall, fun _ => ?_⟩
    unfold strip
    rw [dropWhile_eq_nil_iff.mpr hall]
    rfl
  · rw [strip_of_first hbefore hc]
    refine ⟨fun h => (by cases h), fun h => ?_⟩
    rw [h c (by simp)] at hc
    cases hc

theorem strip_rdropWhile (p : α → Bool) (s : List α) : strip p (s.rdropWhile p) = strip p s := by
  rcases first_kept p s with hall | ⟨before, c, after, rfl, hbefore, hc⟩
  · rw [rdropWhile_eq_nil_iff.mpr hall, strip_eq_nil_iff.mpr hall]
    rfl
  · rw [rdropWhile_append_not hc, strip_of_first hbefore hc, strip_of_first hbefore hc,
      rdropWhile_idempotent]

theorem rdropWhile_getLast (p : α → Bool) (s : List α) :
    (s.rdropWhile p).getLast? = (strip p s).getLast? := by
  rcases first_kept p s with hall | ⟨before, c, after, rfl, hbefore, hc⟩
  · rw [rdropWhile_eq_nil_iff.mpr hall, strip_eq_nil_iff.mpr hall]
  · rw [rdropWhile_append_not hc, strip_of_first hbefore hc,
      getLast?_append_of_ne_nil _ (cons_ne_nil _ _)]

theorem head_strip (h : (strip p s).head? = some c) : p c = false := by
  rcases first_kept p s with hall | ⟨before, d, after, rfl, hbefore, hd⟩
  · rw [strip_eq_nil_iff.mpr hall] at h
    cases h
  · rw [strip_of_first hbefore hd] at h
    exact Option.some.inj h ▸ hd

theorem last_strip (h : (strip p s).getLast? = some c) : p c = false := last_rdropWhile h

theorem strip_eq_self (hfirst : ∀ d, s.head? = some d → p d = false)
    (hlast : ∀ d, s.getLast? = some d → p d = false) : strip p s = s := by
  induction s using reverseRecOn with
  | nil => rfl
  | append_singleton s c =>
    have hc : p c = false := hlast c (by simp)
    exact strip_append_not hfirst hc []

/-- Where two strippings change nothing, the first of them changes nothing. -/
theorem strip_eq_self_of_strip (h : strip q (strip p s) = s) : strip p s = s := by
  apply (strip_within p s).sublist.eq_of_length_le
  calc s.length = (strip q (strip p s)).length := by rw [h]
    _ ≤ (strip p s).length := (strip_within q _).length_le

/-- What lies between separators has none, and is of the whole. -/
theorem mem_splitOn [BEq α] [LawfulBEq α] {sep : α} {piece : List α} (h : piece ∈ s.splitOn sep) :
    ∀ d ∈ piece, d ∈ s ∧ d ≠ sep := by
  induction s generalizing piece with
  | nil =>
    have hnil : piece = [] := by simpa using h
    simp [hnil]
  | cons x rest ih =>
    rw [splitOn_eq_splitOnP, splitOnP_cons_eq_if_modifyHead] at h
    obtain ⟨first, others, hrest⟩ :=
      exists_cons_of_ne_nil (splitOnP_ne_nil (· == sep) rest)
    have hin : ∀ p ∈ first :: others, ∀ d ∈ p, d ∈ x :: rest ∧ d ≠ sep := fun p hp d hd =>
      (ih (by rwa [splitOn_eq_splitOnP, hrest]) d hd).imp_left (mem_cons_of_mem x)
    rw [hrest] at h
    split at h
    · rcases mem_cons.mp h with rfl | hmem
      · simp
      · exact hin piece hmem
    · rename_i hx
      rw [modifyHead_cons] at h
      rcases mem_cons.mp h with rfl | hmem
      · intro d hd
        rcases mem_cons.mp hd with rfl | hd
        · exact ⟨mem_cons_self, by simpa using hx⟩
        · exact hin first mem_cons_self d hd
      · exact hin piece (mem_cons_of_mem first hmem)

/-- Pieces that each end in a separator are found again; nothing follows the last. -/
theorem splitOn_terminated [BEq α] [LawfulBEq α] {sep : α} {pieces : List (List α)}
    (h : ∀ piece ∈ pieces, sep ∉ piece) :
    (pieces.flatMap (fun piece => piece ++ [sep])).splitOn sep = pieces ++ [[]] := by
  induction pieces with
  | nil => simp
  | cons piece rest ih =>
    have hfirst : ∀ d ∈ piece, (d == sep) = false := fun d hd =>
      beq_eq_false_iff_ne.mpr (fun heq => h piece mem_cons_self (heq ▸ hd))
    rw [flatMap_cons, append_assoc, singleton_append,
      splitOn_append_cons_of_forall_mem_beq_eq_false hfirst sep (beq_self_eq_true sep),
      ih (fun p hp => h p (mem_cons_of_mem piece hp)), cons_append]

end AiCloud.Lib
