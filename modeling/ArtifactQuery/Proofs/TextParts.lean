import ArtifactQuery.Text.Blank
import ArtifactQuery.Text.Segments
import Mathlib.Data.List.Basic
import Mathlib.Data.List.TakeWhile

/-!
# Cut and trimmed texts

* `cutAt_of_not_mem`, `cutAt_append`: the segments of a text in front of and behind a separator.
* `segments_eq_iff`: the segments of a text are those that it is put together from.
* `trimChars_eq_self`, `trimChars_cons_blank`: what trimming leaves alone and what it takes away.
* `trimChars_ne_nil`: a text with a character that is no blank is not trimmed to nothing.
* `mem_of_mem_cutAt`, `mem_trimChars`: nothing comes in by cutting and trimming.
* `TightStart`, `TightEnd`: texts that start or end with other characters than blanks
  (`trim_eq_self`).
-/

namespace ArtifactQuery

/-! ## Segments -/

section Segments

variable {sep : Char} {cs : List Char}

theorem cutAt_ne_nil : cutAt sep cs ≠ [] := by
  cases cs with
  | nil => exact List.cons_ne_nil _ _
  | cons c cs =>
    rw [cutAt]
    split
    · exact List.cons_ne_nil _ _
    · cases cutAt sep cs with
      | nil => exact List.cons_ne_nil _ _
      | cons s rest => exact List.cons_ne_nil _ _

theorem cutAt_of_not_mem (h : sep ∉ cs) : cutAt sep cs = [cs] := by
  induction cs with
  | nil => rfl
  | cons c cs ih =>
    have hc : c ≠ sep := fun heq => h (heq ▸ List.mem_cons_self)
    rw [cutAt, if_neg hc, ih fun hcs => h (List.mem_cons_of_mem _ hcs), consToFirst]

theorem cutAt_append (h : sep ∉ cs) (rest : List Char) :
    cutAt sep (cs ++ sep :: rest) = cs :: cutAt sep rest := by
  induction cs with
  | nil => rw [List.nil_append, cutAt, if_pos rfl]
  | cons c cs ih =>
    have hc : c ≠ sep := fun heq => h (heq ▸ List.mem_cons_self)
    rw [List.cons_append, cutAt, if_neg hc, ih fun hcs => h (List.mem_cons_of_mem _ hcs),
      consToFirst]

theorem mem_of_mem_cutAt {c : Char} {part : List Char} (hpart : part ∈ cutAt sep cs)
    (hc : c ∈ part) : c ∈ cs := by
  induction cs generalizing part with
  | nil =>
    rw [List.mem_singleton.1 hpart] at hc
    exact hc
  | cons c' cs ih =>
    rw [cutAt] at hpart
    split at hpart
    · rcases List.mem_cons.1 hpart with rfl | hpart
      · cases hc
      · exact List.mem_cons_of_mem _ (ih hpart hc)
    · have hne : cutAt sep cs ≠ [] := cutAt_ne_nil
      obtain ⟨first, rest, hcut⟩ := List.exists_cons_of_ne_nil hne
      rw [hcut] at hpart ih
      rcases List.mem_cons.1 hpart with rfl | hpart
      · rcases List.mem_cons.1 hc with rfl | hc
        · exact List.mem_cons_self
        · exact List.mem_cons_of_mem _ (ih List.mem_cons_self hc)
      · exact List.mem_cons_of_mem _ (ih (List.mem_cons_of_mem _ hpart) hc)

theorem cutAt_eq_splitOn (cs : List Char) : cutAt sep cs = cs.splitOn sep := by
  induction cs with
  | nil => rfl
  | cons c cs ih =>
    rw [List.splitOn, List.splitOnP_cons_eq_if_modifyHead, ← List.splitOn, ← ih, cutAt]
    by_cases hc : c = sep
    · rw [if_pos hc, if_pos (beq_iff_eq.2 hc)]
    · have hne : cutAt sep cs ≠ [] := cutAt_ne_nil
      obtain ⟨s, rest, hs⟩ := List.exists_cons_of_ne_nil hne
      rw [if_neg hc, if_neg (beq_iff_eq.not.2 hc), hs]
      rfl

/-- The segments of a text are the texts without separators that it is put together from. -/
theorem segments_eq_iff {text : String} {ss : List String} (hne : ss ≠ [])
    (h : ∀ s ∈ ss, sep ∉ s.toList) :
    segments sep text = ss ↔ text = (String.singleton sep).intercalate ss := by
  have hjoined : ((String.singleton sep).intercalate ss).toList =
      [sep].intercalate (ss.map String.toList) := by
    rw [String.toList_intercalate, String.toList_singleton]
  constructor
  · rintro rfl
    rw [← String.toList_inj, hjoined, segments, List.map_map]
    simp [Function.comp_def, cutAt_eq_splitOn, List.intercalate_splitOn]
  · rintro rfl
    rw [segments, hjoined, cutAt_eq_splitOn, List.splitOn_intercalate sep (by simpa using h)
      (by simpa using hne), List.map_map]
    simp [Function.comp_def]

end Segments

/-! ## Blanks at the ends -/

section Trimming

variable {c : Char} {cs : List Char}

/-- Blanks end where another character stands. -/
theorem dropWhile_isBlank_eq_self (h : cs.head?.all (! isBlank ·)) : cs.dropWhile isBlank = cs := by
  cases cs with
  | nil => rfl
  | cons c cs =>
    have hc : isBlank c = false := by simpa using h
    exact List.dropWhile_cons_of_neg (by rw [hc]; exact Bool.false_ne_true)

/-- Only the front is trimmed where the last character is no blank. -/
theorem trimChars_of_getLast? (h : cs.getLast?.all (! isBlank ·)) :
    trimChars cs = cs.dropWhile isBlank := by
  obtain ⟨front, hfront⟩ := List.dropWhile_suffix (l := cs) isBlank
  rw [trimChars, trimFront, trimBack]
  cases hrest : cs.dropWhile isBlank with
  | nil => rfl
  | cons c rest =>
    have hlast : (front ++ c :: rest).getLast? = (c :: rest).getLast? := by
      rw [List.getLast?_append, List.getLast?_cons, Option.some_or]
    rw [← hfront, hrest, hlast, List.getLast?_eq_head?_reverse] at h
    rw [dropWhile_isBlank_eq_self h, List.reverse_reverse]

theorem getLast?_trimChars (cs : List Char) : (trimChars cs).getLast?.all (! isBlank ·) := by
  rw [trimChars, trimBack, List.getLast?_reverse]
  have hhead := List.head?_dropWhile_not isBlank (trimFront cs).reverse
  cases hfirst : ((trimFront cs).reverse.dropWhile isBlank).head? with
  | none => rfl
  | some c =>
    rw [hfirst] at hhead
    simpa using hhead

/-- Nothing is trimmed that neither starts nor ends with a blank. -/
theorem trimChars_eq_self (hfirst : cs.head?.all (! isBlank ·))
    (hlast : cs.getLast?.all (! isBlank ·)) : trimChars cs = cs := by
  rw [trimChars_of_getLast? hlast, dropWhile_isBlank_eq_self hfirst]

theorem trimChars_cons_blank (hc : isBlank c = true) : trimChars (c :: cs) = trimChars cs := by
  rw [trimChars, trimFront, List.dropWhile_cons_of_pos hc]
  rfl

theorem trimChars_append_of_blanks {gap : List Char} (hgap : gap.all isBlank) :
    trimChars (gap ++ cs) = trimChars cs := by
  induction gap with
  | nil => rfl
  | cons c gap ih =>
    rw [List.all_cons, Bool.and_eq_true] at hgap
    rw [List.cons_append, trimChars_cons_blank hgap.1, ih hgap.2]

/-- A blank in front of a text is trimmed from the first of its segments. -/
theorem map_trimChars_cutAt_cons {sep : Char} (hc : isBlank c = true) (hsep : c ≠ sep) :
    (cutAt sep (c :: cs)).map trimChars = (cutAt sep cs).map trimChars := by
  have hne : cutAt sep cs ≠ [] := cutAt_ne_nil
  obtain ⟨s, rest, hs⟩ := List.exists_cons_of_ne_nil hne
  rw [cutAt, if_neg hsep, hs, consToFirst, List.map_cons, List.map_cons, trimChars_cons_blank hc]

theorem dropWhile_isBlank_ne_nil (hc : c ∈ cs) (hblank : isBlank c = false) :
    cs.dropWhile isBlank ≠ [] := by
  intro hnil
  rw [List.dropWhile_eq_nil_iff.1 hnil c hc] at hblank
  cases hblank

/-- A text is not trimmed to nothing that has a character which is no blank. -/
theorem trimChars_ne_nil (hc : c ∈ cs) (hblank : isBlank c = false) : trimChars cs ≠ [] := by
  obtain ⟨d, ds, hds⟩ := List.exists_cons_of_ne_nil (dropWhile_isBlank_ne_nil hc hblank)
  have hd : isBlank d = false := by
    have hhead := List.head?_dropWhile_not isBlank cs
    rw [hds] at hhead
    simpa using hhead
  rw [trimChars, trimFront, hds, trimBack]
  have hback : (d :: ds).reverse.dropWhile isBlank ≠ [] :=
    dropWhile_isBlank_ne_nil (List.mem_reverse.2 List.mem_cons_self) hd
  exact fun hnil => hback (List.reverse_eq_nil_iff.1 hnil)

/-- A text is what is left of it by trimming, between blanks. -/
theorem exists_blanks_around (cs : List Char) : ∃ front back, front.all isBlank = true ∧
    back.all isBlank = true ∧ cs = front ++ trimChars cs ++ back := by
  refine ⟨cs.takeWhile isBlank, ((trimFront cs).reverse.takeWhile isBlank).reverse,
    List.all_takeWhile, ?_, ?_⟩
  · rw [List.all_reverse]
    exact List.all_takeWhile
  · rw [List.append_assoc, trimChars, trimBack, ← List.reverse_append,
      List.takeWhile_append_dropWhile, List.reverse_reverse, trimFront,
      List.takeWhile_append_dropWhile]

theorem mem_trimChars (h : c ∈ trimChars cs) : c ∈ cs := by
  have hback := (List.dropWhile_sublist _).subset (List.mem_reverse.1 h)
  exact (List.dropWhile_sublist _).subset (List.mem_reverse.1 hback)

end Trimming

/-! ## Texts without blanks at their ends -/

/-- Whether a text starts with a character that is no blank. -/
def TightStart (s : String) : Prop := s.toList.head?.any (! isBlank ·) = true

/-- Whether a text ends with a character that is no blank. -/
def TightEnd (s : String) : Prop := s.toList.getLast?.any (! isBlank ·) = true

instance (s : String) : Decidable (TightStart s) := inferInstanceAs (Decidable (_ = true))

instance (s : String) : Decidable (TightEnd s) := inferInstanceAs (Decidable (_ = true))

theorem TightStart.append {s : String} (h : TightStart s) (t : String) : TightStart (s ++ t) := by
  obtain ⟨c, hc, hblank⟩ := (Option.any_eq_true _ _).1 h
  rw [TightStart, String.toList_append, List.head?_append, hc]
  exact hblank

theorem TightEnd.append {t : String} (h : TightEnd t) (s : String) : TightEnd (s ++ t) := by
  obtain ⟨c, hc, hblank⟩ := (Option.any_eq_true _ _).1 h
  rw [TightEnd, String.toList_append, List.getLast?_append, hc]
  exact hblank

theorem trimChars_toList_eq_self {s : String} (hs : TightStart s) (he : TightEnd s) :
    trimChars s.toList = s.toList := by
  have hall : ∀ {o : Option Char}, o.any (! isBlank ·) = true → o.all (! isBlank ·) = true := by
    intro o ho
    cases o with
    | none => rfl
    | some c => exact ho
  exact trimChars_eq_self (hall hs) (hall he)

theorem trim_eq_self {s : String} (hs : TightStart s) (he : TightEnd s) : trim s = s := by
  rw [trim, trimChars_toList_eq_self hs he, String.ofList_toList]

theorem TightStart.ne_empty {s : String} (h : TightStart s) : s ≠ "" := by
  rintro rfl
  cases h

theorem tightStart_intercalate {sep s : String} (h : TightStart s) (ss : List String) :
    TightStart (sep.intercalate (s :: ss)) := by
  cases ss with
  | nil => rwa [String.intercalate_singleton]
  | cons s' ss =>
    rw [String.intercalate_cons_cons]
    exact (h.append _).append _

theorem tightEnd_intercalate {sep : String} {ss : List String} (hne : ss ≠ [])
    (h : ∀ s ∈ ss, TightEnd s) : TightEnd (sep.intercalate ss) := by
  induction ss with
  | nil => exact absurd rfl hne
  | cons s ss ih =>
    obtain ⟨hs, hss⟩ := List.forall_mem_cons.1 h
    cases ss with
    | nil => rwa [String.intercalate_singleton]
    | cons s' ss =>
      rw [String.intercalate_cons_cons]
      exact (ih (List.cons_ne_nil _ _) hss).append _

end ArtifactQuery
