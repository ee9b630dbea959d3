import Mathlib.Data.List.Basic
import Mathlib.Data.List.Nodup

/-!
# Lists without repetitions

`List.eraseDups` keeps the first occurrence of each element.

* `nodup_eraseDups`, `eraseDups_of_nodup`: nothing is left twice, and nothing else is left out.
* `eraseDups_concat_of_mem`: an element that is there already.
* `eraseDups_append_left`, `filter_eraseDups`: erasing in two steps, and choosing elements.
-/

namespace ArtifactQuery

section FirstOccurrences

variable {α : Type} [BEq α] [LawfulBEq α]

/-- Erasing repetitions leaves none. -/
theorem nodup_eraseDups (as : List α) : as.eraseDups.Nodup := by
  generalize hn : as.length = n
  induction n using Nat.strongRecOn generalizing as with
  | ind n ih =>
    cases as with
    | nil => exact List.nodup_nil
    | cons a as =>
      rw [List.eraseDups_cons, List.nodup_cons, List.mem_eraseDups]
      refine ⟨by simp, ih _ ?_ _ rfl⟩
      have hle : (as.filter fun b => !b == a).length ≤ as.length := List.length_filter_le _ _
      simp only [List.length_cons] at hn
      omega

theorem eraseDups_of_nodup {as : List α} (h : as.Nodup) : as.eraseDups = as := by
  induction as with
  | nil => rfl
  | cons a as ih =>
    obtain ⟨ha, has⟩ := List.nodup_cons.1 h
    have hfilter : (as.filter fun b => !b == a) = as := by
      rw [List.filter_eq_self]
      intro b hb
      have hne : b ≠ a := fun hba => ha (hba ▸ hb)
      simpa using hne
    rw [List.eraseDups_cons, hfilter, ih has]

/-- An element that is there already is not added. -/
theorem eraseDups_concat_of_mem {as : List α} (h : as.Nodup) {b : α} (hb : b ∈ as) :
    (as ++ [b]).eraseDups = as := by
  have hremoved : [b].removeAll as = [] := by simp [List.removeAll, hb]
  rw [List.eraseDups_append, eraseDups_of_nodup h, hremoved, List.eraseDups_nil, List.append_nil]

theorem removeAll_eraseDups (as bs : List α) : bs.removeAll as.eraseDups = bs.removeAll as := by
  rw [List.removeAll, List.removeAll]
  refine List.filter_congr fun b _ => ?_
  have hmem : b ∈ as.eraseDups ↔ b ∈ as := List.mem_eraseDups
  simp [hmem]

/-- Repetitions among the first elements may be erased beforehand. -/
theorem eraseDups_append_left (as bs : List α) :
    (as.eraseDups ++ bs).eraseDups = (as ++ bs).eraseDups := by
  rw [List.eraseDups_append, List.eraseDups_append, removeAll_eraseDups,
    eraseDups_of_nodup (nodup_eraseDups as)]

/-- Choosing elements and erasing repetitions can be exchanged. -/
theorem filter_eraseDups (p : α → Bool) (as : List α) :
    as.eraseDups.filter p = (as.filter p).eraseDups := by
  generalize hn : as.length = n
  induction n using Nat.strongRecOn generalizing as with
  | ind n ih =>
    cases as with
    | nil => rfl
    | cons a as =>
      have hle : (as.filter fun b => !b == a).length ≤ as.length := List.length_filter_le _ _
      simp only [List.length_cons] at hn
      rw [List.eraseDups_cons, List.filter_cons, List.filter_cons, ih _ (by omega) _ rfl]
      by_cases ha : p a = true
      · rw [if_pos ha, if_pos ha, List.eraseDups_cons, List.filter_comm]
      · rw [if_neg ha, if_neg ha, List.filter_filter]
        congr 1
        refine List.filter_congr fun b _ => ?_
        by_cases hb : b = a
        · simp [hb, ha]
        · simp [hb]

end FirstOccurrences

end ArtifactQuery
