import ArtifactQuery.Policy.VirtualRepos
import ArtifactQuery.Proofs.ConditionTruth

/-!
# Patterns in two notations

A pattern selects repositories twice: the database compares their keys with the pattern in `like`
notation, and virtual repositories are selected by the pattern itself. In `like` notation the
characters `%` and `_` are wildcards too, and nothing marks those that the pattern means as such.

* `Pattern.Covers`: a text fits a pattern, in any notation with a character for a run and one for a
  single character.
* `fits_iff_covers`: the matcher decides it for the notation of queries.
* `covers_toLike_iff`: what a pattern in `like` notation selects.
* `covers_toLike_of_covers`, `exists_covers_toLike`: it is at least what the pattern selects, and
  more if the pattern has a `%` or a `_`.
* `toLike_selects`: all of it, for patterns and for criteria on repositories.
-/

namespace ArtifactQuery

/-! ## Texts that fit a pattern -/

/-- The text fits the pattern, where `run` stands for any characters, `one` for one character and
every other character for itself. -/
inductive Pattern.Covers (run one : Char) : List Char → List Char → Prop
  | nil : Covers run one [] []
  | run (u : List Char) {p t : List Char} (h : Covers run one p t) :
      Covers run one (run :: p) (u ++ t)
  | one (c : Char) {p t : List Char} (h : Covers run one p t) : Covers run one (one :: p) (c :: t)
  | self {c : Char} {p t : List Char} (hrun : c ≠ run) (hone : c ≠ one)
      (h : Covers run one p t) : Covers run one (c :: p) (c :: t)

namespace Pattern

variable {run one c x : Char} {p t : List Char}

theorem covers_nil : Covers run one [] t ↔ t = [] := by
  constructor
  · intro h
    cases h
    rfl
  · rintro rfl
    exact .nil

theorem covers_run (hne : run ≠ one) :
    Covers run one (run :: p) t ↔ ∃ s, s <:+ t ∧ Covers run one p s := by
  constructor
  · intro h
    cases h with
    | run u h => exact ⟨_, List.suffix_append u _, h⟩
    | one c h => exact absurd rfl hne
    | self hrun _ _ => exact absurd rfl hrun
  · rintro ⟨s, ⟨u, rfl⟩, h⟩
    exact .run u h

theorem covers_one (hne : run ≠ one) :
    Covers run one (one :: p) t ↔ ∃ c s, t = c :: s ∧ Covers run one p s := by
  constructor
  · intro h
    cases h with
    | run u h => exact absurd rfl hne
    | one c h => exact ⟨c, _, rfl, h⟩
    | self _ hone _ => exact absurd rfl hone
  · rintro ⟨c, s, rfl, h⟩
    exact .one c h

theorem covers_self (hrun : c ≠ run) (hone : c ≠ one) :
    Covers run one (c :: p) t ↔ ∃ s, t = c :: s ∧ Covers run one p s := by
  constructor
  · intro h
    cases h with
    | run u h => exact absurd rfl hrun
    | one x h => exact absurd rfl hone
    | self _ _ h => exact ⟨_, rfl, h⟩
  · rintro ⟨s, rfl, h⟩
    exact .self hrun hone h

/-- Characters of a pattern that stand for themselves are in every text that fits. -/
theorem mem_of_covers (h : Covers run one p t) (hc : c ∈ p) (hrun : c ≠ run) (hone : c ≠ one) :
    c ∈ t := by
  induction h with
  | nil => cases hc
  | run u _ ih =>
    have hrest := ih ((List.mem_cons.1 hc).resolve_left hrun)
    exact List.mem_append_right u hrest
  | one x _ ih =>
    have hrest := ih ((List.mem_cons.1 hc).resolve_left hone)
    exact List.mem_cons_of_mem x hrest
  | self _ _ _ ih =>
    rcases List.mem_cons.1 hc with rfl | hc
    · exact List.mem_cons_self
    · exact List.mem_cons_of_mem _ (ih hc)

end Pattern

namespace Wildcard

open Pattern

variable {p t s : List Char}

/-! ## The matcher -/

theorem fits_run : fits ('*' :: p) t = (afterRun t).any (fits p) := by
  rw [fits.eq_def]
  exact if_pos rfl

theorem fits_nil_of_ne {c : Char} (hrun : c ≠ '*') : fits (c :: p) [] = false := by
  rw [fits.eq_def]
  exact if_neg hrun

theorem fits_cons_of_ne {c x : Char} (hrun : c ≠ '*') : fits (c :: p) (x :: t) =
    ((if c = '?' then x ≠ '\n' else x = c : Bool) && fits p t) := by
  rw [fits.eq_def]
  exact if_neg hrun

theorem suffix_of_mem_afterRun (h : s ∈ afterRun t) : s <:+ t := by
  induction t with
  | nil =>
    obtain rfl := List.mem_singleton.1 h
    exact List.suffix_refl _
  | cons c t ih =>
    rw [afterRun] at h
    rcases List.mem_cons.1 h with rfl | h
    · exact List.suffix_refl _
    · split at h
      · cases h
      · exact (ih h).trans (List.suffix_cons c t)

/-- A run leaves any end of a line. -/
theorem mem_afterRun (ht : '\n' ∉ t) : s ∈ afterRun t ↔ s <:+ t := by
  refine ⟨suffix_of_mem_afterRun, fun h => ?_⟩
  induction t with
  | nil =>
    obtain rfl := List.suffix_nil.1 h
    exact List.mem_singleton_self _
  | cons c t ih =>
    have hc : c ≠ '\n' := fun hc => ht (hc ▸ List.mem_cons_self)
    have ht : '\n' ∉ t := fun h => ht (List.mem_cons_of_mem c h)
    rw [afterRun, if_neg hc]
    rcases List.suffix_cons_iff.1 h with rfl | h
    · exact List.mem_cons_self
    · exact List.mem_cons_of_mem _ (ih ht h)

/-- The matcher accepts only texts that fit. -/
theorem covers_of_fits (h : fits p t = true) : Covers '*' '?' p t := by
  induction p generalizing t with
  | nil =>
    rw [fits, List.isEmpty_iff] at h
    exact covers_nil.2 h
  | cons c p ih =>
    by_cases hrun : c = '*'
    · subst hrun
      rw [fits_run] at h
      obtain ⟨s, hs, hfits⟩ := List.any_eq_true.1 h
      exact (covers_run (by decide)).2 ⟨s, suffix_of_mem_afterRun hs, ih hfits⟩
    · cases t with
      | nil =>
        rw [fits_nil_of_ne hrun] at h
        cases h
      | cons x t =>
        rw [fits_cons_of_ne hrun] at h
        obtain ⟨hx, hfits⟩ := Bool.and_eq_true_iff.1 h
        by_cases hone : c = '?'
        · subst hone
          exact .one x (ih hfits)
        · rw [if_neg hone, decide_eq_true_iff] at hx
          subst hx
          exact .self hrun hone (ih hfits)

/-- On one line, the matcher accepts exactly the texts that fit. -/
theorem fits_iff_covers (ht : '\n' ∉ t) : fits p t = true ↔ Covers '*' '?' p t := by
  refine ⟨covers_of_fits, fun h => ?_⟩
  induction h with
  | nil => rfl
  | @run u p t _ ih =>
    have hrest : '\n' ∉ t := fun h => ht (List.mem_append_right u h)
    rw [fits_run]
    exact List.any_eq_true.2 ⟨t, (mem_afterRun ht).2 (List.suffix_append u t), ih hrest⟩
  | @one c p t _ ih =>
    have hc : c ≠ '\n' := fun hc => ht (hc ▸ List.mem_cons_self)
    have hrest : '\n' ∉ t := fun h => ht (List.mem_cons_of_mem c h)
    rw [fits_cons_of_ne (by decide)]
    simp [ih hrest, hc]
  | @self c p t hrun hone _ ih =>
    have hrest : '\n' ∉ t := fun h => ht (List.mem_cons_of_mem c h)
    rw [fits_cons_of_ne hrun]
    simp [ih hrest, hone]

/-! ## The notation of the database -/

/-- Whether a text fits a pattern in `like` notation. -/
def LikeFits (pattern text : String) : Prop := Covers '%' '_' pattern.toList text.toList

/-- A character of a pattern as `like` reads it, in the notation of queries: also `%` is a run, and
`_` one character. -/
def asLike (c : Char) : Char := if c = '%' then '*' else if c = '_' then '?' else c

theorem toList_toLike (pattern : String) : (toLike pattern).toList = pattern.toList.map likeChar :=
  String.toList_map

/-- A character stands for a run in both readings, or for one character, or for itself. -/
theorem likeChar_cases (c : Char) :
    likeChar c = '%' ∧ asLike c = '*' ∨ likeChar c = '_' ∧ asLike c = '?' ∨
      (likeChar c = c ∧ asLike c = c) ∧ (c ≠ '%' ∧ c ≠ '_') ∧ c ≠ '*' ∧ c ≠ '?' := by
  by_cases hrun : c = '*'
  · subst hrun
    exact .inl (by decide)
  by_cases hone : c = '?'
  · subst hone
    exact .inr (.inl (by decide))
  by_cases hpercent : c = '%'
  · subst hpercent
    exact .inl (by decide)
  by_cases hunderscore : c = '_'
  · subst hunderscore
    exact .inr (.inl (by decide))
  · exact .inr (.inr (by simp [likeChar, asLike, hrun, hone, hpercent, hunderscore]))

/-- In `like` notation, a pattern is read with `%` and `_` as further wildcards. -/
theorem covers_toLike_iff :
    Covers '%' '_' (p.map likeChar) t ↔ Covers '*' '?' (p.map asLike) t := by
  induction p generalizing t with
  | nil => rw [List.map_nil, List.map_nil, covers_nil, covers_nil]
  | cons c p ih =>
    rw [List.map_cons, List.map_cons]
    rcases likeChar_cases c with ⟨hlike, has⟩ | ⟨hlike, has⟩ | ⟨⟨hlike, has⟩, hnot, hnot'⟩
    · rw [hlike, has, covers_run (by decide), covers_run (by decide)]
      simp only [ih]
    · rw [hlike, has, covers_one (by decide), covers_one (by decide)]
      simp only [ih]
    · rw [hlike, has, covers_self hnot.1 hnot.2, covers_self hnot'.1 hnot'.2]
      simp only [ih]

/-- A text that fits a pattern fits it in `like` notation. -/
theorem covers_toLike_of_covers (h : Covers '*' '?' p t) : Covers '%' '_' (p.map likeChar) t := by
  induction h with
  | nil => exact .nil
  | run u _ ih => exact .run u ih
  | one c _ ih => exact .one c ih
  | @self c p t hrun hone _ ih =>
    have hsame : likeChar c = c := by rw [likeChar, if_neg hrun, if_neg hone]
    rw [List.map_cons, hsame]
    -- The character may be a wildcard of the other notation.
    by_cases hpercent : c = '%'
    · subst hpercent
      exact .run ['%'] ih
    by_cases hunderscore : c = '_'
    · subst hunderscore
      exact .one '_' ih
    · exact .self hpercent hunderscore ih

/-- A pattern without characters that only `like` takes for wildcards is read as it is meant. -/
theorem covers_toLike_iff_of_not_mem (hpercent : '%' ∉ p) (hunderscore : '_' ∉ p) :
    Covers '%' '_' (p.map likeChar) t ↔ Covers '*' '?' p t := by
  have hsame : ∀ c ∈ p, asLike c = c := by
    intro c hc
    have hne : c ≠ '%' := fun h => hpercent (h ▸ hc)
    have hne' : c ≠ '_' := fun h => hunderscore (h ▸ hc)
    rw [asLike, if_neg hne, if_neg hne']
  rw [covers_toLike_iff, List.map_congr_left hsame, List.map_id']

/-- The text that a pattern is with each wildcard of both notations, but those for themselves,
replaced by a letter. -/
def sample (p : List Char) : List Char :=
  p.map fun c => if c = '*' ∨ c = '?' ∨ c = '%' ∨ c = '_' then 'x' else c

theorem covers_sample (p : List Char) : Covers '%' '_' (p.map likeChar) (sample p) := by
  rw [sample]
  induction p with
  | nil => exact .nil
  | cons c p ih =>
    rw [List.map_cons, List.map_cons]
    rcases likeChar_cases c with ⟨hlike, has⟩ | ⟨hlike, has⟩ | ⟨⟨hlike, -⟩, hnot, hnot'⟩
    · rw [hlike]
      exact .run [_] ih
    · rw [hlike]
      exact .one _ ih
    · have hself : ¬ (c = '*' ∨ c = '?' ∨ c = '%' ∨ c = '_') := by tauto
      rw [hlike, if_neg hself]
      exact .self hnot.1 hnot.2 ih

theorem not_mem_sample {c : Char} (hc : c ≠ 'x') (hwild : c = '*' ∨ c = '?' ∨ c = '%' ∨ c = '_') :
    c ∉ sample p := by
  intro h
  obtain ⟨x, hx, hxc⟩ := List.mem_map.1 h
  split at hxc
  · exact hc hxc.symm
  · rename_i hnot
    rw [hxc] at hnot
    exact hnot hwild

/-- A pattern on one line that has a `%` or a `_` selects more in `like` notation. -/
theorem exists_covers_toLike (hline : '\n' ∉ p) (hwild : '%' ∈ p ∨ '_' ∈ p) :
    ∃ t, '\n' ∉ t ∧ Covers '%' '_' (p.map likeChar) t ∧ ¬ Covers '*' '?' p t := by
  refine ⟨sample p, fun h => ?_, covers_sample p, fun h => ?_⟩
  · obtain ⟨c, hc, hcn⟩ := List.mem_map.1 h
    split at hcn
    · cases hcn
    · exact hline (hcn ▸ hc)
  -- The sample has a letter wherever the pattern has a wildcard of either notation.
  · rcases hwild with hmem | hmem
    · exact not_mem_sample (by decide) (by decide)
        (mem_of_covers h hmem (by decide) (by decide))
    · exact not_mem_sample (by decide) (by decide)
        (mem_of_covers h hmem (by decide) (by decide))

/-! ## What is selected -/

/-- A pattern in `like` notation is no narrower than the pattern, and selects the same texts of one
line exactly if the pattern has no `%` and no `_`, or none of the texts can fit it. -/
theorem likeFits_iff_fitsText_iff (pattern : String) :
    (∀ text : String, '\n' ∉ text.toList →
      (LikeFits (toLike pattern) text ↔ fitsText pattern text = true)) ↔
      '\n' ∈ pattern.toList ∨ '%' ∉ pattern.toList ∧ '_' ∉ pattern.toList := by
  constructor
  · intro hagree
    by_contra hnot
    obtain ⟨hline, hplain⟩ := not_or.1 hnot
    have hwild : '%' ∈ pattern.toList ∨ '_' ∈ pattern.toList := by
      by_contra hnone
      exact hplain (not_or.1 hnone)
    obtain ⟨t, ht, hlike, hcovers⟩ := exists_covers_toLike hline hwild
    have htext : (String.ofList t).toList = t := String.toList_ofList
    have hiff := hagree (String.ofList t) (by rwa [htext])
    rw [LikeFits, toList_toLike, fitsText, htext, fits_iff_covers ht] at hiff
    exact hcovers (hiff.1 hlike)
  · intro hpattern text htext
    rw [LikeFits, toList_toLike, fitsText, fits_iff_covers htext]
    rcases hpattern with hline | ⟨hpercent, hunderscore⟩
    -- A text of one line cannot have the line break that the pattern has.
    · refine ⟨fun h => ?_, covers_toLike_of_covers⟩
      have hmem : likeChar '\n' ∈ pattern.toList.map likeChar := List.mem_map_of_mem hline
      exact absurd (mem_of_covers h hmem (by decide) (by decide)) htext
    · exact covers_toLike_iff_of_not_mem hpercent hunderscore

open Sql in
/-- The condition of a pattern on repositories is true of those that fit in `like` notation. -/
theorem exists_render_matching (pattern : String) (path : List Domain) (o : Occurrence) :
    ∃ k, (Criterion.simple path .itemRepo o .matching (.text pattern)).render o none = .ok k ∧
      ∀ (db : Database), (∀ text p, db.fits text p = true ↔ LikeFits p text) →
        ∀ rows inner key, rows o "repo" = .text key →
          (k.holds db rows inner = true ↔ LikeFits (toLike pattern) key) := by
  refine ⟨.compare (.column ⟨some o, "repo"⟩) .like (.param (.text (toLike pattern))), ?_, ?_⟩
  · obtain ⟨t, n⟩ := o
    cases t <;> rfl
  · intro db hdb rows inner key hkey
    have hcell : (Term.column ⟨some o, "repo"⟩).cell rows inner = .text key := hkey
    rw [Condition.holds_compare, hcell, ← hdb]
    simp [Term.cell, Param.cell, Relation.relates]

open Sql in
/-- A pattern is matched as it is meant by the matcher that selects virtual repositories. The
database reads `%` and `_` as further wildcards: it selects what the matcher selects, and nothing
else on one line exactly if the pattern has neither, or cannot fit. -/
theorem toLike_selects (pattern : String) :
    (∀ text : String, '\n' ∉ text.toList →
      (fitsText pattern text = true ↔ Covers '*' '?' pattern.toList text.toList)) ∧
    (∀ text : String, LikeFits (toLike pattern) text ↔
      Covers '*' '?' (pattern.toList.map asLike) text.toList) ∧
    (∀ text : String, fitsText pattern text = true → LikeFits (toLike pattern) text) ∧
    ((∀ text : String, '\n' ∉ text.toList →
      (LikeFits (toLike pattern) text ↔ fitsText pattern text = true)) ↔
      '\n' ∈ pattern.toList ∨ '%' ∉ pattern.toList ∧ '_' ∉ pattern.toList) ∧
    ∀ (path : List Domain) (o : Occurrence), ∃ k,
      (Criterion.simple path .itemRepo o .matching (.text pattern)).render o none = .ok k ∧
      ∀ (db : Database), (∀ text p, db.fits text p = true ↔ LikeFits p text) →
        ∀ rows inner key, rows o "repo" = .text key →
          (k.holds db rows inner = true ↔ LikeFits (toLike pattern) key) ∧
            RepoResolver.selects .matching pattern key = fitsText pattern key := by
  refine ⟨fun text htext => fits_iff_covers htext, fun text => ?_, fun text h => ?_,
    likeFits_iff_fitsText_iff pattern, fun path o => ?_⟩
  · rw [LikeFits, toList_toLike]
    exact covers_toLike_iff
  · rw [LikeFits, toList_toLike]
    exact covers_toLike_of_covers (covers_of_fits h)
  · obtain ⟨k, hk, hholds⟩ := exists_render_matching pattern path o
    exact ⟨k, hk, fun db hdb rows inner key hkey => ⟨hholds db hdb rows inner key hkey, rfl⟩⟩

open Sql Classical in
/-- A database without rows, whose `like` is the standard one. -/
noncomputable def standardDatabase : Database where
  rows _ := []
  fits text pattern := decide (LikeFits pattern text)
  precedes _ _ := false

theorem likeFits_toLike {pattern text : String}
    (h : fits (pattern.toList.map asLike) text.toList = true) : LikeFits (toLike pattern) text := by
  rw [LikeFits, toList_toLike]
  exact covers_toLike_iff.2 (covers_of_fits h)

/-- The pattern `a_b*` selects the repository `axb-local` in the database, and no virtual repository
of this key. -/
theorem toLike_selects_underscore :
    fitsText "a_b*" "a_b-local" = true ∧ LikeFits (toLike "a_b*") "a_b-local" ∧
    (∃ k, (Criterion.simple [.items] .itemRepo (.plain .nodes) .matching (.text "a_b*")).render
        (.plain .nodes) none = .ok k ∧
      k.holds standardDatabase (fun _ _ => .text "axb-local") .missing = true) ∧
    RepoResolver.selects .matching "a_b*" "axb-local" = false := by
  obtain ⟨-, -, hboth, -, hrender⟩ := toLike_selects "a_b*"
  have hfits : fitsText "a_b*" "a_b-local" = true := by decide
  have hlike : LikeFits (toLike "a_b*") "axb-local" := likeFits_toLike (by decide)
  have hstandard : ∀ text p, standardDatabase.fits text p = true ↔ LikeFits p text := by
    intro text p
    simp [standardDatabase]
  obtain ⟨k, hk, hholds⟩ := hrender [.items] (.plain .nodes)
  obtain ⟨hiff, hselects⟩ :=
    hholds standardDatabase hstandard (fun _ _ => .text "axb-local") .missing "axb-local" rfl
  refine ⟨hfits, hboth _ hfits, ⟨k, hk, hiff.2 hlike⟩, ?_⟩
  rw [hselects]
  decide

/-- In `like` notation, `a_b` selects other texts than the pattern. -/
theorem not_toLike_underscore : '\n' ∉ "axb".toList ∧ LikeFits (toLike "a_b") "axb" ∧
    fitsText "a_b" "axb" = false ∧
    ¬ ∀ pattern text : String, '\n' ∉ text.toList →
      (LikeFits (toLike pattern) text ↔ fitsText pattern text = true) := by
  have hline : '\n' ∉ "axb".toList := by decide
  have hlike : LikeFits (toLike "a_b") "axb" := likeFits_toLike (by decide)
  have hfits : fitsText "a_b" "axb" = false := by decide
  refine ⟨hline, hlike, hfits, fun hagree => ?_⟩
  rw [(hagree "a_b" "axb" hline).1 hlike] at hfits
  cases hfits

end Wildcard

end ArtifactQuery
