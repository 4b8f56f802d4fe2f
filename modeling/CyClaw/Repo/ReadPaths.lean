/-
The read paths of a real-repo run.

The control plane may not import the jail, so it has a copy of the writer's rule
(`canonicalRepoRelativePath`) with one rule of the reader's added.  All three go by the same
components, and differ in what they refuse: `canonicalRepoPath_eq_some_iff` and the two beside it
say it of each.  The reader also refuses a text with the prefix of a Windows device anywhere in it,
which the copy does not, so a path can be confirmed that the reader then leaves out
(`device_path_confirmed`).  On every other path they agree (`read_paths_agree_iff`).
-/
import CyClaw.Repo.Paths

namespace CyClaw.Repo

open PyText

/-- `canonical_repo_relative_path`. -/
def canonicalRepoRelativePath (target : Text) : Option Text :=
  if target = [] ∨ '\x00' ∈ target then none
  else if ['/'].isPrefixOf (slashes target) ∨ ['-'].isPrefixOf (slashes target) ∨ windowsAbsolute target then none
  else if parts target = [] ∨ (parts target).any (fun p => p = ['.', '.'] ∨ ':' ∈ p ∨ trails p) then none
  else some (join (parts target))

/-- What the writer takes. -/
structure Clean (target : Text) : Prop where
  nul : '\x00' ∉ target
  leads : ∀ c, target.head? = some c → c ≠ '/' ∧ c ≠ '\\' ∧ c ≠ '-'
  named : parts target ≠ []
  sound : ∀ p ∈ parts target, p ≠ ['.', '.'] ∧ ':' ∉ p

/-- No component ends in a dot or a space. -/
def Untrailed (target : Text) : Prop := ∀ p ∈ parts target, trails p = false

/-- The prefix of a Windows device stands somewhere in the text. -/
def NamesDevice (target : Text) : Prop := "\\\\?\\".toList <:+: target ∨ "\\\\.\\".toList <:+: target

/-- The control plane accepts what the writer and the reader both do, as the path they go by. -/
structure ReadPathsAgree (target : Text) : Prop where
  accepts : (canonicalRepoRelativePath target).isSome = true ↔
    (canonicalRepoPath target).isSome = true ∧ ∃ comps, splitComponents target = some comps ∧ comps ≠ []
  same : ∀ path, canonicalRepoRelativePath target = some path →
    canonicalRepoPath target = some path ∧ ∃ comps, splitComponents target = some comps ∧ path = join comps

variable {target path : Text}

/-! ### What each of them takes -/

/-- A character that is no separator and no dot is in some component. -/
theorem exists_part {c : Char} (h : c ∈ target) (hslash : c ≠ '/') (hback : c ≠ '\\') (hdot : c ≠ '.') :
    ∃ p ∈ parts target, c ∈ p := by
  have hmem : c ∈ ((slashes target).splitOnP (· == '/')).flatten := by
    rw [flatten_splitOnP, List.mem_filter, slashes, List.mem_map]
    exact ⟨⟨c, h, if_neg hback⟩, by simpa using hslash⟩
  obtain ⟨p, hp, hc⟩ := List.mem_flatten.mp hmem
  refine ⟨p, List.mem_filter.mpr ⟨hp, decide_eq_true ⟨?_, ?_⟩⟩, hc⟩
  · rintro rfl
    cases hc
  · rintro rfl
    exact hdot (List.mem_singleton.mp hc)

theorem colon_of_windowsAbsolute (h : windowsAbsolute target = true) : ∃ p ∈ parts target, ':' ∈ p := by
  unfold windowsAbsolute at h
  split at h
  · exact exists_part (by simp) (by decide) (by decide) (by decide)
  · cases h

/-- The first character, as the checks look at it. -/
theorem leads_iff : (∀ c, target.head? = some c → c ≠ '/' ∧ c ≠ '\\' ∧ c ≠ '-') ↔
    ¬ (['/'].isPrefixOf (slashes target) = true ∨ ['-'].isPrefixOf (slashes target) = true) := by
  cases target with
  | nil => simp [slashes]
  | cons c cs =>
    simp only [List.head?_cons, Option.some.injEq, forall_eq', slashes, List.map_cons, List.isPrefixOf, Bool.and_true,
      beq_iff_eq]
    split <;> grind

theorem clean_iff : Clean target ↔
    ¬ (target = [] ∨ '\x00' ∈ target) ∧
      ¬ (['/'].isPrefixOf (slashes target) = true ∨ ['-'].isPrefixOf (slashes target) = true ∨
        windowsAbsolute target = true) ∧
      parts target ≠ [] ∧ ∀ p ∈ parts target, p ≠ ['.', '.'] ∧ ':' ∉ p := by
  constructor
  · intro h
    refine ⟨?_, ?_, h.named, h.sound⟩
    · rintro (rfl | hnul)
      · exact h.named (by decide)
      · exact h.nul hnul
    · rintro (hslash | hdash | habs)
      · exact leads_iff.mp h.leads (Or.inl hslash)
      · exact leads_iff.mp h.leads (Or.inr hdash)
      · obtain ⟨p, hp, hcolon⟩ := colon_of_windowsAbsolute habs
        exact (h.sound p hp).2 hcolon
  · rintro ⟨hnul, hleads, hnamed, hsound⟩
    refine ⟨fun h => hnul (Or.inr h), leads_iff.mpr ?_, hnamed, hsound⟩
    rintro (hslash | hdash)
    · exact hleads (Or.inl hslash)
    · exact hleads (Or.inr (Or.inl hdash))

theorem canonicalRepoPath_eq_some_iff : canonicalRepoPath target = some path ↔ Clean target ∧ path = join (parts target) := by
  rw [clean_iff, canonicalRepoPath]
  simp only [Option.ite_none_left_eq_some, Option.some.injEq, List.any_eq_true, decide_eq_true_eq]
  grind

theorem canonicalRepoRelativePath_eq_some_iff :
    canonicalRepoRelativePath target = some path ↔ (Clean target ∧ Untrailed target) ∧ path = join (parts target) := by
  rw [clean_iff, Untrailed, canonicalRepoRelativePath]
  simp only [Option.ite_none_left_eq_some, Option.some.injEq, List.any_eq_true, decide_eq_true_eq]
  grind

theorem splitComponents_eq_some_iff (h : Clean target) {comps : List Text} :
    splitComponents target = some comps ↔ (Untrailed target ∧ ¬ NamesDevice target) ∧ comps = parts target := by
  have hroot : ¬ (target = [] ∨ target = ['.']) := by
    rintro (rfl | rfl)
    · exact h.named (by decide)
    · exact h.named (by decide)
  have hfirst : ∀ {c : Char} {rest : Text}, (c = '/' ∨ c = '\\') → (c :: rest).isPrefixOf target ≠ true := by
    intro c rest hc hprefix
    obtain ⟨tail, rfl⟩ := List.isPrefixOf_iff_prefix.mp hprefix
    obtain ⟨hslash, hback, -⟩ := h.leads c rfl
    exact hc.elim hslash hback
  have hunc : ¬ ("\\\\".toList.isPrefixOf target = true ∨ "//".toList.isPrefixOf target = true) := by
    rintro (hc | hc)
    · exact hfirst (Or.inr rfl) hc
    · exact hfirst (Or.inl rfl) hc
  have htrails : (parts target).any (fun p => p = ['.', '.'] ∨ ':' ∈ p ∨ trails p) = true ↔ ¬ Untrailed target := by
    have hsound := h.sound
    simp only [Untrailed, List.any_eq_true, decide_eq_true_eq]
    grind
  rw [splitComponents, if_neg h.nul, if_neg hroot, if_neg hunc, if_neg (hfirst (Or.inl rfl))]
  simp only [Option.ite_none_left_eq_some, Option.some.injEq, contains_iff, htrails, not_not, NamesDevice]
  grind

/-! ### Where they agree -/

/-- **The control plane and the jail agree** on a path, unless the path holds the prefix of a
Windows device and nothing else is wrong with it. -/
theorem read_paths_agree_iff (target : Text) :
    ReadPathsAgree target ↔ (Clean target → Untrailed target → ¬ NamesDevice target) := by
  constructor
  · intro hagree hclean huntrailed hdevice
    have hconfirmed := canonicalRepoRelativePath_eq_some_iff.mpr ⟨⟨hclean, huntrailed⟩, rfl⟩
    obtain ⟨-, comps, hread, -⟩ := hagree.same _ hconfirmed
    exact ((splitComponents_eq_some_iff hclean).mp hread).1.2 hdevice
  · intro hfree
    have hsame : ∀ path, canonicalRepoRelativePath target = some path →
        canonicalRepoPath target = some path ∧ splitComponents target = some (parts target) ∧
          parts target ≠ [] ∧ path = join (parts target) := by
      intro path hpath
      obtain ⟨⟨hclean, huntrailed⟩, rfl⟩ := canonicalRepoRelativePath_eq_some_iff.mp hpath
      have hread := (splitComponents_eq_some_iff hclean).mpr ⟨⟨huntrailed, hfree hclean huntrailed⟩, rfl⟩
      exact ⟨canonicalRepoPath_eq_some_iff.mpr ⟨hclean, rfl⟩, hread, hclean.named, rfl⟩
    refine ⟨⟨?_, ?_⟩, ?_⟩
    · intro hsome
      obtain ⟨path, hpath⟩ := Option.isSome_iff_exists.mp hsome
      obtain ⟨hwrite, hread, hne, -⟩ := hsame path hpath
      exact ⟨Option.isSome_iff_exists.mpr ⟨path, hwrite⟩, _, hread, hne⟩
    · rintro ⟨hwrite, comps, hread, -⟩
      obtain ⟨path, hpath⟩ := Option.isSome_iff_exists.mp hwrite
      obtain ⟨hclean, rfl⟩ := canonicalRepoPath_eq_some_iff.mp hpath
      obtain ⟨⟨huntrailed, -⟩, -⟩ := (splitComponents_eq_some_iff hclean).mp hread
      exact Option.isSome_iff_exists.mpr
        ⟨_, canonicalRepoRelativePath_eq_some_iff.mpr ⟨⟨hclean, huntrailed⟩, rfl⟩⟩
    · intro path hpath
      obtain ⟨hwrite, hread, -, hjoin⟩ := hsame path hpath
      exact ⟨hwrite, _, hread, hjoin⟩

/-- **A path is confirmed that the reader leaves out**: `docs\\?\notes.md`. -/
theorem device_path_confirmed :
    ¬ ['-'].isPrefixOf "docs\\\\?\\notes.md".toList ∧
      canonicalRepoRelativePath "docs\\\\?\\notes.md".toList = some "docs/?/notes.md".toList ∧
      canonicalRepoPath "docs\\\\?\\notes.md".toList = some "docs/?/notes.md".toList ∧
      splitComponents "docs\\\\?\\notes.md".toList = none ∧
      ¬ ReadPathsAgree "docs\\\\?\\notes.md".toList := by
  have hread : splitComponents "docs\\\\?\\notes.md".toList = none := by decide +kernel
  have hconfirmed : canonicalRepoRelativePath "docs\\\\?\\notes.md".toList = some "docs/?/notes.md".toList := by
    decide +kernel
  refine ⟨by decide, hconfirmed, by decide +kernel, hread, ?_⟩
  intro hagree
  obtain ⟨-, comps, hcomps, -⟩ := hagree.same _ hconfirmed
  rw [hread] at hcomps
  cases hcomps

end CyClaw.Repo
