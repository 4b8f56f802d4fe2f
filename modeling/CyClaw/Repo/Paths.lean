/-
The names of files in a clone.

A planner spells a path as it likes.  `canonicalRepoPath` is the spelling the writer goes
by, `fsEquivPath` folds together the spellings a case-insensitive file system opens as one
file, and `splitComponents` is the stricter reading of the jail the files are read through.
What the rest of the development uses is how these agree: a canonical path is its components
joined (`canonicalRepoPath_eq`, `parts_join`), so reading it once more changes nothing
(`canonicalRepoPath_idem`), and where the jail reads a path at all it reads the components
the writer goes by (`splitComponents_parts`).
-/
import CyClaw.Lib.PyText

namespace CyClaw.Repo

open PyText

abbrev Text := List Char

/-- What the interpreter's Unicode tables say: which characters are of category `Cf`, and
the case folding of each. -/
structure Unicode where
  isFormat : Char → Bool
  casefold : Char → Text

/-- `path.replace("\\", "/")`. -/
def slashes (path : Text) : Text := path.map fun c => if c = '\\' then '/' else c

/-- The components of a path that say something. -/
def parts (path : Text) : List Text := ((slashes path).splitOn '/').filter fun p => p ≠ [] ∧ p ≠ ['.']

def join (ps : List Text) : Text := ['/'].intercalate ps

/-- `PureWindowsPath(target).is_absolute()`, the spellings that start with a separator left
out: those are refused before this is asked. -/
def windowsAbsolute : Text → Bool
  | _ :: ':' :: c :: _ => c = '\\' ∨ c = '/'
  | _ => false

/-- `canonical_repo_path`. -/
def canonicalRepoPath (target : Text) : Option Text :=
  if target = [] ∨ '\x00' ∈ target then none
  else if ['/'].isPrefixOf (slashes target) ∨ ['-'].isPrefixOf (slashes target) ∨ windowsAbsolute target then none
  else if parts target = [] ∨ (parts target).any (fun p => p = ['.', '.'] ∨ ':' ∈ p) then none
  else some (join (parts target))

/-- A component as the file systems that fold names see it. -/
def foldName (u : Unicode) (part : Text) : Text :=
  ((rstripBy (fun c => c = '.' ∨ c = ' ') part).filter fun c => !u.isFormat c).flatMap u.casefold

/-- `_NTFS_DOTGIT_RE` of a folded name: `git~1` and the like, with or without the dot.  To
the expression a dotless `i` is an `i` too. -/
def ntfsDotgit (name : Text) : Bool :=
  match if ['.'].isPrefixOf name then name.drop 1 else name with
  | 'g' :: i :: 't' :: '~' :: digits => (i = 'i' ∨ i = 'ı') && digits ≠ [] && digits.all Char.isDigit
  | _ => false

/-- `_is_dotgit_name`. -/
def isDotgitName (u : Unicode) (part : Text) : Bool :=
  let folded := foldName u part
  folded = ".git".toList || ntfsDotgit folded

/-- `_fs_equiv_path`. -/
def fsEquivPath (u : Unicode) (path : Text) : Text := join ((parts path).map (foldName u))

/-- Whether a path falls under one protected entry. -/
def underProtected (u : Unicode) (path pref : Text) : Bool :=
  let isDir := ['/'].isSuffixOf pref
  let prefN := fsEquivPath u (if isDir then rstripBy (· = '/') pref else pref)
  if prefN = [] then false
  else if isDir then path = prefN || (prefN ++ ['/']).isPrefixOf path
  else path = prefN || ('/' :: prefN).isSuffixOf path

/-- `_matches_protected_path`. -/
def matchesProtectedPath (u : Unicode) (path : Text) (protectedPrefixes : List Text) : Bool :=
  let pathN := fsEquivPath u path
  if pathN = [] then false else protectedPrefixes.any (underProtected u pathN)

/-- A component the jail does not take: one that ends in a dot or a space. -/
def trails (part : Text) : Bool := part ≠ rstripBy (fun c => c = ' ' ∨ c = '.') part

/-- `split_components`, `none` where it raises. -/
def splitComponents (target : Text) : Option (List Text) :=
  if '\x00' ∈ target then none
  else if target = [] ∨ target = ['.'] then some []
  else if "\\\\".toList.isPrefixOf target ∨ "//".toList.isPrefixOf target then none
  else if ['/'].isPrefixOf target then none
  else if contains "\\\\?\\".toList target ∨ contains "\\\\.\\".toList target then none
  else if (parts target).any (fun p => p = ['.', '.'] ∨ ':' ∈ p ∨ trails p) then none
  else some (parts target)

/-! ### How the readings agree -/

theorem mem_parts {path p : Text} (h : p ∈ parts path) : p ≠ [] ∧ p ≠ ['.'] ∧ '/' ∉ p ∧ '\\' ∉ p := by
  obtain ⟨hsplit, hp⟩ := List.mem_filter.mp h
  obtain ⟨hnil, hdot⟩ := of_decide_eq_true hp
  refine ⟨hnil, hdot, ?_, ?_⟩
  · intro hc
    exact (mem_splitOn hsplit hc).2 rfl
  · intro hc
    obtain ⟨d, -, hd⟩ := List.mem_map.mp (mem_splitOn hsplit hc).1
    split at hd
    · cases hd
    · contradiction

theorem slashes_of_notMem {path : Text} (h : '\\' ∉ path) : slashes path = path := by
  unfold slashes
  conv_rhs => rw [← List.map_id path]
  refine List.map_congr_left ?_
  intro c hc
  have hne : c ≠ '\\' := fun heq => h (heq ▸ hc)
  exact if_neg hne

theorem mem_join {ps : List Text} {c : Char} (h : c ∈ join ps) : c = '/' ∨ ∃ p ∈ ps, c ∈ p :=
  (mem_intercalate h).imp_left List.mem_singleton.mp

/-- **Joined components split into themselves.** -/
theorem parts_join {path : Text} : parts (join (parts path)) = parts path := by
  by_cases hnil : parts path = []
  · rw [hnil]
    decide
  · have hslash : '\\' ∉ join (parts path) := by
      intro hc
      rcases mem_join hc with h | ⟨p, hp, hc⟩
      · cases h
      · exact (mem_parts hp).2.2.2 hc
    have hsplit := List.splitOn_intercalate '/' (fun p hp => (mem_parts hp).2.2.1) hnil
    rw [parts, slashes_of_notMem hslash, join, hsplit, List.filter_eq_self]
    intro p hp
    exact decide_eq_true ⟨(mem_parts hp).1, (mem_parts hp).2.1⟩

/-- A path under a path. -/
theorem parts_under (path rest : Text) : parts (path ++ '/' :: rest) = parts path ++ parts rest := by
  have hslashes : slashes (path ++ '/' :: rest) = slashes path ++ '/' :: slashes rest := by
    unfold slashes
    rw [List.map_append, List.map_cons, if_neg (by decide)]
  unfold parts
  rw [hslashes, List.splitOn_append_cons_self, List.filter_append]

theorem canonicalRepoPath_eq {target path : Text} (h : canonicalRepoPath target = some path) :
    path = join (parts target) ∧ parts target ≠ [] ∧
      ∀ p ∈ parts target, p ≠ ['.', '.'] ∧ ':' ∉ p := by
  unfold canonicalRepoPath at h
  split at h
  · cases h
  · split at h
    · cases h
    · split at h
      · cases h
      · rename_i hparts
        rw [Option.some.injEq] at h
        refine ⟨h.symm, fun hnil => hparts (.inl hnil), ?_⟩
        intro p hp
        constructor
        · intro heq
          exact hparts (.inr (List.any_eq_true.mpr ⟨p, hp, decide_eq_true (.inl heq)⟩))
        · intro hc
          exact hparts (.inr (List.any_eq_true.mpr ⟨p, hp, decide_eq_true (.inr hc)⟩))

/-- A canonical path the writer takes is the path it goes by.  It need not take one: a
canonical path may start with a dash, where a dot stood before it in the spelling. -/
theorem canonicalRepoPath_idem {target path path' : Text} (h : canonicalRepoPath target = some path)
    (h' : canonicalRepoPath path = some path') : path' = path := by
  obtain ⟨heq, -⟩ := canonicalRepoPath_eq h
  obtain ⟨heq', -⟩ := canonicalRepoPath_eq h'
  rw [heq', heq, parts_join]

theorem splitComponents_parts {target : Text} {comps : List Text} (h : splitComponents target = some comps) :
    comps = parts target := by
  unfold splitComponents at h
  split at h
  · cases h
  · split at h
    · rename_i hroot
      rw [Option.some.injEq] at h
      rw [← h]
      rcases hroot with rfl | rfl <;> decide
    · simp only [Option.ite_none_left_eq_some, Option.some.injEq] at h
      exact h.2.2.2.2.symm

/-- The jail reads every canonical path but one with a component that ends in a dot or a
space. -/
theorem splitComponents_of_canonical {path : Text} (h : canonicalRepoPath path = some path)
    (htrails : (parts path).all (!trails ·) = true) : splitComponents path = some (parts path) := by
  obtain ⟨heq, hne, hparts⟩ := canonicalRepoPath_eq h
  have hslash : '\\' ∉ path := by
    intro hc
    rw [heq] at hc
    rcases mem_join hc with hc | ⟨p, hp, hc⟩
    · cases hc
    · exact (mem_parts hp).2.2.2 hc
  have hback : ∀ p, '\\' ∈ p → ¬ p <:+: path := fun p hp hsub => hslash (hsub.subset hp)
  have hnul : path ≠ [] ∧ '\x00' ∉ path ∧ ¬ ['/'].isPrefixOf path = true := by
    unfold canonicalRepoPath at h
    rw [slashes_of_notMem hslash] at h
    split at h
    · cases h
    · rename_i hnul
      split at h
      · cases h
      · rename_i habs
        exact ⟨fun h => hnul (.inl h), fun h => hnul (.inr h), fun h => habs (.inl h)⟩
  unfold splitComponents
  rw [if_neg hnul.2.1, if_neg, if_neg, if_neg hnul.2.2, if_neg, if_neg]
  · intro hany
    obtain ⟨p, hp, hbad⟩ := List.any_eq_true.mp hany
    have htrail := List.all_eq_true.mp htrails p hp
    rcases of_decide_eq_true hbad with hdots | hcolon | htrailing
    · exact (hparts p hp).1 hdots
    · exact (hparts p hp).2 hcolon
    · rw [htrailing] at htrail
      cases htrail
  · rintro (hc | hc)
    · exact hback _ (by decide) (contains_iff.mp hc)
    · exact hback _ (by decide) (contains_iff.mp hc)
  · rintro (hc | hc)
    · exact hback _ (by decide) (List.isPrefixOf_iff_prefix.mp hc).isInfix
    · refine hnul.2.2 (List.isPrefixOf_iff_prefix.mpr ?_)
      exact (List.prefix_append ['/'] ['/']).trans (List.isPrefixOf_iff_prefix.mp hc)
  · rintro (hc | hc)
    · exact hnul.1 hc
    · exact hne (by rw [hc]; decide)

end CyClaw.Repo
