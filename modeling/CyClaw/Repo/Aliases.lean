/-
The spellings that are folded together.

`fsEquivPath` drops the components that say nothing, takes the dots and spaces off the end of
each, then the format characters out of it, and folds its case.  It does not start over: a dot
that only a format character has kept from the end stays, and a component that comes to nothing
stays a component.  So what it makes is left as it is just where no component has come out so
(`fsEquivPath_idem_iff`).

`Alias` is one alteration of a path that the folding does not see, and `fsEquivPath_aliases`
says so of every run of them.  What is appended or put into a component must find one that says
something, and no format character may come to stand behind its trailing dots and spaces: `.`
with a dot is the parent directory.
-/
import CyClaw.Repo.Blocks

namespace CyClaw.Repo

open PyText

/-- What the tables say of every character. -/
structure Unicode.Lawful (u : Unicode) : Prop where
  /-- Case folding folds nothing it has made. -/
  folded : ∀ c, ∀ d ∈ u.casefold c, u.casefold d = [d]
  /-- It makes no separator, -/
  separator : ∀ c, ∀ d ∈ u.casefold c, d = '/' ∨ d = '\\' → d = c
  /-- and no format character. -/
  format : ∀ c, ∀ d ∈ u.casefold c, u.isFormat d = true → d = c
  plain : u.isFormat '.' = false ∧ u.isFormat ' ' = false

/-- A component without the dots and spaces at its end. -/
def trimmed (part : Text) : Text := rstripBy (fun c => c = '.' ∨ c = ' ') part

/-- A component that says something. -/
def Kept (part : Text) : Prop := part ≠ [] ∧ part ≠ ['.']

instance (part : Text) : Decidable (Kept part) := inferInstanceAs (Decidable (_ ∧ _))

def components (path : Text) : List Text := (slashes path).splitOn '/'

/-- Another spelling of a component. -/
inductive Respelled (u : Unicode) : Text → Text → Prop where
  /-- Letters in another case; one may stand for two. -/
  | recased (l r : Text) {s s' : Text} : s ≠ [] → s' ≠ [] →
      (∀ c ∈ s ++ s', c ≠ '.' ∧ c ≠ ' ' ∧ u.isFormat c = false) → s.flatMap u.casefold = s'.flatMap u.casefold →
      Respelled u (l ++ (s ++ r)) (l ++ (s' ++ r))
  /-- A dot or a space at the end. -/
  | trailed {part : Text} {c : Char} : Kept part → c = '.' ∨ c = ' ' → Respelled u part (part ++ [c])
  /-- A format character, but not where it keeps dots and spaces from the end. -/
  | formatted {l r : Text} {c : Char} : Kept (l ++ r) → u.isFormat c = true → trimmed l = l ∨ trimmed r ≠ [] →
      Respelled u (l ++ r) (l ++ ([c] ++ r))

/-- One alteration of a path. -/
inductive Alias (u : Unicode) : Text → Text → Prop where
  | separators {path path' : Text} : slashes path' = slashes path → Alias u path path'
  /-- An empty component, or a dot. -/
  | inserted {path path' part : Text} {xs ys : List Text} : ¬ Kept part → components path = xs ++ ys → components path' = xs ++ part :: ys →
      Alias u path path'
  | respelled {path path' part part' : Text} {xs ys : List Text} : Respelled u part part' → components path = xs ++ part :: ys →
      components path' = xs ++ part' :: ys → Alias u path path'

/-- Alterations one after the other. -/
abbrev Aliases (u : Unicode) : Text → Text → Prop := Relation.ReflTransGen (Alias u)

variable {u : Unicode} {path path' part part' : Text}

theorem parts_eq : parts path = (components path).filter (Kept ·) := rfl

theorem foldName_eq : foldName u part = ((trimmed part).filter fun c => !u.isFormat c).flatMap u.casefold := rfl

/-! ### What is left as it is -/

theorem mem_foldName {d : Char} (h : d ∈ foldName u part) : ∃ c ∈ part, u.isFormat c = false ∧ d ∈ u.casefold c := by
  obtain ⟨c, hc, hd⟩ := List.mem_flatMap.mp h
  obtain ⟨htrimmed, hformat⟩ := List.mem_filter.mp hc
  exact ⟨c, mem_of_mem_rstripBy htrimmed, by simpa using hformat, hd⟩

/-- No separator is in a folded component. -/
theorem foldName_separator (hu : u.Lawful) (hpart : part ∈ parts path) : '/' ∉ foldName u part ∧ '\\' ∉ foldName u part := by
  obtain ⟨-, -, hslash, hback⟩ := mem_parts hpart
  constructor
  · intro h
    obtain ⟨c, hc, -, hd⟩ := mem_foldName h
    rw [← hu.separator c '/' hd (.inl rfl)] at hc
    exact hslash hc
  · intro h
    obtain ⟨c, hc, -, hd⟩ := mem_foldName h
    rw [← hu.separator c '\\' hd (.inr rfl)] at hc
    exact hback hc

/-- Folding again only takes off what has come to the end. -/
theorem foldName_foldName (hu : u.Lawful) : foldName u (foldName u part) = trimmed (foldName u part) := by
  have hplain : ∀ d ∈ trimmed (foldName u part), u.isFormat d = false ∧ u.casefold d = [d] := by
    intro d hd
    obtain ⟨c, -, hformat, hfold⟩ := mem_foldName (mem_of_mem_rstripBy hd)
    refine ⟨?_, hu.folded c d hfold⟩
    by_contra h
    rw [Bool.not_eq_false] at h
    rw [hu.format c d hfold h, hformat] at h
    cases h
  have hfilter : (trimmed (foldName u part)).filter (fun d => !u.isFormat d) = trimmed (foldName u part) := by
    rw [List.filter_eq_self]
    intro d hd
    rw [(hplain d hd).1]
    rfl
  rw [foldName_eq, hfilter, List.flatMap_congr fun d hd => (hplain d hd).2, List.flatMap_singleton']

/-- The components as they are folded. -/
def folds (u : Unicode) (path : Text) : List Text := (parts path).map (foldName u)

theorem folds_separator (hu : u.Lawful) {f : Text} (hf : f ∈ folds u path) : '/' ∉ f ∧ '\\' ∉ f := by
  obtain ⟨part, hpart, rfl⟩ := List.mem_map.mp hf
  exact foldName_separator hu hpart

theorem components_join {fs : List Text} (hne : fs ≠ []) (h : ∀ f ∈ fs, '/' ∉ f ∧ '\\' ∉ f) : components (join fs) = fs := by
  have hback : '\\' ∉ join fs := by
    intro hc
    rcases mem_join hc with hc | ⟨f, hf, hc⟩
    · cases hc
    · exact (h f hf).2 hc
  rw [components, slashes_of_notMem hback]
  exact List.splitOn_intercalate '/' (fun f hf => (h f hf).1) hne

theorem fsEquivPath_fsEquivPath (hu : u.Lawful) (path : Text) :
    fsEquivPath u (fsEquivPath u path) = join (((folds u path).filter (Kept ·)).map trimmed) := by
  have hfsEquiv : fsEquivPath u path = join (folds u path) := rfl
  by_cases hnil : folds u path = []
  · rw [hfsEquiv, hnil]
    rfl
  · rw [hfsEquiv, fsEquivPath, parts_eq, components_join hnil fun f hf => folds_separator hu hf]
    refine congrArg join (List.map_congr_left ?_)
    intro f hf
    obtain ⟨part, -, rfl⟩ := List.mem_map.mp (List.mem_of_mem_filter hf)
    exact foldName_foldName hu

theorem map_eq_self {α : Type} {f : α → α} {l : List α} : l.map f = l ↔ ∀ a ∈ l, f a = a := by
  conv_lhs => rhs; rw [← List.map_id l]
  exact List.map_inj_left

theorem map_filter_eq_self {α : Type} {f : α → α} {q : α → Bool} {l : List α} :
    (l.filter q).map f = l ↔ ∀ a ∈ l, q a = true ∧ f a = a := by
  constructor
  · intro h
    have hlength := congrArg List.length h
    rw [List.length_map, List.length_filter_eq_length_iff] at hlength
    rw [List.filter_eq_self.mpr hlength, map_eq_self] at h
    exact fun a ha => ⟨hlength a ha, h a ha⟩
  · intro h
    rw [List.filter_eq_self.mpr fun a ha => (h a ha).1]
    exact map_eq_self.mpr fun a ha => (h a ha).2

theorem mem_trimmed {c : Char} (h : c ∈ trimmed part) : c ∈ part := mem_of_mem_rstripBy h

theorem join_injective {fs gs : List Text} (hf : fs ≠ []) (hg : gs ≠ []) (hfs : ∀ f ∈ fs, '/' ∉ f ∧ '\\' ∉ f)
    (hgs : ∀ g ∈ gs, '/' ∉ g ∧ '\\' ∉ g) (h : join fs = join gs) : fs = gs := by
  rw [← components_join hf hfs, h, components_join hg hgs]

/-- **What is folded once more is what it was just where no component has come out empty or
with a dot or a space at its end**, or where all there is has come to nothing. -/
theorem fsEquivPath_idem_iff (hu : u.Lawful) (path : Text) :
    fsEquivPath u (fsEquivPath u path) = fsEquivPath u path ↔
      folds u path = [[]] ∨ ∀ f ∈ folds u path, f ≠ [] ∧ trimmed f = f := by
  have hsep : ∀ f ∈ folds u path, '/' ∉ f ∧ '\\' ∉ f := fun f hf => folds_separator hu hf
  have hagain : ∀ g ∈ ((folds u path).filter (Kept ·)).map trimmed, '/' ∉ g ∧ '\\' ∉ g := by
    intro g hg
    obtain ⟨f, hf, rfl⟩ := List.mem_map.mp hg
    have hsep := hsep f (List.mem_of_mem_filter hf)
    exact ⟨fun hc => hsep.1 (mem_trimmed hc), fun hc => hsep.2 (mem_trimmed hc)⟩
  have hself : ((folds u path).filter (Kept ·)).map trimmed = folds u path ↔ ∀ f ∈ folds u path, f ≠ [] ∧ trimmed f = f := by
    rw [map_filter_eq_self]
    refine forall₂_congr fun f _ => ?_
    rw [decide_eq_true_eq]
    constructor
    · exact fun h => ⟨h.1.1, h.2⟩
    · rintro ⟨hne, htrimmed⟩
      refine ⟨⟨hne, ?_⟩, htrimmed⟩
      rintro rfl
      cases htrimmed
  rw [fsEquivPath_fsEquivPath hu, ← hself]
  show join _ = join (folds u path) ↔ _
  constructor
  · intro h
    by_cases hnone : folds u path = []
    · rw [hnone]
      exact .inr rfl
    by_cases hgone : ((folds u path).filter (Kept ·)).map trimmed = []
    · -- Nothing is kept, so what there was is one component that has come to nothing.
      left
      rw [hgone] at h
      have hcomponents := components_join hnone hsep
      rw [← h] at hcomponents
      exact hcomponents.symm
    · exact .inr (join_injective hgone hnone hagain hsep h)
  · rintro (h | h)
    · rw [h]
      rfl
    · rw [h]

/-! ### What the folding does not see -/

theorem trimmed_append (l r : Text) : trimmed (l ++ r) = if trimmed r = [] then trimmed l else l ++ trimmed r :=
  rstripBy_append _ l r

/-- Nothing is taken off beyond a text that has no dot and no space in it. -/
theorem trimmed_across {s : Text} (hne : s ≠ []) (hs : ∀ c ∈ s, c ≠ '.' ∧ c ≠ ' ') (l r : Text) :
    trimmed (l ++ (s ++ r)) = l ++ (s ++ trimmed r) := by
  have hself : trimmed s = s := List.rdropWhile_eq_self_iff.mpr fun h hlast => by
    obtain ⟨hdot, hspace⟩ := hs _ (List.getLast_mem h)
    exact (of_decide_eq_true hlast).elim hdot hspace
  have hright : trimmed (s ++ r) = s ++ trimmed r := by
    rw [trimmed_append]
    split
    · rename_i hr
      rw [hself, hr, List.append_nil]
    · rfl
  rw [trimmed_append, hright, if_neg fun h => hne (List.append_eq_nil_iff.mp h).1]

theorem kept_of_mem {c : Char} (hc : c ∈ part) (hdot : c ≠ '.') : Kept part := by
  refine ⟨List.ne_nil_of_mem hc, ?_⟩
  rintro rfl
  exact hdot (List.mem_singleton.mp hc)

theorem Unicode.Lawful.format_plain (hu : u.Lawful) {c : Char} (hc : u.isFormat c = true) : c ≠ '.' ∧ c ≠ ' ' := by
  constructor
  · rintro rfl
    rw [hu.plain.1] at hc
    cases hc
  · rintro rfl
    rw [hu.plain.2] at hc
    cases hc

/-- **A spelling folds to what the component folds to.** -/
theorem Respelled.foldName (hu : u.Lawful) (h : Respelled u part part') :
    Kept part ∧ Kept part' ∧ foldName u part' = foldName u part := by
  cases h with
  | @recased l r s s' hne hne' hletters hfold =>
      have hs : ∀ c ∈ s, c ≠ '.' ∧ c ≠ ' ' ∧ u.isFormat c = false := fun c hc => hletters c (List.mem_append_left _ hc)
      have hs' : ∀ c ∈ s', c ≠ '.' ∧ c ≠ ' ' ∧ u.isFormat c = false := fun c hc => hletters c (List.mem_append_right _ hc)
      have hkept : ∀ t : Text, t ≠ [] → (∀ c ∈ t, c ≠ '.' ∧ c ≠ ' ' ∧ u.isFormat c = false) → Kept (l ++ (t ++ r)) := by
        intro t ht hplain
        obtain ⟨c, hc⟩ := List.exists_mem_of_ne_nil t ht
        exact kept_of_mem (List.mem_append_right _ (List.mem_append_left _ hc)) (hplain c hc).1
      have hfilter : ∀ t : Text, (∀ c ∈ t, c ≠ '.' ∧ c ≠ ' ' ∧ u.isFormat c = false) → (t.filter fun c => !u.isFormat c) = t := by
        intro t hplain
        rw [List.filter_eq_self]
        intro c hc
        rw [(hplain c hc).2.2]
        rfl
      refine ⟨hkept s hne hs, hkept s' hne' hs', ?_⟩
      rw [foldName_eq, foldName_eq, trimmed_across hne fun c hc => ⟨(hs c hc).1, (hs c hc).2.1⟩,
        trimmed_across hne' fun c hc => ⟨(hs' c hc).1, (hs' c hc).2.1⟩]
      simp only [List.filter_append, List.flatMap_append, hfilter s hs, hfilter s' hs', hfold]
  | @trailed _ c hkept hc =>
      refine ⟨hkept, ⟨by simp, ?_⟩, ?_⟩
      · intro heq
        rw [← List.nil_append ['.']] at heq
        exact hkept.1 (List.append_inj' heq rfl).1
      · have htrimmed : trimmed (part ++ [c]) = trimmed part := List.rdropWhile_concat_pos _ _ _ (decide_eq_true hc)
        rw [foldName_eq, htrimmed]
        rfl
  | @formatted l r c hkept hc hplace =>
      obtain ⟨hdot, hspace⟩ := hu.format_plain hc
      refine ⟨hkept, kept_of_mem (List.mem_append_right _ List.mem_cons_self) hdot, ?_⟩
      have hgone : ([c].filter fun d => !u.isFormat d) = [] := by
        rw [List.filter_singleton, hc]
        rfl
      have hbare : trimmed (l ++ r) = l ++ trimmed r := by
        rw [trimmed_append]
        split
        · rename_i hr
          rcases hplace with hl | hr'
          · rw [hl, hr, List.append_nil]
          · exact absurd hr hr'
        · rfl
      have hput : trimmed (l ++ ([c] ++ r)) = l ++ ([c] ++ trimmed r) :=
        trimmed_across (List.cons_ne_nil c []) (fun d hd => List.mem_singleton.mp hd ▸ ⟨hdot, hspace⟩) l r
      rw [foldName_eq, foldName_eq, hput, hbare, List.filter_append, List.filter_append, hgone, List.nil_append, List.filter_append]

theorem Alias.fsEquivPath (hu : u.Lawful) (h : Alias u path path') : fsEquivPath u path' = fsEquivPath u path := by
  unfold Repo.fsEquivPath
  cases h with
  | separators h => rw [parts_eq, parts_eq, components, components, h]
  | inserted hkept hpath hpath' =>
      rw [parts_eq, parts_eq, hpath, hpath', List.filter_append, List.filter_append,
        List.filter_cons_of_neg (by rwa [decide_eq_true_eq])]
  | respelled h hpath hpath' =>
      obtain ⟨hkept, hkept', hfold⟩ := h.foldName hu
      rw [parts_eq, parts_eq, hpath, hpath', List.filter_append, List.filter_append,
        List.filter_cons, List.filter_cons, if_pos (decide_eq_true hkept), if_pos (decide_eq_true hkept'), List.map_append, List.map_append, List.map_cons, List.map_cons, hfold]

theorem fsEquivPath_aliases (hu : u.Lawful) (h : Aliases u path path') : fsEquivPath u path' = fsEquivPath u path := by
  induction h with
  | refl => rfl
  | tail _ step ih => rw [step.fsEquivPath hu, ih]

/-! ### What is asked of it -/

theorem fsEquivPath_destination (u : Unicode) (raw : Text) : fsEquivPath u (destination raw) = fsEquivPath u raw := by
  unfold destination
  cases hraw : canonicalRepoPath raw with
  | none => rfl
  | some path =>
      rw [Option.getD_some, (canonicalRepoPath_eq hraw).1]
      exact congrArg (fun ps => join (ps.map (foldName u))) parts_join

/-- Blocks whose paths are spelled otherwise have the same keys. -/
theorem keys_aliases (hu : u.Lawful) {blocks blocks' : List (Text × Text)}
    (h : List.Forall₂ (fun b b' => Aliases u (strip b.1) (strip b'.1)) blocks blocks') :
    keys u (blocks'.map filed) = keys u (blocks.map filed) := by
  induction h with
  | nil => rfl
  | @cons b b' _ _ hb _ ih =>
      have hkey : fsEquivPath u (filed b').1 = fsEquivPath u (filed b).1 := by
        rw [filed, filed, fsEquivPath_destination, fsEquivPath_destination, fsEquivPath_aliases hu hb]
      simp only [keys, List.map_cons, hkey] at ih ⊢
      rw [ih]

theorem isSome_collectBlocks (u : Unicode) (blocks : List (Text × Text)) :
    (collectBlocks u [] blocks).isSome = decide (keys u (blocks.map filed)).Nodup := by
  have heq := @collectBlocks_eq u [] List.nodup_nil blocks
  rw [heq, List.nil_append]
  split
  · rename_i h
    exact (decide_eq_true h).symm
  · rename_i h
    exact (decide_eq_false h).symm

/-- **The folding, the protected paths and the check for double destinations see one file in
all its spellings.** -/
theorem fsEquivPath_canonical (hu : u.Lawful) :
    (∀ path, fsEquivPath u (fsEquivPath u path) = fsEquivPath u path ↔
        folds u path = [[]] ∨ ∀ f ∈ folds u path, f ≠ [] ∧ trimmed f = f) ∧
      (∀ path path', Aliases u path path' →
        fsEquivPath u path' = fsEquivPath u path ∧
          ∀ prefixes, matchesProtectedPath u path' prefixes = matchesProtectedPath u path prefixes) ∧
      ∀ blocks blocks', List.Forall₂ (fun b b' => Aliases u (strip b.1) (strip b'.1)) blocks blocks' →
        (collectBlocks u [] blocks').isSome = (collectBlocks u [] blocks).isSome := by
  refine ⟨fsEquivPath_idem_iff hu, fun path path' h => ?_, fun blocks blocks' h => ?_⟩
  · have hpath := fsEquivPath_aliases hu h
    refine ⟨hpath, fun prefixes => ?_⟩
    unfold matchesProtectedPath
    rw [hpath]
  · rw [isSome_collectBlocks, isSome_collectBlocks, keys_aliases hu h]

/-! Names in ASCII, with one format character. -/

def asciiNames : Unicode := ⟨fun c => c = '\u200d', fun c => [c.toLower]⟩

theorem toLower_eq {c d : Char} (h : c.toLower = d) (hd : ¬ (97 ≤ d.toNat ∧ d.toNat ≤ 122)) : d = c := by
  have hn := toNat_toLower c
  rw [h] at hn
  split at hn
  · omega
  · exact Char.toNat_inj.mp hn

theorem asciiNames_lawful : asciiNames.Lawful where
  folded := by
    intro c d hd
    obtain rfl := List.mem_singleton.mp hd
    refine congrArg (fun x => [x]) (Char.toNat_inj.mp ?_)
    rw [toNat_toLower, toNat_toLower]
    split
    · rw [if_neg (by omega)]
    · rfl
  separator := by
    intro c d hd hsep
    refine toLower_eq (List.mem_singleton.mp hd).symm ?_
    rcases hsep with rfl | rfl <;> decide
  format := by
    intro c d hd hformat
    obtain rfl := of_decide_eq_true hformat
    exact toLower_eq (List.mem_singleton.mp hd).symm (by decide)
  plain := ⟨rfl, rfl⟩

theorem aliases_sample : Aliases asciiNames "tests/a.py".toList "Tests\\./a.py.".toList := by
  have hletter : Respelled asciiNames "tests".toList "Tests".toList :=
    .recased [] "ests".toList (List.cons_ne_nil 't' []) (List.cons_ne_nil 'T' []) (by decide) (by decide)
  have hcase : Alias asciiNames "tests/a.py".toList "Tests/a.py".toList :=
    @Alias.respelled _ _ _ _ _ [] ["a.py".toList] hletter (by decide) (by decide)
  have hdot : Alias asciiNames "Tests/a.py".toList "Tests/./a.py".toList :=
    @Alias.inserted _ _ _ ['.'] ["Tests".toList] ["a.py".toList] (by decide) (by decide) (by decide)
  have hname : Respelled asciiNames "a.py".toList "a.py.".toList := .trailed (by decide) (.inl rfl)
  have hend : Alias asciiNames "Tests/./a.py".toList "Tests/./a.py.".toList :=
    @Alias.respelled _ _ _ _ _ ["Tests".toList, ['.']] [] hname (by decide) (by decide)
  exact (((Relation.ReflTransGen.single hcase).tail hdot).tail hend).tail (.separators (by decide))

theorem fsEquivPath_canonical_sample :
    matchesProtectedPath asciiNames "Tests\\./a.py.".toList ["tests/".toList] =
      matchesProtectedPath asciiNames "tests/a.py".toList ["tests/".toList] :=
  ((fsEquivPath_canonical asciiNames_lawful).2.1 _ _ aliases_sample).2 _

/-- **A dot behind which a format character stood goes in the second round; `.` with a dot is
another directory; and a format character behind the dot of a name keeps it.** -/
theorem uncovered :
    fsEquivPath asciiNames (fsEquivPath asciiNames "a.\u200d".toList) ≠ fsEquivPath asciiNames "a.\u200d".toList ∧
      fsEquivPath asciiNames "../a".toList ≠ fsEquivPath asciiNames "./a".toList ∧
      fsEquivPath asciiNames "a.\u200d".toList ≠ fsEquivPath asciiNames "a.".toList := by
  decide

end CyClaw.Repo
