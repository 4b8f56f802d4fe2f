/-
What reciprocal rank fusion returns.

`hybrid_search` keeps the scores, the ranks of each leg and the hits in dictionaries of their own
and joins them again after the sort.  Where no leg names a chunk twice, that gives every chunk of
either leg once, with the sum of what its ranks are worth, the best one first and the ones that are
worth the same in the order in which they were seen (`fusion_exact`).

The scores are followed by what they give a key (`scoreOf`) and by the keys in their order, which
are those of the hits without the ones that come again (`firstSeen`).
-/
import CyClaw.Lib.StableSort
import CyClaw.Retrieval.HybridSearch

namespace CyClaw.Retrieval

/-- The legs put together, whatever they have found. -/
def combine (settings : RetrievalSettings) (semanticHits keywordHits : List SearchResult) : List SearchResult :=
  if semanticHits.isEmpty then normalizeSinglePath settings keywordHits
  else if keywordHits.isEmpty then semanticHits
  else fuse settings semanticHits keywordHits

theorem hybridSearch_eq_combine (settings : RetrievalSettings) {x : Index} (answers : Answers x) (bm25 : Bm25) :
    hybridSearch settings answers bm25 =
      combine settings (semanticSearch (answers.semantic.getD []))
        ((answers.scores.bind fun scores => keywordSearch bm25 scores settings.topKKeyword).getD []) := rfl

def keysOf (hits : List SearchResult) : List Key := hits.map SearchResult.key

theorem keysOf_append (hits hits' : List SearchResult) : keysOf (hits ++ hits') = keysOf hits ++ keysOf hits' :=
  List.map_append

theorem keysOf_concat (hits : List SearchResult) (hit : SearchResult) : keysOf (hits ++ [hit]) = keysOf hits ++ [hit.key] :=
  keysOf_append hits [hit]

/-- What the ranks of the key are worth, in this leg. -/
def legScore (settings : RetrievalSettings) (hits : List SearchResult) (key : Key) : ℚ :=
  ((hits.zipIdx.filter fun x => x.1.key = key).map fun x => contrib settings x.2).sum

/-- The fields of a leg are those of its hit with the key, and there are none where it has no such hit. -/
structure LegFields (settings : RetrievalSettings) (hits : List SearchResult) (key : Key) (rank : Option ℕ)
    (score rrfContrib : Option ℚ) : Prop where
  found : ∀ i hit, hits[i]? = some hit → hit.key = key →
    rank = some i ∧ score = some hit.score ∧ rrfContrib = some (contrib settings i)
  absent : key ∉ keysOf hits → rank = none ∧ score = none ∧ rrfContrib = none

/-- **The legs are fused.** -/
structure Fused (settings : RetrievalSettings) (semanticHits keywordHits results : List SearchResult) : Prop where
  once : (keysOf results).Nodup
  union : ∀ key, key ∈ keysOf results ↔ key ∈ keysOf semanticHits ∨ key ∈ keysOf keywordHits
  /-- The best score first, and then what was seen first. -/
  ordered : results.Pairwise fun r r' => r'.score ≤ r.score ∧
    (r.score = r'.score → (keysOf (semanticHits ++ keywordHits)).idxOf r.key <
      (keysOf (semanticHits ++ keywordHits)).idxOf r'.key)
  score : ∀ r ∈ results, r.score = legScore settings semanticHits r.key + legScore settings keywordHits r.key
  contribs : ∀ r ∈ results, r.score = r.rrfSemanticContrib.getD 0 + r.rrfKeywordContrib.getD 0
  semantic : ∀ r ∈ results, LegFields settings semanticHits r.key r.semanticRank r.semanticScore r.rrfSemanticContrib
  keyword : ∀ r ∈ results, LegFields settings keywordHits r.key r.keywordRank r.keywordScore r.rrfKeywordContrib

section Fusion

variable {settings : RetrievalSettings} {hits semanticHits keywordHits : List SearchResult} {scores : List (Key × ℚ)}
  {key key' : Key} {c s : ℚ}

/-! ### The scores -/

/-- `scores.get(key, 0)`. -/
def scoreOf (key : Key) : List (Key × ℚ) → ℚ
  | [] => 0
  | (key', s) :: scores => if key' = key then s else scoreOf key scores

theorem scoreOf_addScore : scoreOf key' (addScore key c scores) = scoreOf key' scores + if key = key' then c else 0 := by
  induction scores with
  | nil => simp [addScore, scoreOf]
  | cons x scores ih =>
    obtain ⟨k, s⟩ := x
    by_cases hk : k = key
    · subst hk
      by_cases hkey' : k = key'
      · simp [addScore, scoreOf, hkey']
      · simp [addScore, scoreOf, hkey']
    · by_cases hkey' : k = key'
      · have hne : key ≠ key' := fun h => hk (hkey'.trans h.symm)
        simp [addScore, scoreOf, hkey', hne, hkey' ▸ hk]
      · simp [addScore, scoreOf, hk, hkey', ih]

theorem mem_scores_iff (h : (scores.map Prod.fst).Nodup) :
    (key, s) ∈ scores ↔ key ∈ scores.map Prod.fst ∧ s = scoreOf key scores := by
  induction scores with
  | nil => simp
  | cons x scores ih =>
    obtain ⟨k, s'⟩ := x
    obtain ⟨hk, hscores⟩ := List.nodup_cons.mp h
    by_cases hkey : k = key
    · subst hkey
      have hnot : (k, s) ∉ scores := fun hmem => hk (List.mem_map.mpr ⟨(k, s), hmem, rfl⟩)
      simp [scoreOf, hnot]
    · rw [List.mem_cons, ih hscores, List.map_cons, List.mem_cons, scoreOf, if_neg hkey]
      simp [Ne.symm hkey]

theorem addScores_concat (hit : SearchResult) :
    addScores settings (hits ++ [hit]) scores = addScore hit.key (contrib settings hits.length) (addScores settings hits scores) := by
  simp [addScores, List.zipIdx_append]

theorem legScore_concat (hit : SearchResult) :
    legScore settings (hits ++ [hit]) key =
      legScore settings hits key + if hit.key = key then contrib settings hits.length else 0 := by
  by_cases h : hit.key = key
  · simp [legScore, List.zipIdx_append, h]
  · simp [legScore, List.zipIdx_append, h]

theorem scoreOf_addScores : scoreOf key (addScores settings hits scores) = scoreOf key scores + legScore settings hits key := by
  induction hits using List.reverseRecOn with
  | nil => simp [addScores, legScore]
  | append_singleton hits hit ih => rw [addScores_concat, scoreOf_addScore, ih, legScore_concat, add_assoc]

/-! ### Their keys -/

/-- The keys without the ones that come again. -/
def firstSeen (keys : List Key) : List Key := keys.foldl (fun seen key => if key ∈ seen then seen else seen ++ [key]) []

theorem map_fst_addScore : (addScore key c scores).map Prod.fst =
    if key ∈ scores.map Prod.fst then scores.map Prod.fst else scores.map Prod.fst ++ [key] := by
  induction scores with
  | nil => simp [addScore]
  | cons x scores ih =>
    obtain ⟨k, s⟩ := x
    by_cases hk : k = key
    · simp [addScore, hk]
    · have hk' : key ≠ k := Ne.symm hk
      simp only [addScore, if_neg hk, List.map_cons, ih, List.mem_cons, hk', false_or]
      split
      · rfl
      · rfl

theorem map_fst_addScores : (addScores settings hits scores).map Prod.fst =
    (keysOf hits).foldl (fun seen key => if key ∈ seen then seen else seen ++ [key]) (scores.map Prod.fst) := by
  induction hits using List.reverseRecOn with
  | nil => rfl
  | append_singleton hits hit ih =>
    rw [addScores_concat, map_fst_addScore, ih, keysOf_concat, List.foldl_append]
    rfl

theorem firstSeen_concat (keys : List Key) :
    firstSeen (keys ++ [key]) = if key ∈ firstSeen keys then firstSeen keys else firstSeen keys ++ [key] := by
  rw [firstSeen, List.foldl_append]
  rfl

@[simp] theorem mem_firstSeen (keys : List Key) : key ∈ firstSeen keys ↔ key ∈ keys := by
  induction keys using List.reverseRecOn with
  | nil => rfl
  | append_singleton keys k ih =>
    rw [firstSeen_concat]
    by_cases hk : k ∈ firstSeen keys
    · rw [if_pos hk, ih, List.mem_append, List.mem_singleton]
      constructor
      · exact Or.inl
      · rintro (h | rfl)
        · exact h
        · exact ih.mp hk
    · rw [if_neg hk, List.mem_append, List.mem_append, ih]

/-- They are in the order in which they were seen. -/
theorem firstSeen_ordered (keys : List Key) :
    (firstSeen keys).Pairwise fun key key' => keys.idxOf key < keys.idxOf key' := by
  induction keys using List.reverseRecOn with
  | nil => exact List.Pairwise.nil
  | append_singleton keys k ih =>
    have hkept : (firstSeen keys).Pairwise fun key key' => (keys ++ [k]).idxOf key < (keys ++ [k]).idxOf key' := by
      refine ih.imp_of_mem fun hkey hkey' h => ?_
      rw [List.idxOf_append_of_mem ((mem_firstSeen keys).mp hkey), List.idxOf_append_of_mem ((mem_firstSeen keys).mp hkey')]
      exact h
    rw [firstSeen_concat]
    by_cases hk : k ∈ firstSeen keys
    · rw [if_pos hk]
      exact hkept
    · rw [if_neg hk]
      refine List.pairwise_append.mpr ⟨hkept, List.pairwise_singleton _ _, fun key hkey key' hkey' => ?_⟩
      rw [List.mem_singleton.mp hkey', List.idxOf_append_of_mem ((mem_firstSeen keys).mp hkey),
        List.idxOf_append_of_notMem (fun h => hk ((mem_firstSeen keys).mpr h))]
      have hlt := List.idxOf_lt_length_of_mem ((mem_firstSeen keys).mp hkey)
      omega

/-! ### The legs -/

theorem legMeta_concat (hit : SearchResult) : legMeta settings (hits ++ [hit]) key =
    if hit.key = key then some ⟨hits.length, hit.score, contrib settings hits.length⟩ else legMeta settings hits key := by
  by_cases h : hit.key = key
  · simp [legMeta, List.zipIdx_append, h]
  · simp [legMeta, List.zipIdx_append, h]

theorem legMeta_absent (h : key ∉ keysOf hits) : legMeta settings hits key = none := by
  induction hits using List.reverseRecOn with
  | nil => rfl
  | append_singleton hits hit ih =>
    rw [keysOf_concat, List.mem_append, List.mem_singleton, not_or] at h
    rw [legMeta_concat, if_neg (Ne.symm h.2), ih h.1]

theorem legMeta_found {i : ℕ} {hit : SearchResult} (h : (keysOf hits).Nodup) (hi : hits[i]? = some hit) :
    legMeta settings hits hit.key = some ⟨i, hit.score, contrib settings i⟩ := by
  induction hits using List.reverseRecOn with
  | nil => simp at hi
  | append_singleton hits last ih =>
    rw [keysOf_concat, List.nodup_append] at h
    obtain ⟨hhits, -, hlast⟩ := h
    rw [legMeta_concat]
    by_cases hlt : i < hits.length
    · rw [List.getElem?_append_left hlt] at hi
      have hmem : hit.key ∈ keysOf hits := List.mem_map_of_mem (List.mem_of_getElem? hi)
      rw [if_neg (Ne.symm (hlast _ hmem _ (List.mem_singleton_self _))), ih hhits hi]
    · rw [List.getElem?_append_right (by omega)] at hi
      obtain ⟨hend, rfl⟩ := List.getElem?_eq_some_iff.mp hi
      have hend : i = hits.length := by
        simp only [List.length_singleton] at hend
        omega
      subst hend
      simp

/-- The last hit with a key is the only one. -/
theorem legScore_eq (h : (keysOf hits).Nodup) :
    legScore settings hits key = ((legMeta settings hits key).map LegMeta.rrfContrib).getD 0 := by
  induction hits using List.reverseRecOn with
  | nil => rfl
  | append_singleton hits hit ih =>
    rw [keysOf_concat, List.nodup_append] at h
    obtain ⟨hhits, -, hhit⟩ := h
    rw [legScore_concat, legMeta_concat, ih hhits]
    by_cases hkey : hit.key = key
    · have habsent : key ∉ keysOf hits := fun hmem => hhit _ hmem _ (List.mem_singleton_self _) hkey.symm
      simp [hkey, legMeta_absent habsent]
    · simp [hkey]

theorem legFields (h : (keysOf hits).Nodup) : LegFields settings hits key ((legMeta settings hits key).map LegMeta.rank)
    ((legMeta settings hits key).map LegMeta.score) ((legMeta settings hits key).map LegMeta.rrfContrib) where
  found := by
    rintro i hit hi rfl
    rw [legMeta_found h hi]
    exact ⟨rfl, rfl, rfl⟩
  absent := by
    intro habsent
    rw [legMeta_absent habsent]
    exact ⟨rfl, rfl, rfl⟩

/-! ### The results -/

/-- The scores as they are ranked. -/
def ranked (settings : RetrievalSettings) (semanticHits keywordHits : List SearchResult) : List (Key × ℚ) :=
  (addScores settings keywordHits (addScores settings semanticHits [])).insertionSort fun a b => b.2 ≤ a.2

theorem keys_scores : (addScores settings keywordHits (addScores settings semanticHits [])).map Prod.fst =
    firstSeen (keysOf (semanticHits ++ keywordHits)) := by
  rw [map_fst_addScores, map_fst_addScores, firstSeen, keysOf_append, List.foldl_append]
  rfl

instance : Std.Total fun a b : Key × ℚ => b.2 ≤ a.2 := ⟨fun a b => le_total b.2 a.2⟩

instance : IsTrans (Key × ℚ) fun a b => b.2 ≤ a.2 := ⟨fun _ _ _ hab hbc => le_trans hbc hab⟩

theorem ranked_ordered : (ranked settings semanticHits keywordHits).Pairwise (StableSort.Stable (fun a b => b.2 ≤ a.2)
    fun a b => (keysOf (semanticHits ++ keywordHits)).idxOf a.1 < (keysOf (semanticHits ++ keywordHits)).idxOf b.1) := by
  refine StableSort.stable_insertionSort ?_
  have hkeys : (addScores settings keywordHits (addScores settings semanticHits [])).map Prod.fst =
      firstSeen (keysOf (semanticHits ++ keywordHits)) := keys_scores
  have hseen := firstSeen_ordered (keysOf (semanticHits ++ keywordHits))
  rw [← hkeys, List.pairwise_map] at hseen
  exact hseen

theorem mem_keys_ranked : key ∈ (ranked settings semanticHits keywordHits).map Prod.fst ↔
    key ∈ keysOf semanticHits ∨ key ∈ keysOf keywordHits := by
  have hperm := (List.perm_insertionSort (fun a b => b.2 ≤ a.2)
    (addScores settings keywordHits (addScores settings semanticHits []))).map Prod.fst
  rw [ranked, hperm.mem_iff, keys_scores, mem_firstSeen, keysOf_append, List.mem_append]

theorem nodup_keys_scores : ((addScores settings keywordHits (addScores settings semanticHits [])).map Prod.fst).Nodup := by
  rw [keys_scores]
  exact (firstSeen_ordered _).imp fun hlt heq => by simp [heq] at hlt

theorem nodup_keys_ranked : ((ranked settings semanticHits keywordHits).map Prod.fst).Nodup :=
  ((List.perm_insertionSort _ _).map Prod.fst).nodup_iff.mpr nodup_keys_scores

theorem score_ranked (h : (key, s) ∈ ranked settings semanticHits keywordHits) :
    s = legScore settings semanticHits key + legScore settings keywordHits key := by
  rw [ranked, List.mem_insertionSort, mem_scores_iff nodup_keys_scores] at h
  rw [h.2, scoreOf_addScores, scoreOf_addScores, scoreOf, zero_add]

/-- Every key that is ranked has a hit. -/
theorem merge_ranked (h : key ∈ keysOf semanticHits ∨ key ∈ keysOf keywordHits) :
    ∃ r, merge settings semanticHits keywordHits key s = some r := by
  obtain ⟨hit, hmem, hkey⟩ : ∃ hit ∈ semanticHits ++ keywordHits, hit.key = key := by
    rwa [← List.mem_append, ← keysOf_append, keysOf, List.mem_map] at h
  have hfound : (allHits semanticHits keywordHits key).isSome = true := by
    rw [allHits, List.find?_isSome]
    exact ⟨hit, List.mem_reverse.mpr hmem, by simpa using hkey⟩
  obtain ⟨hit', hhit'⟩ := Option.isSome_iff_exists.mp hfound
  rw [merge, hhit']
  exact ⟨_, rfl⟩

/-- What is merged for a key has it, the score, and the fields of both legs. -/
structure Merged (settings : RetrievalSettings) (semanticHits keywordHits : List SearchResult) (key : Key) (s : ℚ)
    (r : SearchResult) : Prop where
  key_eq : r.key = key
  score : r.score = s
  semantic : (keysOf semanticHits).Nodup →
    LegFields settings semanticHits key r.semanticRank r.semanticScore r.rrfSemanticContrib
  keyword : (keysOf keywordHits).Nodup →
    LegFields settings keywordHits key r.keywordRank r.keywordScore r.rrfKeywordContrib
  semanticContrib : (keysOf semanticHits).Nodup → r.rrfSemanticContrib.getD 0 = legScore settings semanticHits key
  keywordContrib : (keysOf keywordHits).Nodup → r.rrfKeywordContrib.getD 0 = legScore settings keywordHits key

theorem merged {r : SearchResult} (h : merge settings semanticHits keywordHits key s = some r) :
    Merged settings semanticHits keywordHits key s r := by
  obtain ⟨hit, -, rfl⟩ := Option.map_eq_some_iff.mp h
  exact ⟨rfl, rfl, legFields, legFields, fun h => (legScore_eq h).symm, fun h => (legScore_eq h).symm⟩

theorem keysOf_fuse : keysOf (fuse settings semanticHits keywordHits) =
    (ranked settings semanticHits keywordHits).map Prod.fst := by
  show ((ranked settings semanticHits keywordHits).filterMap fun x => merge settings semanticHits keywordHits x.1 x.2).map
    SearchResult.key = _
  rw [List.map_filterMap, ← List.filterMap_eq_map]
  refine List.filterMap_congr fun x hx => ?_
  obtain ⟨r, hr⟩ : ∃ r, merge settings semanticHits keywordHits x.1 x.2 = some r :=
    merge_ranked (mem_keys_ranked.mp (List.mem_map_of_mem hx))
  rw [hr, Option.map_some, (merged hr).key_eq]
  rfl

theorem mem_fuse_merged {r : SearchResult} (h : r ∈ fuse settings semanticHits keywordHits) :
    ∃ s, (r.key, s) ∈ ranked settings semanticHits keywordHits ∧ Merged settings semanticHits keywordHits r.key s r := by
  obtain ⟨⟨key, s⟩, hmem, hmerge⟩ := List.mem_filterMap.mp h
  have hmerged := merged hmerge
  obtain rfl := hmerged.key_eq
  exact ⟨s, hmem, hmerged⟩

theorem fuse_ordered : (fuse settings semanticHits keywordHits).Pairwise fun r r' => r'.score ≤ r.score ∧
    (r.score = r'.score → (keysOf (semanticHits ++ keywordHits)).idxOf r.key <
      (keysOf (semanticHits ++ keywordHits)).idxOf r'.key) := by
  refine List.pairwise_filterMap.mpr (ranked_ordered.imp fun {a b} hab r hr r' hr' => ?_)
  rw [(merged hr).key_eq, (merged hr).score, (merged hr').key_eq, (merged hr').score]
  exact ⟨hab.1, fun heq => hab.2 (le_of_eq heq)⟩

theorem fused (hsemantic : (keysOf semanticHits).Nodup) (hkeyword : (keysOf keywordHits).Nodup) :
    Fused settings semanticHits keywordHits (fuse settings semanticHits keywordHits) where
  once := by
    rw [keysOf_fuse]
    exact nodup_keys_ranked
  union key := by
    rw [keysOf_fuse]
    exact mem_keys_ranked
  ordered := fuse_ordered
  score r hr := by
    obtain ⟨s, hmem, hmerged⟩ := mem_fuse_merged hr
    rw [hmerged.score]
    exact score_ranked hmem
  contribs r hr := by
    obtain ⟨s, hmem, hmerged⟩ := mem_fuse_merged hr
    rw [hmerged.score, hmerged.semanticContrib hsemantic, hmerged.keywordContrib hkeyword]
    exact score_ranked hmem
  semantic r hr := by
    obtain ⟨s, -, hmerged⟩ := mem_fuse_merged hr
    exact hmerged.semantic hsemantic
  keyword r hr := by
    obtain ⟨s, -, hmerged⟩ := mem_fuse_merged hr
    exact hmerged.keyword hkeyword

theorem keysOf_normalizeSinglePath (settings : RetrievalSettings) (hits : List SearchResult) :
    keysOf (normalizeSinglePath settings hits) = keysOf hits := by
  rw [keysOf, normalizeSinglePath, List.map_map]
  calc hits.zipIdx.map _ = hits.zipIdx.map (SearchResult.key ∘ Prod.fst) := by
        refine List.map_congr_left fun x _ => ?_
        cases hmode : x.1.retrievalMode <;> simp [hmode, SearchResult.key]
    _ = keysOf hits := by rw [← List.map_map, List.zipIdx_map_fst, keysOf]

end Fusion

/-- **Fusion is exact**, and a leg alone keeps its order. -/
theorem fusion_exact (settings : RetrievalSettings) (semanticHits keywordHits : List SearchResult)
    (hsemantic : (keysOf semanticHits).Nodup) (hkeyword : (keysOf keywordHits).Nodup) :
    (semanticHits ≠ [] → keywordHits ≠ [] →
      Fused settings semanticHits keywordHits (combine settings semanticHits keywordHits)) ∧
    (semanticHits = [] → keysOf (combine settings semanticHits keywordHits) = keysOf keywordHits) ∧
    (semanticHits ≠ [] → keywordHits = [] → combine settings semanticHits keywordHits = semanticHits) := by
  refine ⟨fun hs hk => ?_, ?_, ?_⟩
  · rw [combine, if_neg (by simpa using hs), if_neg (by simpa using hk)]
    exact fused hsemantic hkeyword
  · rintro rfl
    exact keysOf_normalizeSinglePath settings keywordHits
  · rintro hs rfl
    rw [combine, if_neg (by simpa using hs), List.isEmpty_nil, if_pos rfl]

def sampleHit (source : String) (score : ℚ) (mode : RetrievalMode) : SearchResult where
  text := source.toList
  score := score
  source := source.toList
  chunkId := 0
  stemTags := []
  retrievalMode := mode
  sourceSha256 := []

theorem fusion_exact_overlap :
    Fused ⟨5, 60, by decide⟩ [sampleHit "a" (1 / 2) .semantic, sampleHit "b" (1 / 3) .semantic]
      [sampleHit "b" 4 .keyword, sampleHit "c" 3 .keyword]
      (combine ⟨5, 60, by decide⟩ [sampleHit "a" (1 / 2) .semantic, sampleHit "b" (1 / 3) .semantic]
        [sampleHit "b" 4 .keyword, sampleHit "c" 3 .keyword]) :=
  (fusion_exact ⟨5, 60, by decide⟩ [sampleHit "a" (1 / 2) .semantic, sampleHit "b" (1 / 3) .semantic]
    [sampleHit "b" 4 .keyword, sampleHit "c" 3 .keyword] (by decide) (by decide)).1 (List.cons_ne_nil _ _)
    (List.cons_ne_nil _ _)

end CyClaw.Retrieval
