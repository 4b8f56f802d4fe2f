/-
`HybridRetriever` of `retrieval/hybrid_search.py`, over what a build has left.

The legs are joined by source and chunk id alone: a fused result has the score of a semantic hit,
and its text and hash are those of the last hit of either leg with the same two
(`hybrid_pairs`).

Scores are rationals, and facts of the memory are not fused here.
-/
import CyClaw.Lib.Fallible
import CyClaw.Retrieval.Indexer
import Mathlib.Algebra.Order.Ring.Rat
import Mathlib.Data.List.Sort

namespace CyClaw.Retrieval

inductive RetrievalMode where
  | semantic
  | keyword
  | hybrid
deriving DecidableEq

abbrev Key := Text × ℕ

structure SearchResult where
  text : Text
  score : ℚ
  source : Text
  chunkId : ℕ
  stemTags : List Text
  retrievalMode : RetrievalMode
  sourceSha256 : Text
  semanticScore : Option ℚ := none
  semanticRank : Option ℕ := none
  keywordScore : Option ℚ := none
  keywordRank : Option ℕ := none
  rrfScore : Option ℚ := none
  rrfSemanticContrib : Option ℚ := none
  rrfKeywordContrib : Option ℚ := none

def SearchResult.key (r : SearchResult) : Key := (r.source, r.chunkId)

def Metadata.key (m : Metadata) : Key := (m.source, m.chunkId)

/-- The section `retrieval`, as `validate_config` admits it. -/
structure RetrievalSettings where
  topKKeyword : ℕ
  rrfK : ℕ
  positive : 0 < rrfK

/-- What is answered to a query, `none` where that fails: by the vector index, the best one first,
and by `get_scores`. -/
structure Answers (x : Index) where
  semantic : Option (List (VectorEntry × ℚ))
  stored : ∀ hits, semantic = some hits → ∀ hit ∈ hits, hit.1 ∈ x.vector
  scores : Option (List ℚ)

/-- What `__init__` reads of bm25.json, where it does not raise. -/
def loadBm25 (x : Index) : Option Bm25 :=
  x.bm25.filter fun bm25 =>
    bm25.tokenizedCorpus.length ≠ 0 && bm25.tokenizedCorpus.length = bm25.chunks.length &&
      bm25.tokenizedCorpus.length = bm25.metadata.length

/-! ### The legs -/

def semanticSearch (raw : List (VectorEntry × ℚ)) : List SearchResult :=
  raw.zipIdx.map fun x =>
    { text := x.1.1.text
      score := x.1.2
      source := x.1.1.metadata.source
      chunkId := x.1.1.metadata.chunkId
      stemTags := x.1.1.metadata.stemTags
      sourceSha256 := x.1.1.metadata.sourceSha256
      retrievalMode := .semantic
      semanticScore := some x.1.2
      semanticRank := some x.2 }

def keywordSearch (bm25 : Bm25) (scores : List ℚ) (k : ℕ) : Option (List SearchResult) :=
  let best := (List.range scores.length).insertionSort fun i j => scores.getD j 0 ≤ scores.getD i 0
  let topIndices := best.take k
  (topIndices.filter fun i => 0 < scores.getD i 0).zipIdx.mapM fun x => do
    let text ← bm25.chunks[x.1]?
    let metadata ← bm25.metadata[x.1]?
    return {
      text := text
      score := scores.getD x.1 0
      source := metadata.source
      chunkId := metadata.chunkId
      stemTags := metadata.stemTags
      retrievalMode := .keyword
      sourceSha256 := metadata.sourceSha256
      keywordScore := some (scores.getD x.1 0)
      keywordRank := some x.2 }

/-! ### Fusion -/

def contrib (settings : RetrievalSettings) (rank : ℕ) : ℚ := 1 / (settings.rrfK + rank)

def normalizeSinglePath (settings : RetrievalSettings) (hits : List SearchResult) : List SearchResult :=
  hits.zipIdx.map fun x =>
    let c := contrib settings x.2
    let hit := { x.1 with score := c, rrfScore := some c }
    match hit.retrievalMode with
    | .semantic => { hit with rrfSemanticContrib := some c }
    | .keyword => { hit with rrfKeywordContrib := some c }
    | .hybrid => hit

/-- `scores[key] = scores.get(key, 0) + contrib`. -/
def addScore (key : Key) (c : ℚ) : List (Key × ℚ) → List (Key × ℚ)
  | [] => [(key, c)]
  | (key', score) :: scores =>
      if key' = key then (key', score + c) :: scores else (key', score) :: addScore key c scores

def addScores (settings : RetrievalSettings) (hits : List SearchResult) (scores : List (Key × ℚ)) : List (Key × ℚ) :=
  hits.zipIdx.foldl (fun scores x => addScore x.1.key (contrib settings x.2) scores) scores

structure LegMeta where
  rank : ℕ
  score : ℚ
  rrfContrib : ℚ

/-- `semantic_meta.get(key)` or `keyword_meta.get(key)`: the last hit with the key counts. -/
def legMeta (settings : RetrievalSettings) (hits : List SearchResult) (key : Key) : Option LegMeta :=
  (hits.zipIdx.reverse.find? fun x => x.1.key = key).map fun x => ⟨x.2, x.1.score, contrib settings x.2⟩

/-- `all_hits[key]`. -/
def allHits (semanticHits keywordHits : List SearchResult) (key : Key) : Option SearchResult :=
  (semanticHits ++ keywordHits).reverse.find? fun hit => hit.key = key

def merge (settings : RetrievalSettings) (semanticHits keywordHits : List SearchResult) (key : Key) (score : ℚ) :
    Option SearchResult :=
  (allHits semanticHits keywordHits key).map fun hit =>
    let sm := legMeta settings semanticHits key
    let km := legMeta settings keywordHits key
    { text := hit.text
      score := score
      source := key.1
      chunkId := key.2
      stemTags := hit.stemTags
      retrievalMode := .hybrid
      sourceSha256 := hit.sourceSha256
      semanticScore := sm.map LegMeta.score
      semanticRank := sm.map LegMeta.rank
      keywordScore := km.map LegMeta.score
      keywordRank := km.map LegMeta.rank
      rrfScore := some score
      rrfSemanticContrib := sm.map LegMeta.rrfContrib
      rrfKeywordContrib := km.map LegMeta.rrfContrib }

/-- The end of `hybrid_search`, where both legs have hits. -/
def fuse (settings : RetrievalSettings) (semanticHits keywordHits : List SearchResult) : List SearchResult :=
  let scores := addScores settings keywordHits (addScores settings semanticHits [])
  let ranked := scores.insertionSort fun a b => b.2 ≤ a.2
  ranked.filterMap fun x => merge settings semanticHits keywordHits x.1 x.2

/-- `hybrid_search`, of a retriever that has read bm25.json. -/
def hybridSearch (settings : RetrievalSettings) {x : Index} (answers : Answers x) (bm25 : Bm25) : List SearchResult :=
  let semanticHits := semanticSearch (answers.semantic.getD [])
  let keywordHits := (answers.scores.bind fun scores => keywordSearch bm25 scores settings.topKKeyword).getD []
  if semanticHits.isEmpty then normalizeSinglePath settings keywordHits
  else if keywordHits.isEmpty then semanticHits
  else fuse settings semanticHits keywordHits

/-! ### Where a result is from -/

section Specs

variable {settings : RetrievalSettings} {x : Index} {answers : Answers x} {bm25 : Bm25} {raw : List (VectorEntry × ℚ)}
  {scores : List ℚ} {hits semanticHits keywordHits : List SearchResult} {r hit : SearchResult} {key : Key} {s : ℚ}

/-- The text and the metadata are side by side in bm25.json. -/
def Bm25.Has (bm25 : Bm25) (text : Text) (metadata : Metadata) : Prop :=
  ∃ i : ℕ, bm25.chunks[i]? = some text ∧ bm25.metadata[i]? = some metadata

/-- The text and the metadata are those of an entry, of the one leg or the other. -/
def Index.Has (x : Index) (text : Text) (metadata : Metadata) : Prop :=
  (∃ e ∈ x.vector, e.text = text ∧ e.metadata = metadata) ∨ ∃ bm25, x.bm25 = some bm25 ∧ bm25.Has text metadata

/-- Text, key and hash of the result are those of an entry. -/
def FromEntry (x : Index) (r : SearchResult) : Prop :=
  ∃ metadata, x.Has r.text metadata ∧ metadata.key = r.key ∧ metadata.sourceSha256 = r.sourceSha256

/-- The semantic score of the result is one of an entry with its key. -/
def Scored (answers : Answers x) (r : SearchResult) (s : ℚ) : Prop :=
  ∃ e, (e, s) ∈ answers.semantic.getD [] ∧ e.metadata.key = r.key

theorem Answers.mem_vector {e : VectorEntry} (h : (e, s) ∈ answers.semantic.getD []) : e ∈ x.vector := by
  cases hanswer : answers.semantic with
  | none => simp [hanswer] at h
  | some hits =>
    rw [hanswer, Option.getD_some] at h
    exact answers.stored hits hanswer (e, s) h

theorem mem_semanticSearch (h : hit ∈ semanticSearch (answers.semantic.getD [])) :
    FromEntry x hit ∧ Scored answers hit hit.score ∧ hit.semanticScore = some hit.score := by
  obtain ⟨⟨⟨e, score⟩, i⟩, hmem, rfl⟩ := List.mem_map.mp h
  obtain ⟨-, -, hget⟩ := List.mem_zipIdx hmem
  have hanswer : (e, score) ∈ answers.semantic.getD [] := by
    rw [hget]
    exact List.getElem_mem _
  exact ⟨⟨e.metadata, Or.inl ⟨e, Answers.mem_vector hanswer, rfl, rfl⟩, rfl, rfl⟩, ⟨e, hanswer, rfl⟩, rfl⟩

theorem length_keywordSearch_le {k : ℕ} (h : keywordSearch bm25 scores k = some hits) : hits.length ≤ k := by
  rw [Fallible.length_mapM_some h, List.length_zipIdx]
  refine (List.length_filter_le _ _).trans ?_
  rw [List.length_take]
  exact min_le_left _ _

theorem mem_keywordSearch {k : ℕ} (hbm25 : x.bm25 = some bm25) (h : keywordSearch bm25 scores k = some hits)
    (hhit : hit ∈ hits) : FromEntry x hit ∧ hit.semanticScore = none := by
  obtain ⟨⟨i, rank⟩, -, hread⟩ := Fallible.mem_mapM_some h hhit
  simp only [Option.pure_def, Option.bind_eq_bind, Option.bind_eq_some_iff, Option.some.injEq] at hread
  obtain ⟨text, htext, metadata, hmetadata, rfl⟩ := hread
  exact ⟨⟨metadata, Or.inr ⟨bm25, hbm25, i, htext, hmetadata⟩, rfl, rfl⟩, rfl⟩

theorem mem_keywordHits (hbm25 : x.bm25 = some bm25)
    (hhit : hit ∈ (answers.scores.bind fun scores => keywordSearch bm25 scores settings.topKKeyword).getD []) :
    FromEntry x hit ∧ hit.semanticScore = none := by
  cases hsearch : answers.scores.bind fun scores => keywordSearch bm25 scores settings.topKKeyword with
  | none => simp [hsearch] at hhit
  | some hits =>
    rw [hsearch, Option.getD_some] at hhit
    obtain ⟨scores, -, hsearch⟩ := Option.bind_eq_some_iff.mp hsearch
    exact mem_keywordSearch hbm25 hsearch hhit

theorem mem_normalizeSinglePath (h : r ∈ normalizeSinglePath settings hits) :
    ∃ hit ∈ hits, r.text = hit.text ∧ r.key = hit.key ∧ r.sourceSha256 = hit.sourceSha256 ∧
      r.semanticScore = hit.semanticScore := by
  obtain ⟨⟨hit, i⟩, hmem, rfl⟩ := List.mem_map.mp h
  obtain ⟨-, -, hget⟩ := List.mem_zipIdx hmem
  refine ⟨hit, ?_, ?_⟩
  · rw [hget]
    exact List.getElem_mem _
  · cases hmode : hit.retrievalMode <;> simp [hmode, SearchResult.key]

theorem legMeta_score (h : (legMeta settings hits key).map LegMeta.score = some s) :
    ∃ hit ∈ hits, hit.key = key ∧ hit.score = s := by
  obtain ⟨m, hm, rfl⟩ := Option.map_eq_some_iff.mp h
  obtain ⟨⟨hit, i⟩, hfind, rfl⟩ := Option.map_eq_some_iff.mp hm
  have hmem := List.mem_reverse.mp (List.mem_of_find?_eq_some hfind)
  obtain ⟨-, -, hget⟩ := List.mem_zipIdx hmem
  refine ⟨hit, ?_, by simpa using List.find?_some hfind, rfl⟩
  rw [hget]
  exact List.getElem_mem _

/-- A fused result has text and hash of a hit of either leg, and the score of a semantic one. -/
theorem mem_fuse (h : r ∈ fuse settings semanticHits keywordHits) :
    (∃ hit ∈ semanticHits ++ keywordHits, hit.key = r.key ∧ r.text = hit.text ∧ r.sourceSha256 = hit.sourceSha256) ∧
      ∀ s, r.semanticScore = some s → ∃ hit ∈ semanticHits, hit.key = r.key ∧ hit.score = s := by
  obtain ⟨⟨key, score⟩, -, hmerge⟩ := List.mem_filterMap.mp h
  obtain ⟨hit, hfind, rfl⟩ := Option.map_eq_some_iff.mp hmerge
  have hkey : hit.key = key := by simpa using List.find?_some hfind
  exact ⟨⟨hit, List.mem_reverse.mp (List.mem_of_find?_eq_some hfind), hkey, rfl, rfl⟩, fun s hs => legMeta_score hs⟩

/-- **What a result with a semantic score is made of**: an entry with that score, and an entry of
either leg with the same source and chunk id. -/
theorem hybrid_pairs (hbm25 : x.bm25 = some bm25) (h : r ∈ hybridSearch settings answers bm25)
    (hs : r.semanticScore = some s) : FromEntry x r ∧ Scored answers r s := by
  unfold hybridSearch at h
  simp only at h
  split at h
  · obtain ⟨hit, hmem, -, -, -, hscore⟩ := mem_normalizeSinglePath h
    rw [hscore, (mem_keywordHits hbm25 hmem).2] at hs
    cases hs
  split at h
  · obtain ⟨hentry, hscored, hscore⟩ := mem_semanticSearch h
    obtain rfl : r.score = s := Option.some.inj (hscore.symm.trans hs)
    exact ⟨hentry, hscored⟩
  · obtain ⟨⟨hit, hmem, hkey, htext, hsha⟩, hfused⟩ := mem_fuse h
    constructor
    · have hentry : FromEntry x hit := by
        rcases List.mem_append.mp hmem with hmem | hmem
        · exact (mem_semanticSearch hmem).1
        · exact (mem_keywordHits hbm25 hmem).1
      obtain ⟨metadata, hhas, hkey', hsha'⟩ := hentry
      exact ⟨metadata, htext ▸ hhas, hkey'.trans hkey, hsha'.trans hsha.symm⟩
    · obtain ⟨hit', hmem', hkey', rfl⟩ := hfused s hs
      obtain ⟨e, he, hekey⟩ := (mem_semanticSearch hmem').2.1
      exact ⟨e, he, hekey.trans hkey'⟩

end Specs

end CyClaw.Retrieval
