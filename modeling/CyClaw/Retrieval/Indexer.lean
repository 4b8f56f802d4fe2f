/-
`build_index` of `retrieval/indexer.py`.

A build cuts the documents into chunks, resets the vector index, adds the chunks to it batch by
batch, and replaces bm25.json last, in one step.  Where it fails, what it has done until then
stays: nothing, an empty vector index, or the first of the new chunks beside the old bm25.json
(`build_left`).

What a document is cut into depends on the document and the settings alone; embeddings have no
part here.
-/
import CyClaw.Lib.PyText
import Mathlib.Data.List.Nodup
import Mathlib.Data.Nat.Notation

namespace CyClaw.Retrieval

open PyText

abbrev Text := List Char

/-- What `load_corpus` returns: the files, each once. -/
structure Corpus where
  docs : List (Text × Text)
  nodup : (docs.map Prod.fst).Nodup

structure Settings where
  chunkSize : ℤ
  chunkOverlap : ℤ
  batchSize : ℤ
  /-- `sanitize_chunk` with the patterns of the configuration. -/
  sanitizeChunk : Text → Text

structure Env where
  sha256 : Text → Text
  tokenizeAndStem : Text → List Text

structure Metadata where
  source : Text
  chunkId : ℕ
  sourceSha256 : Text
  stemTags : List Text
deriving DecidableEq

/-- A chunk as it is collected. -/
structure Chunk where
  text : Text
  tokens : List Text
  metadata : Metadata

structure VectorEntry where
  /-- The number in `chunk_{n}`. -/
  id : ℕ
  text : Text
  metadata : Metadata
deriving DecidableEq

/-- bm25.json. -/
structure Bm25 where
  tokenizedCorpus : List (List Text)
  chunks : List Text
  metadata : List Metadata
deriving DecidableEq

/-! ### Chunks -/

/-- The loop of `chunk_document`; every round but the last one drops a word. -/
def chunkLoop (size step : ℕ) : ℕ → List Text → List Text
  | 0, _ => []
  | fuel + 1, words =>
      if words = [] then []
      else if words.length ≤ size then [[' '].intercalate words]
      else [' '].intercalate (words.take size) :: chunkLoop size step fuel (words.drop step)

/-- A round for each word is enough. -/
theorem chunkLoop_fuel {size step : ℕ} (hstep : 0 < step) (fuel fuel' : ℕ) (words : List Text)
    (h : words.length ≤ fuel) (h' : words.length ≤ fuel') :
    chunkLoop size step fuel words = chunkLoop size step fuel' words := by
  induction fuel generalizing fuel' words with
  | zero =>
    obtain rfl : words = [] := List.length_eq_zero_iff.mp (Nat.le_zero.mp h)
    cases fuel' <;> simp [chunkLoop]
  | succ fuel ih =>
    cases words with
    | nil => cases fuel' <;> simp [chunkLoop]
    | cons word words =>
      simp only [List.length_cons] at h h'
      obtain ⟨fuel', rfl⟩ : ∃ n, fuel' = n + 1 := ⟨fuel' - 1, by omega⟩
      have hlength : ((word :: words).drop step).length ≤ words.length := by
        simp only [List.length_drop, List.length_cons]
        omega
      simp only [chunkLoop]
      rw [ih fuel' _ (by omega) (by omega)]

/-- `chunk_document`, past its checks. -/
def chunkDocument (text : Text) (chunkSize overlap : ℤ) : List Text :=
  let words := split text
  chunkLoop chunkSize.toNat (max 1 (chunkSize - overlap)).toNat words.length words

section Chunks

variable (env : Env) (settings : Settings)

/-- The chunks of a document, as they are indexed. -/
def cleanChunks (content : Text) : List Text :=
  (chunkDocument content settings.chunkSize settings.chunkOverlap).map settings.sanitizeChunk

def metadataOf (source content : Text) (i : ℕ) (clean : Text) : Metadata where
  source := source
  chunkId := i
  sourceSha256 := env.sha256 content
  stemTags := (env.tokenizeAndStem clean).take 20

def documentChunks (doc : Text × Text) : List Chunk :=
  (cleanChunks settings doc.2).zipIdx.map fun x =>
    ⟨x.1, env.tokenizeAndStem x.1, metadataOf env doc.1 doc.2 x.2 x.1⟩

def allChunks (corpus : Corpus) : List Chunk := corpus.docs.flatMap (documentChunks env settings)

/-- What the vector index is to hold. -/
def vectorEntries (corpus : Corpus) : List VectorEntry :=
  (allChunks env settings corpus).zipIdx.map fun x => ⟨x.2, x.1.text, x.1.metadata⟩

def bm25Of (corpus : Corpus) : Bm25 where
  tokenizedCorpus := (allChunks env settings corpus).map Chunk.tokens
  chunks := (allChunks env settings corpus).map Chunk.text
  metadata := (allChunks env settings corpus).map Chunk.metadata

end Chunks

/-! ### A build -/

/-- Where a build fails. -/
inductive Failure where
  /-- It completes. -/
  | none
  /-- Before the vector index is touched. -/
  | early
  /-- The collection is deleted, and not created again. -/
  | reset
  | embed (batch : ℕ)
  /-- So many entries of the batch were added. -/
  | add (batch added : ℕ)
  | finalize
  | writeBm25
  | replaceBm25
deriving DecidableEq

structure Build where
  settings : Settings
  corpus : Corpus
  failure : Failure

structure Index where
  vector : List VectorEntry
  bm25 : Option Bm25

def Settings.valid (s : Settings) : Bool :=
  1 ≤ s.chunkSize && 0 ≤ s.chunkOverlap && s.chunkOverlap < s.chunkSize && 1 ≤ s.batchSize

/-- One batch after the other; whether all of them were added. -/
def addBatches (failure : Failure) (size : ℕ) (entries : List VectorEntry) :
    ℕ → ℕ → List VectorEntry → Bool × List VectorEntry
  | 0, _, vector => (true, vector)
  | rounds + 1, i, vector =>
      let batch := (entries.drop (i * size)).take size
      if failure = .embed i then (false, vector)
      else
        match failure with
        | .add j added =>
            if j = i then (false, vector ++ batch.take added)
            else addBatches failure size entries rounds (i + 1) (vector ++ batch)
        | _ => addBatches failure size entries rounds (i + 1) (vector ++ batch)

/-- The length of `range(0, len(all_chunks), batch_size)`. -/
def rounds (size length : ℕ) : ℕ := (length + size - 1) / size

/-- The loop that fills the vector index. -/
def fill (env : Env) (b : Build) : Bool × List VectorEntry :=
  let entries := vectorEntries env b.settings b.corpus
  let size := b.settings.batchSize.toNat
  addBatches b.failure size entries (rounds size entries.length) 0 []

/-- Whether the build completes, and what it leaves. -/
def buildIndex (env : Env) (b : Build) (x : Index) : Bool × Index :=
  if !b.settings.valid || b.failure = .early then (false, x)
  else if b.failure = .reset then (false, { x with vector := [] })
  else
    match fill env b with
    | (false, vector) => (false, { x with vector := vector })
    | (true, vector) =>
        if b.failure = .finalize || b.failure = .writeBm25 || b.failure = .replaceBm25 then
          (false, { x with vector := vector })
        else (true, { vector := vector, bm25 := some (bm25Of env b.settings b.corpus) })

/-! ### What a build leaves -/

/-- How many of the new entries are added, where it comes to that. -/
def Failure.added (size length : ℕ) : Failure → ℕ
  | .early => 0
  | .reset => 0
  | .embed batch => batch * size
  | .add batch added => batch * size + min added size
  | _ => length

def Build.added (env : Env) (b : Build) : ℕ :=
  b.failure.added b.settings.batchSize.toNat (allChunks env b.settings b.corpus).length

/-- **What a build leaves.** -/
inductive Left (env : Env) (b : Build) (x : Index) : Bool × Index → Prop where
  | untouched : Left env b x (false, x)
  | emptied : Left env b x (false, { x with vector := [] })
  | filled (hvalid : b.settings.valid = true) (hfailure : b.failure ≠ .none) :
      Left env b x (false, { x with vector := (vectorEntries env b.settings b.corpus).take (b.added env) })
  | replaced : Left env b x
      (true, ⟨vectorEntries env b.settings b.corpus, some (bm25Of env b.settings b.corpus)⟩)

section Specs

variable {env : Env} {b : Build} {x : Index} {failure : Failure} {size : ℕ} {entries : List VectorEntry}

theorem le_rounds (hsize : 0 < size) (length : ℕ) : length ≤ rounds size length * size := by
  unfold rounds
  have hdiv := Nat.div_add_mod (length + size - 1) size
  have hmod := Nat.mod_lt (length + size - 1) hsize
  rw [Nat.mul_comm] at hdiv
  omega

theorem take_added {size n : ℕ} (entries : List VectorEntry) (batch : ℕ) (added : ℕ) (hbatch : n ≤ batch)
    (hend : entries.length ≤ n * size) : entries.take (batch * size + added) = entries := by
  refine List.take_of_length_le (hend.trans ?_)
  have hle : n * size ≤ batch * size := Nat.mul_le_mul_right size hbatch
  omega

/-- The loop stands where batch `i` begins, and the failing batch is still to come. -/
theorem addBatches_spec (hearly : failure ≠ .early) (hreset : failure ≠ .reset) (n i : ℕ)
    (hembed : ∀ j, failure = .embed j → i ≤ j) (hadd : ∀ j added, failure = .add j added → i ≤ j)
    (hend : entries.length ≤ (i + n) * size) :
    (addBatches failure size entries n i (entries.take (i * size))).2 = entries.take (failure.added size entries.length) ∧
      ((addBatches failure size entries n i (entries.take (i * size))).1 = true →
        entries.take (failure.added size entries.length) = entries) := by
  induction n generalizing i with
  | zero =>
    rw [Nat.add_zero] at hend
    have hall : entries.take (failure.added size entries.length) = entries := by
      cases failure with
      | early => exact absurd rfl hearly
      | reset => exact absurd rfl hreset
      | embed j => exact take_added entries j 0 (hembed j rfl) hend
      | add j added => exact take_added entries j (min added size) (hadd j added rfl) hend
      | _ => exact List.take_length
    refine ⟨?_, fun _ => hall⟩
    rw [hall]
    exact List.take_of_length_le hend
  | succ n ih =>
    have hbatch : entries.take (i * size) ++ (entries.drop (i * size)).take size = entries.take ((i + 1) * size) := by
      rw [Nat.succ_mul, List.take_add]
    have hnext := ih (i + 1)
    rw [show i + 1 + n = i + (n + 1) by omega] at hnext
    unfold addBatches
    simp only [hbatch]
    by_cases hhere : failure = .embed i
    · subst hhere
      simp [Failure.added]
    rw [if_neg hhere]
    have hembed' : ∀ j, failure = .embed j → i + 1 ≤ j := by
      rintro j rfl
      have hij := hembed j rfl
      have hne : j ≠ i := fun h => hhere (by rw [h])
      omega
    cases failure with
    | add j added =>
      simp only
      by_cases hji : j = i
      · subst hji
        rw [if_pos rfl]
        refine ⟨?_, by simp⟩
        show _ = entries.take (j * size + min added size)
        rw [List.take_add, List.take_take]
      · rw [if_neg hji]
        refine hnext hembed' ?_ hend
        rintro j' added' ⟨⟩
        have hij := hadd j added rfl
        omega
    | _ => exact hnext hembed' (by simp) hend

theorem addBatches_none (n i : ℕ) (vector : List VectorEntry) : (addBatches .none size entries n i vector).1 = true := by
  induction n generalizing i vector with
  | zero => rfl
  | succ n ih => exact ih (i + 1) _

theorem length_vectorEntries (env : Env) (s : Settings) (corpus : Corpus) :
    (vectorEntries env s corpus).length = (allChunks env s corpus).length := by
  simp [vectorEntries]

theorem fill_spec (env : Env) (hvalid : b.settings.valid = true) (hearly : b.failure ≠ .early) (hreset : b.failure ≠ .reset) :
    (fill env b).2 = (vectorEntries env b.settings b.corpus).take (b.added env) ∧
      ((fill env b).1 = true →
        (vectorEntries env b.settings b.corpus).take (b.added env) = vectorEntries env b.settings b.corpus) := by
  have hsize : 0 < b.settings.batchSize.toNat := by
    simp only [Settings.valid, Bool.and_eq_true, decide_eq_true_eq] at hvalid
    omega
  have hend := le_rounds hsize (vectorEntries env b.settings b.corpus).length
  rw [← Nat.zero_add (rounds _ _)] at hend
  have hloop := addBatches_spec hearly hreset _ 0 (fun _ _ => Nat.zero_le _) (fun _ _ _ => Nat.zero_le _) hend
  rw [Nat.zero_mul, List.take_zero] at hloop
  rw [Build.added, ← length_vectorEntries]
  exact hloop

theorem build_left (env : Env) (b : Build) (x : Index) : Left env b x (buildIndex env b x) := by
  unfold buildIndex
  split
  · exact .untouched
  rename_i hstarted
  simp only [Bool.or_eq_true, Bool.not_eq_true', decide_eq_true_eq, not_or, Bool.not_eq_false] at hstarted
  obtain ⟨hvalid, hearly⟩ := hstarted
  split
  · exact .emptied
  rename_i hreset
  obtain ⟨hfill, hall⟩ := fill_spec env hvalid hearly hreset
  rcases hloop : fill env b with ⟨completed, vector⟩
  rw [hloop] at hfill hall
  obtain rfl : vector = _ := hfill
  cases completed with
  | false =>
    refine .filled hvalid ?_
    intro hnone
    rw [fill, hnone] at hloop
    have hend : false = true := by
      rw [← addBatches_none _ _ _, hloop]
    cases hend
  | true =>
    simp only
    split
    · refine .filled hvalid ?_
      rintro hnone
      simp [hnone] at *
    · rw [hall rfl]
      exact .replaced

end Specs

end CyClaw.Retrieval
