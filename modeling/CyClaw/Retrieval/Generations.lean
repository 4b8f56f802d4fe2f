/-
One generation at a time.

Builds follow one another over changing corpora, and each may fail anywhere.  bm25.json is that of
the last build that completed, and the vector index may be ahead of it: a build that fails after
the reset leaves the first of its chunks there.  So the entries of one source and chunk id are of
one version of the document (`Unmixed`) as long as such a build finds the documents whose chunks it
has added as that last build found them (`careful`).
-/
import CyClaw.Lib.Runs
import CyClaw.Retrieval.HybridSearch

namespace CyClaw.Retrieval

structure Builds where
  index : Index
  /-- The last build that completed. -/
  completed : Option Build

def Builds.initial : Builds where
  index := ⟨[], none⟩
  completed := none

def Builds.step (env : Env) (b : Build) (w : Builds) : Option Builds :=
  match buildIndex env b w.index with
  | (true, index) => some ⟨index, some b⟩
  | (false, index) => some ⟨index, w.completed⟩

/-- The chunks which a build that fails has added to the vector index. -/
def Build.leftover (env : Env) (b : Build) : List Chunk :=
  if b.settings.valid && b.failure ≠ .none then (allChunks env b.settings b.corpus).take (b.added env) else []

/-- A build that fails found each document of which it has added a chunk as the last build that
completed found it, if it had any chunks of it: with the same content, cut into the same chunks. -/
def careful (env : Env) (w : Builds) (b : Build) : Bool :=
  w.completed.all fun old =>
    b.corpus.docs.all fun doc => old.corpus.docs.all fun oldDoc =>
      !((b.leftover env).any fun c => c.metadata.source = doc.1) || doc.1 ≠ oldDoc.1 ||
        cleanChunks old.settings oldDoc.2 = [] ||
          (doc.2 = oldDoc.2 && cleanChunks b.settings doc.2 = cleanChunks old.settings oldDoc.2)

/-- **Entries of one source and chunk id have the same text and hash.** -/
def Unmixed (x : Index) : Prop :=
  ∀ e ∈ x.vector, ∀ bm25, x.bm25 = some bm25 → ∀ text metadata, bm25.Has text metadata → metadata.key = e.metadata.key →
    text = e.text ∧ metadata.sourceSha256 = e.metadata.sourceSha256

/-- A semantic score stands by the text and the hash that it is the score of. -/
def Unpaired (x : Index) : Prop :=
  ∀ (settings : RetrievalSettings) (answers : Answers x) (bm25 : Bm25), loadBm25 x = some bm25 →
    ∀ r ∈ hybridSearch settings answers bm25, ∀ s, r.semanticScore = some s →
      ∃ e, (e, s) ∈ answers.semantic.getD [] ∧ e.metadata.key = r.key ∧ r.text = e.text ∧
        r.sourceSha256 = e.metadata.sourceSha256

/-! ### Chunks of a document -/

section Chunks

variable {env : Env} {settings : Settings} {corpus : Corpus} {c : Chunk} {e : VectorEntry} {text : Text} {metadata : Metadata}

theorem Corpus.content_unique (corpus : Corpus) {doc doc' : Text × Text} (h : doc ∈ corpus.docs) (h' : doc' ∈ corpus.docs)
    (hsource : doc.1 = doc'.1) : doc = doc' :=
  List.inj_on_of_nodup_map corpus.nodup h h' hsource

/-- What a chunk of a document says of it. -/
structure ChunkOf (env : Env) (settings : Settings) (doc : Text × Text) (text : Text) (metadata : Metadata) : Prop where
  source : metadata.source = doc.1
  text : (cleanChunks settings doc.2)[metadata.chunkId]? = some text
  sourceSha256 : metadata.sourceSha256 = env.sha256 doc.2

theorem ChunkOf.agree {settings' : Settings} {doc doc' : Text × Text} {text' : Text} {metadata' : Metadata}
    (h : ChunkOf env settings doc text metadata) (h' : ChunkOf env settings' doc' text' metadata')
    (hkey : metadata.key = metadata'.key) (hcontent : doc.2 = doc'.2)
    (hchunks : cleanChunks settings doc.2 = cleanChunks settings' doc'.2) :
    text = text' ∧ metadata.sourceSha256 = metadata'.sourceSha256 := by
  have hid : metadata.chunkId = metadata'.chunkId := congrArg Prod.snd hkey
  constructor
  · apply Option.some.inj
    rw [← h.text, ← h'.text, hid, hchunks]
  · rw [h.sourceSha256, h'.sourceSha256, hcontent]

theorem mem_allChunks (h : c ∈ allChunks env settings corpus) :
    ∃ doc ∈ corpus.docs, ChunkOf env settings doc c.text c.metadata := by
  obtain ⟨doc, hdoc, hc⟩ := List.mem_flatMap.mp h
  obtain ⟨⟨text, i⟩, hmem, rfl⟩ := List.mem_map.mp hc
  exact ⟨doc, hdoc, rfl, List.mem_zipIdx_iff_getElem?.mp hmem, rfl⟩

theorem mem_vectorEntries_take {n : ℕ} (h : e ∈ (vectorEntries env settings corpus).take n) :
    ∃ c ∈ (allChunks env settings corpus).take n, c.text = e.text ∧ c.metadata = e.metadata := by
  obtain ⟨i, hi, rfl⟩ := List.mem_take_iff_getElem.mp h
  rw [length_vectorEntries] at hi
  refine ⟨(allChunks env settings corpus)[i], List.mem_take_iff_getElem.mpr ⟨i, hi, rfl⟩, ?_⟩
  simp [vectorEntries]

theorem bm25Of_has (h : (bm25Of env settings corpus).Has text metadata) :
    ∃ c ∈ allChunks env settings corpus, c.text = text ∧ c.metadata = metadata := by
  obtain ⟨i, htext, hmetadata⟩ := h
  simp only [bm25Of, List.getElem?_map, Option.map_eq_some_iff] at htext hmetadata
  obtain ⟨c, hc, rfl⟩ := htext
  obtain ⟨c', hc', rfl⟩ := hmetadata
  obtain rfl : c = c' := Option.some.inj (hc.symm.trans hc')
  exact ⟨c, List.mem_of_getElem? hc, rfl, rfl⟩

/-- What one build makes of its documents agrees with itself. -/
theorem chunks_agree {text' : Text} {metadata' : Metadata} {doc doc' : Text × Text} (hdoc : doc ∈ corpus.docs)
    (hdoc' : doc' ∈ corpus.docs) (h : ChunkOf env settings doc text metadata)
    (h' : ChunkOf env settings doc' text' metadata') (hkey : metadata.key = metadata'.key) :
    text = text' ∧ metadata.sourceSha256 = metadata'.sourceSha256 := by
  have hsource : doc.1 = doc'.1 := by
    rw [← h.source, ← h'.source]
    exact congrArg Prod.fst hkey
  obtain rfl := corpus.content_unique hdoc hdoc' hsource
  exact h.agree h' hkey rfl rfl

end Chunks

/-! ### What a run keeps -/

/-- Entries with one key agree, whichever legs they are of. -/
def Coherent (x : Index) : Prop :=
  ∀ ⦃text metadata text' metadata'⦄, x.Has text metadata → x.Has text' metadata' → metadata.key = metadata'.key →
    text = text' ∧ metadata.sourceSha256 = metadata'.sourceSha256

structure Kept (env : Env) (w : Builds) : Prop where
  bm25 : w.index.bm25 = w.completed.map fun b => bm25Of env b.settings b.corpus
  coherent : Coherent w.index

section Runs

variable {env : Env} {w w' : Builds} {b old : Build} {x : Index} {c : Chunk} {doc : Text × Text} {text : Text}
  {metadata : Metadata}

theorem Coherent.unmixed (h : Coherent x) : Unmixed x := by
  intro e he bm25 hbm25 text metadata hhas hkey
  exact h (Or.inr ⟨bm25, hbm25, hhas⟩) (Or.inl ⟨e, he, rfl, rfl⟩) hkey

theorem Coherent.unpaired (h : Coherent x) : Unpaired x := by
  intro settings answers bm25 hload r hr s hs
  obtain ⟨hbm25, -⟩ := Option.filter_eq_some_iff.mp hload
  obtain ⟨⟨metadata, hhas, hkey, hsha⟩, e, he, hekey⟩ := hybrid_pairs hbm25 hr hs
  have hentry : x.Has e.text e.metadata := Or.inl ⟨e, Answers.mem_vector he, rfl, rfl⟩
  obtain ⟨htext, hsha'⟩ := h hhas hentry (hkey.trans hekey.symm)
  exact ⟨e, he, hekey, htext, hsha.symm.trans hsha'⟩

/-- The chunks it has added agree with those of the last build that completed. -/
theorem careful_agree {oldDoc : Text × Text} {oldText : Text} {oldMetadata : Metadata} (h : careful env w b = true)
    (hcompleted : w.completed = some old) (hc : c ∈ b.leftover env) (hdoc : doc ∈ b.corpus.docs)
    (hchunk : ChunkOf env b.settings doc c.text c.metadata) (holdDoc : oldDoc ∈ old.corpus.docs)
    (hold : ChunkOf env old.settings oldDoc oldText oldMetadata) (hkey : c.metadata.key = oldMetadata.key) :
    c.text = oldText ∧ c.metadata.sourceSha256 = oldMetadata.sourceSha256 := by
  have hsource : doc.1 = oldDoc.1 := by
    rw [← hchunk.source, ← hold.source]
    exact congrArg Prod.fst hkey
  rw [careful, hcompleted, Option.all_some, List.all_eq_true] at h
  have hpair := List.all_eq_true.mp (h doc hdoc) oldDoc holdDoc
  simp only [Bool.or_eq_true, Bool.not_eq_true', List.any_eq_false, decide_eq_true_eq, Bool.and_eq_true] at hpair
  rcases hpair with ((hnone | hne) | hempty) | ⟨hcontent, hchunks⟩
  · exact absurd hchunk.source (hnone c hc)
  · exact absurd hsource hne
  · have htext := hold.text
    rw [hempty, List.getElem?_nil] at htext
    cases htext
  · exact hchunk.agree hold hkey hcontent hchunks

theorem Kept.mem_bm25 {bm25 : Bm25} (h : Kept env w) (hbm25 : w.index.bm25 = some bm25) (hhas : bm25.Has text metadata) :
    ∃ old, w.completed = some old ∧ ∃ doc ∈ old.corpus.docs, ChunkOf env old.settings doc text metadata := by
  rw [h.bm25] at hbm25
  obtain ⟨old, hold, rfl⟩ := Option.map_eq_some_iff.mp hbm25
  obtain ⟨c, hc, rfl, rfl⟩ := bm25Of_has hhas
  exact ⟨old, hold, mem_allChunks hc⟩

/-- A build has failed, and its first chunks are in the vector index. -/
theorem Kept.filled (h : Kept env w) (hcareful : careful env w b = true) (hvalid : b.settings.valid = true)
    (hfailure : b.failure ≠ .none) :
    Coherent { w.index with vector := (vectorEntries env b.settings b.corpus).take (b.added env) } := by
  have hleftover : b.leftover env = (allChunks env b.settings b.corpus).take (b.added env) := by
    simp [Build.leftover, hvalid, hfailure]
  have hnew : ∀ e ∈ (vectorEntries env b.settings b.corpus).take (b.added env), ∃ c ∈ b.leftover env,
      (∃ doc ∈ b.corpus.docs, ChunkOf env b.settings doc c.text c.metadata) ∧ c.text = e.text ∧ c.metadata = e.metadata := by
    intro e he
    obtain ⟨c, hc, htext, hmetadata⟩ := mem_vectorEntries_take he
    exact ⟨c, hleftover ▸ hc, mem_allChunks (List.mem_of_mem_take hc), htext, hmetadata⟩
  intro text metadata text' metadata' hhas hhas' hkey
  rcases hhas with ⟨e, he, rfl, rfl⟩ | ⟨bm25, hbm25, hhas⟩ <;> rcases hhas' with ⟨e', he', rfl, rfl⟩ | ⟨bm25', hbm25', hhas'⟩
  · obtain ⟨c, -, ⟨doc, hdoc, hchunk⟩, htext, hmetadata⟩ := hnew e he
    obtain ⟨c', -, ⟨doc', hdoc', hchunk'⟩, htext', hmetadata'⟩ := hnew e' he'
    rw [htext, hmetadata] at hchunk
    rw [htext', hmetadata'] at hchunk'
    exact chunks_agree hdoc hdoc' hchunk hchunk' hkey
  · obtain ⟨c, hc, ⟨doc, hdoc, hchunk⟩, htext, hmetadata⟩ := hnew e he
    obtain ⟨old, hold, oldDoc, holdDoc, holdChunk⟩ := h.mem_bm25 hbm25' hhas'
    rw [← hmetadata] at hkey
    rw [← htext, ← hmetadata]
    exact careful_agree hcareful hold hc hdoc hchunk holdDoc holdChunk hkey
  · obtain ⟨c, hc, ⟨doc, hdoc, hchunk⟩, htext, hmetadata⟩ := hnew e' he'
    obtain ⟨old, hold, oldDoc, holdDoc, holdChunk⟩ := h.mem_bm25 hbm25 hhas
    rw [← hmetadata] at hkey
    obtain ⟨htext', hsha⟩ := careful_agree hcareful hold hc hdoc hchunk holdDoc holdChunk hkey.symm
    rw [← htext, ← hmetadata]
    exact ⟨htext'.symm, hsha.symm⟩
  · exact h.coherent (Or.inr ⟨bm25, hbm25, hhas⟩) (Or.inr ⟨bm25', hbm25', hhas'⟩) hkey

/-- A build has completed. -/
theorem coherent_replaced (env : Env) (b : Build) :
    Coherent ⟨vectorEntries env b.settings b.corpus, some (bm25Of env b.settings b.corpus)⟩ := by
  have hall : ∀ {text metadata},
      Index.Has ⟨vectorEntries env b.settings b.corpus, some (bm25Of env b.settings b.corpus)⟩ text metadata →
        ∃ doc ∈ b.corpus.docs, ChunkOf env b.settings doc text metadata := by
    rintro text metadata (⟨e, he, rfl, rfl⟩ | ⟨bm25, ⟨rfl⟩, hhas⟩)
    · rw [← List.take_length (l := vectorEntries env b.settings b.corpus)] at he
      obtain ⟨c, hc, htext, hmetadata⟩ := mem_vectorEntries_take he
      rw [← htext, ← hmetadata]
      exact mem_allChunks (List.mem_of_mem_take hc)
    · obtain ⟨c, hc, rfl, rfl⟩ := bm25Of_has hhas
      exact mem_allChunks hc
  intro text metadata text' metadata' hhas hhas' hkey
  obtain ⟨doc, hdoc, hchunk⟩ := hall hhas
  obtain ⟨doc', hdoc', hchunk'⟩ := hall hhas'
  exact chunks_agree hdoc hdoc' hchunk hchunk' hkey

theorem kept_initial (env : Env) : Kept env Builds.initial where
  bm25 := rfl
  coherent := by
    rintro text metadata text' metadata' (⟨e, he, -⟩ | ⟨bm25, hbm25, -⟩)
    · cases he
    · cases hbm25

/-- **A build keeps this.** -/
theorem Kept.step (h : Kept env w) (hcareful : careful env w b = true) (hstep : w.step env b = some w') : Kept env w' := by
  have hleft := build_left env b w.index
  unfold Builds.step at hstep
  generalize buildIndex env b w.index = out at hleft hstep
  cases hleft with
  | untouched =>
    obtain rfl := Option.some.inj hstep
    exact h
  | emptied =>
    obtain rfl := Option.some.inj hstep
    refine ⟨h.bm25, ?_⟩
    rintro text metadata text' metadata' (⟨e, he, -⟩ | hhas) (⟨e', he', -⟩ | hhas') hkey
    · cases he
    · cases he
    · cases he'
    · exact h.coherent (Or.inr hhas) (Or.inr hhas') hkey
  | filled hvalid hfailure =>
    obtain rfl := Option.some.inj hstep
    exact ⟨h.bm25, h.filled hcareful hvalid hfailure⟩
  | replaced =>
    obtain rfl := Option.some.inj hstep
    exact ⟨rfl, coherent_replaced env b⟩

end Runs

/-- Whatever fails, generations are not mixed as long as the builds that fail find what they have
come to unchanged. -/
theorem generations_not_mixed (env : Env) (w : Builds)
    (hrun : Runs.Later (Builds.step env) (careful env) Builds.initial w) :
    Unmixed w.index ∧ Unpaired w.index := by
  have hkept : Kept env w := hrun.invariant (kept_initial env) fun hw ha hstep => hw.step ha hstep
  exact ⟨hkept.coherent.unmixed, hkept.coherent.unpaired⟩

/-! ### Two builds -/

def asIs : Env where
  sha256 := id
  tokenizeAndStem := PyText.split

def defaults : Settings where
  chunkSize := 512
  chunkOverlap := 50
  batchSize := 50
  sanitizeChunk := id

def first : Build where
  settings := defaults
  corpus := ⟨[("a.md".toList, "old soul".toList)], by decide⟩
  failure := .none

/-- There is a document more, and bm25.json cannot be written. -/
def extended : Build where
  settings := defaults
  corpus := ⟨[("a.md".toList, "old soul".toList), ("b.md".toList, "new".toList)], by decide⟩
  failure := .writeBm25

/-- The document has changed, and bm25.json cannot be written. -/
def edited : Build where
  settings := defaults
  corpus := ⟨[("a.md".toList, "new soul".toList)], by decide⟩
  failure := .writeBm25

/-- The vector index is that of the second build, and bm25.json that of the first one. -/
def halfway (b : Build) : Builds where
  index := ⟨vectorEntries asIs b.settings b.corpus, some (bm25Of asIs first.settings first.corpus)⟩
  completed := some first

theorem generations_not_mixed_extended :
    Runs.run (Builds.step asIs) (careful asIs) [first, extended] Builds.initial = some (halfway extended) ∧
      (halfway extended).index.vector.length = 2 ∧ Unmixed (halfway extended).index ∧ Unpaired (halfway extended).index := by
  have hrun : Runs.run (Builds.step asIs) (careful asIs) [first, extended] Builds.initial = some (halfway extended) := rfl
  exact ⟨hrun, rfl, generations_not_mixed asIs (halfway extended) (Runs.Later.of_run hrun)⟩

/-- The entry of the edited document. -/
def editedEntry : VectorEntry where
  id := 0
  text := "new soul".toList
  metadata := ⟨"a.md".toList, 0, "new soul".toList, ["new".toList, "soul".toList]⟩

/-- What is answered to "soul". -/
def answersSoul : Answers (halfway edited).index where
  semantic := some [(editedEntry, 9 / 10)]
  stored := by
    rintro hits ⟨⟩ hit hmem
    obtain rfl := List.mem_singleton.mp hmem
    decide
  scores := some [1 / 4]

theorem generations_mixed :
    Runs.run (Builds.step asIs) (fun _ _ => true) [first, edited] Builds.initial = some (halfway edited) ∧
      ¬ Unmixed (halfway edited).index ∧ ¬ Unpaired (halfway edited).index := by
  have hrun : Runs.run (Builds.step asIs) (fun _ _ => true) [first, edited] Builds.initial = some (halfway edited) := rfl
  refine ⟨hrun, ?_, ?_⟩
  · intro hunmixed
    have htext := hunmixed editedEntry (by decide) _ rfl "old soul".toList
      ⟨"a.md".toList, 0, "old soul".toList, ["old".toList, "soul".toList]⟩ ⟨0, rfl, rfl⟩ (by decide)
    exact absurd htext.1 (by decide)
  · intro hunpaired
    have hfused : (hybridSearch ⟨5, 60, by decide⟩ answersSoul (bm25Of asIs first.settings first.corpus)).any
        (fun r => r.semanticScore = some (9 / 10) && r.text = "old soul".toList) = true := by decide +kernel
    obtain ⟨r, hr, hread⟩ := List.any_eq_true.mp hfused
    simp only [Bool.and_eq_true, decide_eq_true_eq] at hread
    obtain ⟨e, he, -, htext, -⟩ := hunpaired ⟨5, 60, by decide⟩ answersSoul _ rfl r hr _ hread.1
    obtain rfl : e = editedEntry := by
      simpa [answersSoul] using he
    rw [hread.2] at htext
    exact absurd htext (by decide)

end CyClaw.Retrieval
