/-
Every request is answered, once.

What comes of a line says the line's own id, and is one response but for the notification
`notifications/initialized`, which has none (`Answered`).  A search asks for as many chunks as `top_k`
says, 50 at most; the fused results are cut to that many, and the others are as many as the
retriever returns.
-/
import CyClaw.Mcp.Server

namespace CyClaw.Mcp

open Fallible PyText Retrieval

/-! ### What a response says -/

/-- `response[key]`, of an object. -/
def field (response : PyValue) (key : String) : Option PyValue :=
  match response with
  | .dict fields => PyValue.get fields key
  | _ => none

/-- The chunks of a search response. -/
def chunksOf (response : PyValue) : Option (List PyValue) :=
  match (field response "result").bind fun payload => field payload "chunks" with
  | some (.list chunks) => some chunks
  | _ => none

/-- The arguments, where the message calls the tool. -/
def searchArgs (msg : List (Text × PyValue)) : Option (List (Text × PyValue)) :=
  if isText (PyValue.get msg "method") "tools/call" then
    match (PyValue.get msg "params").getD (object []) with
    | .dict params =>
        match (PyValue.get params "arguments").getD (object []) with
        | .dict args => if isText (PyValue.get params "name") "hybrid_search" then some args else none
        | _ => none
    | _ => none
  else none

/-- How many chunks are asked for. -/
inductive Coerced (f : PyValue.Formats) (raw : PyValue) : ℕ → Prop where
  | number (n : ℕ) (h : raw.toInt f = .ok n) (hpos : 1 ≤ n) : Coerced f raw (min n 50)
  | notPositive (n : ℤ) (h : raw.toInt f = .ok n) (hneg : n < 1) : Coerced f raw 5
  | refused (e : PyError) (h : raw.toInt f = .error e) (he : e ≠ .overflowError) : Coerced f raw 5

/-- The legs return no more than they are asked for. -/
def Surroundings.Keeps (s : Surroundings) (k : ℕ) : Prop :=
  (∀ query results, s.semanticSearch query k = .ok results → results.length ≤ k) ∧
    ∀ query results, s.keywordSearch query k = .ok results → results.length ≤ k

/-- The chunks of a search are as many as are asked for, at most. -/
def Bounded (srv : Server) (s : Surroundings) (msg : List (Text × PyValue)) (response : PyValue) : Prop :=
  ∀ chunks, chunksOf response = some chunks → ∃ args k, searchArgs msg = some args ∧
    Coerced srv.formats (topKArg args) k ∧ k ≤ 50 ∧ (retrievalMode args = .hybrid ∨ s.Keeps k → chunks.length ≤ k)

/-- **What comes of a line.** -/
structure Answered (srv : Server) (line : Line) (out : List PyValue) : Prop where
  blank : strip line.text = [] → out = []
  invalid : strip line.text ≠ [] → (∀ msg, srv.loads (strip line.text) ≠ .value (.dict msg)) →
    ∃ code message, out = [error .none code message]
  notified : ∀ msg, strip line.text ≠ [] → srv.loads (strip line.text) = .value (.dict msg) →
    isText (PyValue.get msg "method") "notifications/initialized" = true → out = []
  answered : ∀ msg msgId, strip line.text ≠ [] → srv.loads (strip line.text) = .value (.dict msg) →
    isText (PyValue.get msg "method") "notifications/initialized" = false → PyValue.get msg "id" = some msgId →
      ∃ response, out = [response] ∧ field response "id" = some msgId
  bounded : ∀ msg, strip line.text ≠ [] → srv.loads (strip line.text) = .value (.dict msg) →
    ∀ response ∈ out, Bounded srv line.surroundings msg response

section Specs

variable {srv : Server} {s : Surroundings} {msgId response : PyValue} {code : ℤ} {message : Text} {k : ℕ}
  {args msg : List (Text × PyValue)} {mode : Mode} {query : Text} {results : List SearchResult} {e : Raised}

@[simp] theorem field_object (fields : List (String × PyValue)) (key : String) :
    field (object fields) key = fields.lookup key := by
  simp only [field, object, PyValue.get]
  induction fields with
  | nil => rfl
  | cons first rest ih =>
    have hkey : (key.toList == first.1.toList) = (key == first.1) := by
      rw [Bool.eq_iff_iff, beq_iff_eq, beq_iff_eq]
      exact String.toList_inj
    rw [List.map_cons, List.lookup_cons, List.lookup_cons, hkey, ih]

@[simp] theorem field_error_id (msgId : PyValue) (code : ℤ) (message : Text) :
    field (error msgId code message) "id" = some msgId := by
  simp [error, List.lookup_cons]

@[simp] theorem field_result_id (msgId payload : PyValue) : field (result msgId payload) "id" = some msgId := by
  simp [result, List.lookup_cons]

@[simp] theorem chunksOf_error (msgId : PyValue) (code : ℤ) (message : Text) :
    chunksOf (error msgId code message) = none := by
  simp [chunksOf, error, List.lookup_cons]

theorem chunksOf_result (msgId : PyValue) (fields : List (String × PyValue)) :
    chunksOf (result msgId (object fields)) =
      match fields.lookup "chunks" with
      | some (.list chunks) => some chunks
      | _ => none := by
  simp [chunksOf, result, List.lookup_cons]

@[simp] theorem chunksOf_payload (msgId : PyValue) (query : Text) (mode : Mode) (results : List SearchResult) :
    chunksOf (result msgId (payload query mode results)) = some (results.map chunk) := by
  rw [payload, chunksOf_result]
  rfl

theorem coerceTopK_coerced {f : PyValue.Formats} {raw : PyValue} (h : coerceTopK f raw = .ok k) : Coerced f raw k := by
  unfold coerceTopK at h
  cases hint : raw.toInt f with
  | ok n =>
    simp only [hint] at h
    by_cases hn : n < 1
    · rw [if_pos hn] at h
      obtain rfl := Except.ok.inj h
      exact .notPositive n hint hn
    · rw [if_neg hn] at h
      obtain rfl := Except.ok.inj h
      obtain ⟨m, rfl⟩ := Int.eq_ofNat_of_zero_le (show 0 ≤ n by omega)
      have hmin : (min (m : ℤ) (maxTopK : ℤ)).toNat = min m 50 := by
        simp only [maxTopK]
        omega
      rw [hmin]
      exact .number m hint (by omega)
  | error e =>
    cases e with
    | overflowError => simp [hint] at h
    | _ =>
      simp only [hint, Except.ok.injEq] at h
      obtain rfl := h
      exact .refused _ hint (by simp)

theorem Coerced.le {f : PyValue.Formats} {raw : PyValue} (h : Coerced f raw k) : k ≤ 50 := by
  cases h with
  | number n => exact min_le_right n 50
  | notPositive => decide
  | refused => decide

/-- The keyword leg over bm25.json. -/
def keywordLeg (bm25 : Bm25) (scores : Text → List ℚ) (query : Text) (k : ℕ) : Except Raised (List SearchResult) :=
  match keywordSearch bm25 (scores query) k with
  | some hits => .ok hits
  | none => .error (.other "list index out of range".toList)

/-- It keeps to what it is asked for, so that only the vector index has to. -/
theorem keeps_of_semantic {bm25 : Bm25} {scores : Text → List ℚ} (hkeyword : s.keywordSearch = keywordLeg bm25 scores)
    (hsemantic : ∀ query results, s.semanticSearch query k = .ok results → results.length ≤ k) : s.Keeps k := by
  refine ⟨hsemantic, fun query results h => ?_⟩
  rw [hkeyword, keywordLeg] at h
  split at h
  · rename_i hits hsearch
    obtain rfl := Except.ok.inj h
    exact length_keywordSearch_le hsearch
  · cases h

theorem length_retrieve_le (h : retrieve s mode query k = .ok results) (hk : mode = .hybrid ∨ s.Keeps k) :
    results.length ≤ k := by
  cases mode with
  | hybrid =>
    simp only [retrieve] at h
    cases hsearch : s.hybridSearch query with
    | error e => simp [hsearch, Except.map] at h
    | ok all =>
      simp only [hsearch, Except.map, Except.ok.injEq] at h
      rw [← h, List.length_take]
      exact min_le_left _ _
  | semantic =>
    rcases hk with hk | hk
    · cases hk
    · exact hk.1 query results h
  | keyword =>
    rcases hk with hk | hk
    · cases hk
    · exact hk.2 query results h

/-! ### What the handlers return -/

/-- **What a search returns**: an error, or what was retrieved. -/
inductive Searched (srv : Server) (s : Surroundings) (msgId : PyValue) (args : List (Text × PyValue)) : PyValue → Prop where
  | refused (code : ℤ) (message : Text) : Searched srv s msgId args (error msgId code message)
  | found {query : Text} {k : ℕ} {results : List SearchResult} (hk : Coerced srv.formats (topKArg args) k)
      (hretrieve : retrieve s (retrievalMode args) query k = .ok results) :
      Searched srv s msgId args (result msgId (payload query (retrievalMode args) results))

theorem search_found {payload : PyValue} (h : search s mode query k = .ok payload) :
    ∃ results, retrieve s mode query k = .ok results ∧ payload = Mcp.payload query mode results := by
  obtain ⟨results, hretrieve, h⟩ := bind_eq_ok.mp h
  obtain ⟨-, -, h⟩ := bind_eq_ok.mp h
  exact ⟨results, hretrieve, (Except.ok.inj h).symm⟩

theorem searchRagError_error {code : Text} (h : searchRagError s msgId mode query code message = .ok response) :
    ∃ code message, response = error msgId code message := by
  obtain ⟨-, -, h⟩ := bind_eq_ok.mp h
  exact ⟨_, _, (Except.ok.inj h).symm⟩

theorem searchError_error (h : searchError srv s msgId mode query e = .ok response) :
    ∃ code message, response = error msgId code message := by
  cases e with
  | promptInjection message => exact searchRagError_error h
  | rag code message => exact searchRagError_error h
  | other text =>
    obtain ⟨-, -, h⟩ := bind_eq_ok.mp h
    exact ⟨_, _, (Except.ok.inj h).symm⟩

theorem handleSearch_searched (h : handleSearch srv s msgId args = .ok response) : Searched srv s msgId args response := by
  unfold handleSearch at h
  split at h
  · split at h
    · obtain rfl := Except.ok.inj h
      exact .refused _ _
    split at h
    · obtain rfl := Except.ok.inj h
      exact .refused _ _
    split at h
    · obtain ⟨-, -, h⟩ := bind_eq_ok.mp h
      obtain rfl := Except.ok.inj h
      exact .refused _ _
    · cases h
    · obtain ⟨k, hk, h⟩ := bind_eq_ok.mp h
      simp only at h
      split at h
      · rename_i payload hsearch
        obtain ⟨results, hretrieve, rfl⟩ := search_found hsearch
        obtain rfl := Except.ok.inj h
        exact .found (coerceTopK_coerced hk) hretrieve
      · obtain ⟨code, message, rfl⟩ := searchError_error h
        exact .refused code message
  · obtain rfl := Except.ok.inj h
    exact .refused _ _

/-- **What a message is answered with**: nothing where it is that notification, else a response with its id. -/
inductive Handled (srv : Server) (s : Surroundings) (msg : List (Text × PyValue)) : Option PyValue → Prop where
  | notified (h : isText (PyValue.get msg "method") "notifications/initialized" = true) : Handled srv s msg none
  | refused (hnot : isText (PyValue.get msg "method") "notifications/initialized" = false) (code : ℤ) (message : Text) :
      Handled srv s msg (some (error (idOf (.dict msg)) code message))
  | listed (hnot : isText (PyValue.get msg "method") "notifications/initialized" = false)
      (fields : List (String × PyValue)) (hchunks : fields.lookup "chunks" = none) :
      Handled srv s msg (some (result (idOf (.dict msg)) (object fields)))
  | searched (hnot : isText (PyValue.get msg "method") "notifications/initialized" = false)
      {args : List (Text × PyValue)} {response : PyValue} (hargs : searchArgs msg = some args)
      (h : Searched srv s (idOf (.dict msg)) args response) : Handled srv s msg (some response)

theorem isText_unique {x : Option PyValue} {t t' : String} (h : isText x t = true) (hne : t ≠ t') : isText x t' = false := by
  unfold isText at h ⊢
  split at h
  · rename_i text
    simp only [decide_eq_true_eq] at h
    subst h
    simpa [String.toList_inj] using hne
  · cases h

theorem callTool_handled (hmethod : isText (PyValue.get msg "method") "tools/call" = true)
    (h : callTool srv s (idOf (.dict msg)) msg = .ok response) : Handled srv s msg (some response) := by
  have hnot : isText (PyValue.get msg "method") "notifications/initialized" = false :=
    isText_unique hmethod (by decide)
  unfold callTool at h
  split at h
  · rename_i params hparams
    split at h
    · rename_i args hargs
      by_cases hname : isText (PyValue.get params "name") "hybrid_search" = true
      · rw [if_pos hname] at h
        have hsearch : searchArgs msg = some args := by
          simp only [searchArgs, hmethod, hparams, hargs, hname, if_true]
        exact .searched hnot hsearch (handleSearch_searched h)
      · rw [if_neg hname] at h
        obtain ⟨name, -, h⟩ := bind_eq_ok.mp h
        obtain rfl := Except.ok.inj h
        exact .refused hnot _ _
    · obtain rfl := Except.ok.inj h
      exact .refused hnot _ _
  · obtain rfl := Except.ok.inj h
    exact .refused hnot _ _

theorem handleMessage_handled {out : Option PyValue} (h : handleMessage srv s (.dict msg) = .ok out) :
    Handled srv s msg out := by
  simp only [handleMessage] at h
  by_cases hinitialize : isText (PyValue.get msg "method") "initialize" = true
  · rw [if_pos hinitialize] at h
    obtain rfl := Except.ok.inj h
    exact .listed (isText_unique hinitialize (by decide)) _ rfl
  rw [if_neg hinitialize] at h
  by_cases hlist : isText (PyValue.get msg "method") "tools/list" = true
  · rw [if_pos hlist] at h
    obtain rfl := Except.ok.inj h
    exact .listed (isText_unique hlist (by decide)) _ rfl
  rw [if_neg hlist] at h
  by_cases hcall : isText (PyValue.get msg "method") "tools/call" = true
  · rw [if_pos hcall] at h
    obtain ⟨response, hresponse, rfl⟩ := map_eq_ok.mp h
    exact callTool_handled hcall hresponse
  rw [if_neg hcall] at h
  by_cases hnotified : isText (PyValue.get msg "method") "notifications/initialized" = true
  · rw [if_pos hnotified] at h
    obtain rfl := Except.ok.inj h
    exact .notified hnotified
  rw [if_neg hnotified] at h
  obtain ⟨name, -, h⟩ := bind_eq_ok.mp h
  obtain rfl := Except.ok.inj h
  exact .refused (by simpa using hnotified) _ _

/-! ### Lines -/

theorem Searched.id (h : Searched srv s msgId args response) : field response "id" = some msgId := by
  cases h <;> simp

theorem Searched.bounded (h : Searched srv s msgId args response) (hargs : searchArgs msg = some args) :
    Bounded srv s msg response := by
  intro chunks hchunks
  cases h with
  | refused => simp at hchunks
  | found hk hretrieve =>
    rw [chunksOf_payload, Option.some.injEq] at hchunks
    refine ⟨args, _, hargs, hk, hk.le, fun hkeeps => ?_⟩
    rw [← hchunks, List.length_map]
    exact length_retrieve_le hretrieve hkeeps

/-- The id and the chunks of a response. -/
theorem Handled.responded (h : Handled srv s msg (some response)) :
    isText (PyValue.get msg "method") "notifications/initialized" = false ∧
      field response "id" = some (idOf (.dict msg)) ∧ Bounded srv s msg response := by
  cases h with
  | refused hnot => exact ⟨hnot, by simp, fun chunks hchunks => by simp at hchunks⟩
  | listed hnot fields hnone =>
    refine ⟨hnot, by simp, fun chunks hchunks => ?_⟩
    rw [chunksOf_result, hnone] at hchunks
    cases hchunks
  | searched hnot hargs h => exact ⟨hnot, h.id, h.bounded hargs⟩

theorem respond_notified (h : isText (PyValue.get msg "method") "notifications/initialized" = true) :
    respond srv s (.dict msg) = .ok [] := by
  have hne : ∀ t : String, "notifications/initialized" ≠ t → isText (PyValue.get msg "method") t = false :=
    fun t ht => isText_unique h ht
  have hmessage : handleMessage srv s (.dict msg) = .ok none := by
    simp only [handleMessage, hne "initialize" (by decide), hne "tools/list" (by decide), hne "tools/call" (by decide), h]
    rfl
  show (handleMessage srv s (.dict msg)).bind _ = _
  rw [hmessage]
  rfl

theorem respond_handled {out : List PyValue} (h : respond srv s (.dict msg) = .ok out) :
    ∃ handled : Option PyValue, Handled srv s msg handled ∧ out = handled.toList := by
  obtain ⟨handled, hmessage, h⟩ := bind_eq_ok.mp h
  refine ⟨handled, handleMessage_handled hmessage, ?_⟩
  cases handled with
  | none => exact (Except.ok.inj h).symm
  | some response =>
    obtain ⟨-, -, h⟩ := bind_eq_ok.mp h
    exact (Except.ok.inj h).symm

/-- An object is answered, unless it is that notification. -/
theorem serveLine_object {line : Line} {out : List PyValue} (hsome : strip line.text ≠ [])
    (hloads : srv.loads (strip line.text) = .value (.dict msg)) (h : serveLine srv line = some out) :
    (isText (PyValue.get msg "method") "notifications/initialized" = true ∧ out = []) ∨
      (isText (PyValue.get msg "method") "notifications/initialized" = false ∧ ∃ response, out = [response] ∧
        field response "id" = some (idOf (.dict msg)) ∧ Bounded srv line.surroundings msg response) := by
  simp only [serveLine, if_neg hsome, hloads] at h
  cases hresponse : respond srv line.surroundings (.dict msg) with
  | ok out' =>
    simp only [hresponse, Option.some.injEq] at h
    subst h
    obtain ⟨handled, hhandled, rfl⟩ := respond_handled hresponse
    cases handled with
    | none =>
      cases hhandled with
      | notified h => exact Or.inl ⟨h, rfl⟩
    | some response =>
      obtain ⟨hnot, hid, hbounded⟩ := hhandled.responded
      exact Or.inr ⟨hnot, response, rfl, hid, hbounded⟩
  | error e =>
    simp only [hresponse, Option.some.injEq] at h
    subst h
    refine Or.inr ⟨?_, _, rfl, by simp, fun chunks hchunks => by simp at hchunks⟩
    by_contra hnot
    rw [Bool.not_eq_false] at hnot
    rw [respond_notified hnot] at hresponse
    cases hresponse

theorem serveLine_invalid {line : Line} {out : List PyValue} (hsome : strip line.text ≠ [])
    (hloads : ∀ msg, srv.loads (strip line.text) ≠ .value (.dict msg)) (h : serveLine srv line = some out) :
    ∃ code message, out = [error .none code message] := by
  simp only [serveLine, if_neg hsome] at h
  split at h
  · exact ⟨_, _, (Option.some.inj h).symm⟩
  · cases h
  · rename_i msg hmsg
    have hhandled : handleMessage srv line.surroundings msg =
        .ok (some (error .none (-32600) "Invalid Request".toList)) := by
      cases msg with
      | dict fields => exact absurd hmsg (hloads fields)
      | _ => rfl
    have hresponse : respond srv line.surroundings msg =
        .ok [error .none (-32600) "Invalid Request".toList] := by
      show (handleMessage srv line.surroundings msg).bind _ = _
      rw [hhandled]
      show (line.surroundings.dumps _).bind _ = _
      rw [line.surroundings.dumps_error]
      rfl
    rw [hresponse] at h
    exact ⟨_, _, (Option.some.inj h).symm⟩

theorem serveLine_answered {line : Line} {out : List PyValue} (h : serveLine srv line = some out) :
    Answered srv line out where
  blank := by
    intro hblank
    simp only [serveLine, if_pos hblank, Option.some.injEq] at h
    exact h.symm
  invalid := fun hsome hloads => serveLine_invalid hsome hloads h
  notified := by
    intro msg hsome hloads hnotified
    rcases serveLine_object hsome hloads h with ⟨-, hout⟩ | ⟨hnot, -⟩
    · exact hout
    · rw [hnotified] at hnot
      cases hnot
  answered := by
    intro msg msgId hsome hloads hnot hid
    rcases serveLine_object hsome hloads h with ⟨hnotified, -⟩ | ⟨-, response, hout, hresponse, -⟩
    · rw [hnotified] at hnot
      cases hnot
    · refine ⟨response, hout, ?_⟩
      rw [hresponse, idOf, hid]
      rfl
  bounded := by
    intro msg hsome hloads response hmem
    rcases serveLine_object hsome hloads h with ⟨-, hout⟩ | ⟨-, response', hout, -, hbounded⟩
    · rw [hout] at hmem
      cases hmem
    · rw [hout] at hmem
      obtain rfl := List.mem_singleton.mp hmem
      exact hbounded

/-- A round ends the process only where the parser ran out of stack. -/
theorem serveLine_isSome {line : Line} (h : srv.loads (strip line.text) ≠ .recursionError) :
    ∃ out, serveLine srv line = some out := by
  simp only [serveLine]
  split
  · exact ⟨_, rfl⟩
  split
  · exact ⟨_, rfl⟩
  · rename_i hloads
    exact absurd hloads h
  · split
    · exact ⟨_, rfl⟩
    · exact ⟨_, rfl⟩

end Specs

/-- **Every line is read, in order, and what comes of each is `Answered`**, unless the parser runs out of stack. -/
theorem requests_answered (srv : Server) (lines : List Line)
    (h : ∀ line ∈ lines, srv.loads (strip line.text) ≠ .recursionError) :
    (main srv .ready lines).ended = .endOfInput ∧ List.Forall₂ (Answered srv) lines (main srv .ready lines).outputs := by
  show (serve srv lines).ended = _ ∧ List.Forall₂ _ lines (serve srv lines).outputs
  induction lines with
  | nil => exact ⟨rfl, .nil⟩
  | cons line lines ih =>
    obtain ⟨out, hout⟩ := serveLine_isSome (h line List.mem_cons_self)
    obtain ⟨hended, hrest⟩ := ih fun line' hline' => h line' (List.mem_cons_of_mem line hline')
    simp only [serve, hout]
    exact ⟨hended, .cons (serveLine_answered hout) hrest⟩

/-! ### A few lines -/

def initialized : PyValue := object [("id", .int 1), ("method", str "notifications/initialized")]

def searching (mode : String) : PyValue :=
  object [("id", .int 2), ("method", str "tools/call"), ("params", object [("name", str "hybrid_search"),
    ("arguments", object [("query", str "soul"), ("top_k", str "3"), ("mode", str mode)])])]

def initializedLine : Text := "\x7b\"id\": 1, \"method\": \"notifications/initialized\"\x7d".toList

def searchingLine (mode : String) : Text :=
  ("\x7b\"id\": 2, \"method\": \"tools/call\", \"params\": \x7b\"name\": \"hybrid_search\", \"arguments\": " ++
    "\x7b\"query\": \"soul\", \"top_k\": \"3\", \"mode\": \"" ++ mode ++ "\"\x7d\x7d\x7d").toList

def sample : Server where
  formats := ⟨fun t => if t = "3".toList then some 3 else none, fun _ => none, fun _ => []⟩
  redactSensitive := id
  loads t :=
    if t = initializedLine then .value initialized
    else if t = searchingLine "hybrid" then .value (searching "hybrid")
    else if t = searchingLine "semantic" then .value (searching "semantic")
    else .decodeError "Expecting value: line 1 column 1 (char 0)".toList

def hit : SearchResult where
  text := "soul".toList
  score := 1 / 30
  source := "a.md".toList
  chunkId := 0
  stemTags := ["soul".toList]
  retrievalMode := .hybrid
  sourceSha256 := []

/-- Nothing is raised, and the semantic leg has so many hits. -/
def returning (semantic : ℕ) : Surroundings where
  checkInput _ := .ok ()
  auditLog _ := .ok ()
  semanticSearch _ _ := .ok (List.replicate semantic hit)
  keywordSearch _ _ := .ok []
  hybridSearch _ := .ok (List.replicate 5 hit)
  describe _ := .ok "None".toList
  dumps _ := .ok ()
  dumps_error _ _ _ := rfl

/-- How many chunks each response has. -/
def Run.chunkCounts (r : Run) : List (List (Option ℕ)) :=
  r.outputs.map fun out => out.map fun response => (chunksOf response).map List.length

theorem requests_answered_sample :
    (main sample .ready [⟨searchingLine "hybrid", returning 3⟩, ⟨"soul".toList, returning 3⟩]).chunkCounts = [[some 3], [none]] ∧
      List.Forall₂ (Answered sample) [⟨searchingLine "hybrid", returning 3⟩, ⟨"soul".toList, returning 3⟩]
        (main sample .ready [⟨searchingLine "hybrid", returning 3⟩, ⟨"soul".toList, returning 3⟩]).outputs := by
  refine ⟨by decide +kernel, (requests_answered sample _ fun line _ => ?_).2⟩
  simp only [sample]
  split_ifs <;> simp

theorem request_unanswered :
    sample.loads (strip initializedLine) = .value initialized ∧ field initialized "id" = some (.int 1) ∧
      sample.loads (strip (searchingLine "hybrid")) = .value (searching "hybrid") ∧
        sample.loads (strip (searchingLine "semantic")) = .value (searching "semantic") ∧
          (main sample .ready [⟨initializedLine, returning 51⟩, ⟨searchingLine "hybrid", returning 51⟩,
            ⟨searchingLine "semantic", returning 51⟩]).chunkCounts = [[], [some 3], [some 51]] := by
  have hinitialized : strip initializedLine = initializedLine := by decide +kernel
  have hhybrid : strip (searchingLine "hybrid") = searchingLine "hybrid" := by decide +kernel
  have hsemantic : strip (searchingLine "semantic") = searchingLine "semantic" := by decide +kernel
  have hne : searchingLine "hybrid" ≠ initializedLine ∧ searchingLine "semantic" ≠ initializedLine ∧
      searchingLine "semantic" ≠ searchingLine "hybrid" := by decide +kernel
  refine ⟨?_, ?_, ?_, ?_, by decide +kernel⟩
  · simp only [hinitialized, sample, if_true]
  · simp [initialized]
  · simp only [hhybrid, sample, if_neg hne.1, if_true]
  · simp only [hsemantic, sample, if_neg hne.2.1, if_neg hne.2.2, if_true]

end CyClaw.Mcp
