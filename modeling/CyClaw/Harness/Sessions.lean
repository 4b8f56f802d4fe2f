/-
The session store, `harness/sessions.py`.

A session is a file of its own, and each change reads it whole, edits it and replaces it.  The
sections under the lock are one step; creating a session and reading one are not locked and
take two.

The lemma that carries the file is `sessionFromDict_payload`: what is written is read back as
it was.  With it a step does to the file what `SessionEntry.apply` does to the session
(`view_concat`), so the files show the log of the calls that succeeded
(`session_store_refines_log`).
-/
import CyClaw.Lib.Json
import CyClaw.Lib.PyText
import CyClaw.Lib.Threads
import Mathlib.Algebra.BigOperators.Group.List.Basic
import Mathlib.Algebra.Ring.Int.Defs
import Mathlib.Data.Int.Order.Basic

namespace CyClaw.Harness

open PyText Threads

abbrev SessionText := List Char

/-- `_MAX_MESSAGES`. -/
def maxMessages : ℕ := 500

/-- `_ID_RE`, `^[0-9a-f]{12}$`; a line break at the end passes the `$`. -/
def isSessionId (id : SessionText) : Bool :=
  let t := if ['\n'].isSuffixOf id then id.dropLast else id
  t.length = 12 && t.all fun c => c.isDigit || ('a' ≤ c && c ≤ 'f')

structure SessionStoreError where
  message : String
  code : String
  /-- `details`, the session's id. -/
  id : Option SessionText
deriving DecidableEq

def invalidId (id : SessionText) : SessionStoreError := ⟨"invalid session id", "HARNESS_SESSION_ERROR", some id⟩

def unknownSession (id : SessionText) : SessionStoreError := ⟨"unknown session", "HARNESS_SESSION_ERROR", some id⟩

/-- The message names the file; the model keeps its id. -/
def unreadable (id : SessionText) : SessionStoreError :=
  ⟨"unreadable session file", "HARNESS_SESSION_ERROR", some id⟩

def notPersisted : SessionStoreError := ⟨"could not persist session", "HARNESS_SESSION_PERSIST_ERROR", none⟩

structure TokenTally where
  promptTokens : ℤ
  completionTokens : ℤ
  exchanges : ℤ

/-- A message.  Its fields are not checked when they are read, so they are what stands in the
file. -/
structure Message where
  role : Json
  text : Json
  ts : Json

structure Session where
  sessionId : Json
  title : Json
  createdTs : ℚ
  model : Json
  messages : List Message
  tally : TokenTally
  goal : SessionText

/-! ### Files -/

def Message.asDict (m : Message) : Json :=
  .obj [("role".toList, m.role), ("text".toList, m.text), ("ts".toList, m.ts)]

def TokenTally.asDict (t : TokenTally) : Json :=
  .obj [("prompt_tokens".toList, .int t.promptTokens), ("completion_tokens".toList, .int t.completionTokens),
    ("exchanges".toList, .int t.exchanges)]

/-- The payload of `_write`. -/
def Session.payload (s : Session) : Json :=
  .obj [("session_id".toList, s.sessionId), ("title".toList, s.title), ("created_ts".toList, .float s.createdTs),
    ("model".toList, s.model), ("messages".toList, .arr (s.messages.map Message.asDict)),
    ("tally".toList, s.tally.asDict), ("goal".toList, .str s.goal)]

/-- `Message(**msg)`, `none` where it raises. -/
def messageOf (now : ℚ) : Json → Option Message
  | .obj fields =>
      if (Json.keys fields).all (· ∈ ["role".toList, "text".toList, "ts".toList]) = true then
        (Json.get fields "role").bind fun role =>
          (Json.get fields "text").map fun text => ⟨role, text, (Json.get fields "ts").getD (.float now)⟩
      else none
  | _ => none

def tallyFromDict (nums : Json.Numerals) : Json → Option TokenTally
  | .obj fields =>
      (((Json.get fields "prompt_tokens").getD (.int 0)).toInt nums).bind fun prompt =>
        (((Json.get fields "completion_tokens").getD (.int 0)).toInt nums).bind fun completion =>
          (((Json.get fields "exchanges").getD (.int 0)).toInt nums).map fun exchanges =>
            ⟨prompt, completion, exchanges⟩
  | _ => none

/-- `_session_from_dict`, `none` where it raises. -/
def sessionFromDict (nums : Json.Numerals) (now : ℚ) : Json → Option Session
  | .obj parsed =>
      (((Json.get parsed "messages").getD (.arr [])).items).bind fun raw =>
        (raw.mapM (messageOf now)).bind fun messages =>
          (Json.get parsed "session_id").bind fun sessionId =>
            (((Json.get parsed "created_ts").getD (.int 0)).toFloat nums).bind fun createdTs =>
              (tallyFromDict nums ((Json.get parsed "tally").getD (.obj []))).map fun tally =>
                { sessionId := sessionId
                  title := (Json.get parsed "title").getD (.str [])
                  createdTs := createdTs
                  model := (Json.get parsed "model").getD (.str [])
                  messages := messages
                  tally := tally
                  goal :=
                    match Json.get parsed "goal" with
                    | some (.str goal) => strip goal
                    | _ => [] }
  | _ => none

/-! ### Calls -/

/-- What a call may give as a goal: a text, or something that is none. -/
inductive Goal where
  | text (t : SessionText)
  | other

/-- `goal.strip() if isinstance(goal, str) else ""`. -/
def Goal.stripped : Goal → SessionText
  | .text t => strip t
  | .other => []

inductive SessionCall where
  | create (model title : SessionText)
  | get (id : SessionText)
  | recordExchange (id userText assistantText model : SessionText) (usage : TokenTally)
  | rename (id : SessionText) (title : Option SessionText) (goal : Option Goal)

/-- What a call finds around it. -/
structure Around where
  /-- `uuid.uuid4().hex[:12]`. -/
  uuid : SessionText
  /-- `time.strftime("%Y-%m-%d %H:%M")`. -/
  stamp : SessionText
  /-- What `time.time()` says, one time after the other. -/
  clock : ℕ → ℚ
  /-- The file can be read. -/
  reads : Bool
  /-- Nothing fails before the rename. -/
  writes : Bool

/-- What a successful call has done. -/
inductive SessionEntry where
  | created (id title model : SessionText) (ts : ℚ)
  | exchanged (id userText assistantText model : SessionText) (usage : TokenTally) (userTs assistantTs : ℚ)
  | renamed (id : SessionText) (title : Option SessionText) (goal : Option Goal)

structure SessionDir where
  /-- The files, by the id in their name. -/
  files : SessionText → Option Json
  /-- The ids that were drawn. -/
  drawn : List SessionText
  /-- What the calls that returned have done, the first one first. -/
  log : List SessionEntry

def SessionDir.empty : SessionDir where
  files := fun _ => none
  drawn := []
  log := []

def SessionDir.put (d : SessionDir) (id : SessionText) (file : Json) : SessionText → Option Json :=
  Function.update d.files id (some file)

/-- The reading of a file that is there. -/
def readSession (nums : Json.Numerals) (a : Around) (id : SessionText) :
    Option Json → Except SessionStoreError Session
  | none => .error (unreadable id)
  | some file =>
      if a.reads = true then
        match sessionFromDict nums (a.clock 0) file with
        | some s => .ok s
        | none => .error (unreadable id)
      else .error (unreadable id)

/-- `SessionStore.get`, in one step. -/
def sessionGet (nums : Json.Numerals) (a : Around) (id : SessionText) (d : SessionDir) :
    Except SessionStoreError Session :=
  if isSessionId id = true then
    match d.files id with
    | none => .error (unknownSession id)
    | some file => readSession nums a id (some file)
  else .error (invalidId id)

/-- The path of `_write` is that of the session's own id. -/
def pathOf : Json → Except SessionStoreError SessionText
  | .str id => if isSessionId id = true then .ok id else .error (invalidId id)
  | _ => .error notPersisted

/-- `_write`, which has `done` succeed. -/
def writeSession (a : Around) (s : Session) (done : SessionEntry) (d : SessionDir) :
    Except SessionStoreError SessionDir :=
  match pathOf s.sessionId with
  | .error e => .error e
  | .ok id =>
      if a.writes = true then .ok { d with files := d.put id s.payload, log := d.log ++ [done] }
      else .error notPersisted

/-- The last messages, where there are more than `n`. -/
def cut {α : Type*} (n : ℕ) (messages : List α) : List α :=
  if messages.length > n then messages.drop (messages.length - n) else messages

/-- What `record_exchange` makes of a session. -/
def Session.exchange (s : Session) (userText assistantText model : SessionText) (usage : TokenTally)
    (userTs assistantTs : ℚ) : Session :=
  { s with
    messages := cut maxMessages (s.messages ++
      [⟨.str "user".toList, .str userText, .float userTs⟩,
        ⟨.str "assistant".toList, .str assistantText, .float assistantTs⟩])
    model := .str model
    tally :=
      { promptTokens := s.tally.promptTokens + max usage.promptTokens 0
        completionTokens := s.tally.completionTokens + max usage.completionTokens 0
        exchanges := s.tally.exchanges + 1 } }

/-- What `rename` makes of one. -/
def Session.rename (s : Session) (title : Option SessionText) (goal : Option Goal) : Session :=
  { s with
    title :=
      match title with
      | none => s.title
      | some t => if strip t = [] then s.title else .str (strip t)
    goal := goal.elim s.goal Goal.stripped }

/-- The title of a session that is created. -/
def firstTitle (a : Around) (title : SessionText) : SessionText :=
  if strip title = [] then "session ".toList ++ a.stamp else strip title

def newSession (a : Around) (model title : SessionText) : Session where
  sessionId := .str a.uuid
  title := .str (firstTitle a title)
  createdTs := a.clock 0
  model := .str model
  messages := []
  tally := ⟨0, 0, 0⟩
  goal := []

inductive SessionJob where
  | idle
  /-- In `create`, with the session still to be written. -/
  | creating (model title : SessionText) (a : Around)
  /-- In `get`, after the file was found. -/
  | reading (id : SessionText)
  | returned (call : SessionCall) (result : Except SessionStoreError Session)

inductive SessionTurn where
  | call (c : SessionCall) (a : Around)
  | goOn (a : Around)

/-- A section under the lock: read, edit, write. -/
def locked (nums : Json.Numerals) (a : Around) (call : SessionCall) (id : SessionText) (edit : Session → Session)
    (done : SessionEntry) (d : SessionDir) : SessionJob × SessionDir :=
  match sessionGet nums a id d with
  | .error e => (.returned call (.error e), d)
  | .ok s =>
      match writeSession a (edit s) done d with
      | .error e => (.returned call (.error e), d)
      | .ok d' => (.returned call (.ok (edit s)), d')

def startCall (nums : Json.Numerals) (a : Around) (d : SessionDir) : SessionCall → SessionJob × SessionDir
  | .create model title => (.creating model title a, { d with drawn := a.uuid :: d.drawn })
  | .get id =>
      if isSessionId id = true then
        if (d.files id).isSome then (.reading id, d) else (.returned (.get id) (.error (unknownSession id)), d)
      else (.returned (.get id) (.error (invalidId id)), d)
  | .recordExchange id user assistant model usage =>
      locked nums a (.recordExchange id user assistant model usage) id
        (·.exchange user assistant model usage (a.clock 1) (a.clock 2))
        (.exchanged id user assistant model usage (a.clock 1) (a.clock 2)) d
  | .rename id title goal =>
      locked nums a (.rename id title goal) id (·.rename title goal) (.renamed id title goal) d

def sessionAct (nums : Json.Numerals) : SessionTurn → SessionJob → SessionDir → Option (SessionJob × SessionDir)
  | .call c a, .idle, d => some (startCall nums a d c)
  | .call c a, .returned _ _, d => some (startCall nums a d c)
  | .goOn a, .creating model title a₀, d =>
      match writeSession a (newSession a₀ model title) (.created a₀.uuid (firstTitle a₀ title) model (a₀.clock 0)) d with
      | .error e => some (.returned (.create model title) (.error e), d)
      | .ok d' => some (.returned (.create model title) (.ok (newSession a₀ model title)), d')
  | .goOn a, .reading id, d => some (.returned (.get id) (readSession nums a id (d.files id)), d)
  | _, _, _ => none

abbrev SessionWorld := World ℕ SessionJob SessionDir

def SessionWorld.initial : SessionWorld := { job := fun _ => .idle, store := .empty }

/-- Ids are drawn fresh, and are twelve hexadecimal digits. -/
def freshIds (w : SessionWorld) : ℕ × SessionTurn → Bool
  | (_, .call (.create _ _) a) => isSessionId a.uuid && a.uuid ∉ w.store.drawn
  | _ => true

/-! ### The log -/

def SessionEntry.id : SessionEntry → SessionText
  | .created id _ _ _ => id
  | .exchanged id _ _ _ _ _ _ => id
  | .renamed id _ _ => id

section Log

variable (log : List SessionEntry) (id : SessionText)

/-- What the log says of one session. -/
def logOf : List SessionEntry := log.filter fun e => e.id = id

def createdAt : List SessionEntry → Option ℚ
  | .created _ _ _ ts :: _ => some ts
  | _ => none

def messagesIn : List SessionEntry → List Message := List.flatMap fun
  | .exchanged _ user assistant _ _ userTs assistantTs =>
      [⟨.str "user".toList, .str user, .float userTs⟩,
        ⟨.str "assistant".toList, .str assistant, .float assistantTs⟩]
  | _ => []

/-- The token counts that were reported. -/
def usageIn : List SessionEntry → List TokenTally := List.filterMap fun
  | .exchanged _ _ _ _ usage _ _ => some usage
  | _ => none

def modelsIn : List SessionEntry → List SessionText := List.filterMap fun
  | .created _ _ model _ => some model
  | .exchanged _ _ _ model _ _ _ => some model
  | .renamed _ _ _ => none

/-- The titles that were set, without those that are blank. -/
def titlesIn : List SessionEntry → List SessionText := List.filterMap fun
  | .created _ title _ _ => some title
  | .renamed _ (some title) _ => if strip title = [] then none else some (strip title)
  | _ => none

def goalsIn : List SessionEntry → List SessionText := List.filterMap fun
  | .renamed _ _ goal => goal.map Goal.stripped
  | _ => none

def tallyIn (es : List SessionEntry) : TokenTally where
  promptTokens := ((usageIn es).map fun u => max u.promptTokens 0).sum
  completionTokens := ((usageIn es).map fun u => max u.completionTokens 0).sum
  exchanges := (usageIn es).length

/-- The session that a log shows. -/
def view : Option Session :=
  (createdAt (logOf log id)).map fun ts =>
    { sessionId := .str id
      title := .str ((titlesIn (logOf log id)).getLastD [])
      createdTs := ts
      model := .str ((modelsIn (logOf log id)).getLastD [])
      messages := cut maxMessages (messagesIn (logOf log id))
      tally := tallyIn (logOf log id)
      goal := (goalsIn (logOf log id)).getLastD [] }

end Log

/-! ### What is written is read back -/

section Codec

variable (nums : Json.Numerals) (now : ℚ)

theorem messageOf_asDict (m : Message) : messageOf now m.asDict = some m := rfl

theorem mapM_messageOf (ms : List Message) : (ms.map Message.asDict).mapM (messageOf now) = some ms := by
  induction ms with
  | nil => rfl
  | cons m ms ih =>
    rw [List.map_cons, List.mapM_cons, messageOf_asDict, ih]
    rfl

/-- **What is written is read back**, where the goal is stripped. -/
theorem sessionFromDict_payload {s : Session} (h : strip s.goal = s.goal) :
    sessionFromDict nums now s.payload = some s := by
  have hmessages := mapM_messageOf now s.messages
  show ((s.messages.map Message.asDict).mapM (messageOf now)).bind _ = some s
  rw [hmessages, Option.bind_some]
  show some { s with goal := strip s.goal } = some s
  rw [h]

end Codec

/-! ### Cutting -/

theorem cut_eq_drop {α : Type*} (n : ℕ) (xs : List α) : cut n xs = xs.drop (xs.length - n) := by
  unfold cut
  split
  · rfl
  · rename_i h
    rw [Nat.sub_eq_zero_of_le (Nat.le_of_not_gt h), List.drop_zero]

/-- What was cut before is cut again. -/
theorem cut_append {α : Type*} (n : ℕ) (xs ys : List α) : cut n (cut n xs ++ ys) = cut n (xs ++ ys) := by
  rw [cut_eq_drop, cut_eq_drop, cut_eq_drop, List.length_append, List.length_append, List.length_drop]
  by_cases h : xs.length ≤ n
  · rw [Nat.sub_eq_zero_of_le h, List.drop_zero, Nat.sub_zero]
  · rw [← List.drop_append_of_le_length (Nat.sub_le _ _), List.drop_drop]
    congr 1
    omega

/-! ### The log grows -/

/-- What an entry that creates nothing makes of the session. -/
def SessionEntry.apply : SessionEntry → Session → Session
  | .created _ _ _ _, s => s
  | .exchanged _ user assistant model usage userTs assistantTs, s =>
      s.exchange user assistant model usage userTs assistantTs
  | .renamed _ title goal, s => s.rename title goal

def SessionEntry.creates : SessionEntry → Bool
  | .created _ _ _ _ => true
  | _ => false

section View

variable {log : List SessionEntry} {id : SessionText} {e : SessionEntry} {s : Session}

theorem logOf_concat_self (h : e.id = id) : logOf (log ++ [e]) id = logOf log id ++ [e] := by
  unfold logOf
  rw [List.filter_append]
  simp [h]

theorem view_concat_of_ne (h : e.id ≠ id) : view (log ++ [e]) id = view log id := by
  have hlog : logOf (log ++ [e]) id = logOf log id := by
    unfold logOf
    rw [List.filter_append, List.filter_cons_of_neg (by simpa using h), List.filter_nil, List.append_nil]
  unfold view
  rw [hlog]

theorem createdAt_append {es es' : List SessionEntry} {ts : ℚ} (h : createdAt es = some ts) :
    createdAt (es ++ es') = some ts := by
  cases es with
  | nil => cases h
  | cons e es => cases e <;> exact h

/-- **An entry does to what the log shows what the call did to the session.** -/
theorem view_concat (hview : view log id = some s) (hid : e.id = id) (hnew : e.creates = false) :
    view (log ++ [e]) id = some (e.apply s) := by
  unfold view at hview
  obtain ⟨ts, hts, rfl⟩ := Option.map_eq_some_iff.mp hview
  unfold view
  rw [logOf_concat_self hid, createdAt_append hts, Option.map_some, Option.some.injEq]
  cases e with
  | created => cases hnew
  | exchanged _ user assistant model usage userTs assistantTs =>
    unfold SessionEntry.apply Session.exchange
    simp only [Session.mk.injEq, true_and]
    refine ⟨?_, ?_, ?_, ?_, ?_⟩
    · simp [titlesIn]
    · simp [modelsIn]
    · rw [cut_append]
      simp [messagesIn]
    · simp [tallyIn, usageIn]
    · simp [goalsIn]
  | renamed _ title goal =>
    unfold SessionEntry.apply Session.rename
    simp only [Session.mk.injEq, true_and]
    refine ⟨?_, ?_, ?_, ?_, ?_⟩
    · cases title with
      | none => simp [titlesIn]
      | some t => by_cases ht : strip t = [] <;> simp [titlesIn, ht]
    · simp [modelsIn]
    · simp [messagesIn]
    · simp [tallyIn, usageIn]
    · cases goal <;> simp [goalsIn]

theorem view_created (a : Around) (model title : SessionText) (h : logOf log a.uuid = []) :
    view (log ++ [.created a.uuid (firstTitle a title) model (a.clock 0)]) a.uuid = some (newSession a model title) := by
  have hlog : logOf (log ++ [.created a.uuid (firstTitle a title) model (a.clock 0)]) a.uuid =
      [.created a.uuid (firstTitle a title) model (a.clock 0)] := by
    rw [logOf_concat_self (show SessionEntry.id (.created a.uuid _ _ _) = a.uuid from rfl), h, List.nil_append]
  unfold view
  rw [hlog]
  rfl

theorem view_none (h : logOf log id = []) : view log id = none := by
  unfold view
  rw [h]
  rfl

theorem sessionId_view (h : view log id = some s) : s.sessionId = .str id := by
  unfold view at h
  obtain ⟨ts, -, rfl⟩ := Option.map_eq_some_iff.mp h
  rfl

theorem strip_goal_view (h : view log id = some s) : strip s.goal = s.goal := by
  unfold view at h
  obtain ⟨ts, -, rfl⟩ := Option.map_eq_some_iff.mp h
  have hgoals : ∀ es : List SessionEntry, ∀ g ∈ goalsIn es, strip g = g := by
    intro es g hg
    obtain ⟨e, -, he⟩ := List.mem_filterMap.mp hg
    cases e with
    | renamed _ _ goal =>
      obtain ⟨x, -, rfl⟩ := Option.map_eq_some_iff.mp he
      cases x with
      | text t => exact strip_strip t
      | other => rfl
    | _ => cases he
  show strip ((goalsIn (logOf log id)).getLastD []) = (goalsIn (logOf log id)).getLastD []
  rw [List.getLastD_eq_getLast?]
  cases hlast : (goalsIn (logOf log id)).getLast? with
  | none => rfl
  | some g => exact hgoals _ g (List.mem_of_getLast? hlast)

end View

/-! ### What a step does -/

/-- The files hold what the log shows. -/
structure SessionDir.Shows (d : SessionDir) : Prop where
  files : ∀ id, d.files id = (view d.log id).map Session.payload
  drawn : ∀ e ∈ d.log, e.id ∈ d.drawn

/-- What `get` is to return. -/
def shown (log : List SessionEntry) (id : SessionText) : Except SessionStoreError Session :=
  if isSessionId id = true then (view log id).elim (.error (unknownSession id)) .ok else .error (invalidId id)

/-- What a call that succeeds notes. -/
def SessionCall.Notes : SessionCall → SessionEntry → Prop
  | .create model title, .created _ title' model' _ => model = model' ∧ ∃ a, title' = firstTitle a title
  | .recordExchange id user assistant model usage, .exchanged id' user' assistant' model' usage' _ _ =>
      id = id' ∧ user = user' ∧ assistant = assistant' ∧ model = model' ∧ usage = usage'
  | .rename id title goal, .renamed id' title' goal' => id = id' ∧ title = title' ∧ goal = goal'
  | _, _ => False

/-- The id of a session that is still to be written. -/
def SessionJob.pending : SessionJob → Option SessionText
  | .creating _ _ a => some a.uuid
  | _ => none

/-- What a thread knows. -/
def SessionJob.Sound (d : SessionDir) : SessionJob → Prop
  | .creating _ _ a => a.uuid ∈ d.drawn ∧ logOf d.log a.uuid = [] ∧ isSessionId a.uuid = true
  | .reading id => (d.files id).isSome = true ∧ isSessionId id = true
  | _ => True

/-- **What a step makes of the directory.** -/
inductive SessionEffect (nums : Json.Numerals) (a : Around) (d : SessionDir) :
    SessionJob → SessionJob → SessionDir → Prop where
  | looks {b id} (hfile : (d.files id).isSome = true) (hid : isSessionId id = true) :
      SessionEffect nums a d b (.reading id) d
  | gets {b id r} (hr : r = shown d.log id ∨ a.reads = false ∧ r = .error (unreadable id)) :
      SessionEffect nums a d b (.returned (.get id) r) d
  | raises {b c e} (hc : ∀ id, c ≠ .get id) : SessionEffect nums a d b (.returned c (.error e)) d
  | draws {b model title} (hid : isSessionId a.uuid = true) (hnew : a.uuid ∉ d.drawn) :
      SessionEffect nums a d b (.creating model title a) { d with drawn := a.uuid :: d.drawn }
  | creates {model title a₀} :
      SessionEffect nums a d (.creating model title a₀)
        (.returned (.create model title) (.ok (newSession a₀ model title)))
        { d with
          files := d.put a₀.uuid (newSession a₀ model title).payload
          log := d.log ++ [.created a₀.uuid (firstTitle a₀ title) model (a₀.clock 0)] }
  | edits {b c done s} (hview : view d.log done.id = some s) (hnew : done.creates = false) (hnotes : c.Notes done) :
      SessionEffect nums a d b (.returned c (.ok (done.apply s)))
        { d with files := d.put done.id (done.apply s).payload, log := d.log ++ [done] }

section Step

variable {nums : Json.Numerals} {a : Around} {d d' : SessionDir} {b b' : SessionJob} {id : SessionText}

theorem readSession_of_shows (nums : Json.Numerals) (a : Around) (hd : d.Shows) (h : (d.files id).isSome = true)
    (hid : isSessionId id = true) :
    readSession nums a id (d.files id) = shown d.log id ∨
      a.reads = false ∧ readSession nums a id (d.files id) = .error (unreadable id) := by
  rw [hd.files id] at h ⊢
  obtain ⟨s, hs⟩ := Option.isSome_iff_exists.mp (by simpa using h)
  unfold shown
  rw [hs, if_pos hid, Option.map_some, readSession]
  by_cases hreads : a.reads = true
  · rw [if_pos hreads, sessionFromDict_payload nums (a.clock 0) (strip_goal_view hs)]
    exact Or.inl rfl
  · rw [if_neg hreads]
    exact Or.inr ⟨Bool.eq_false_iff.mpr hreads, rfl⟩

theorem sessionGet_of_shows (nums : Json.Numerals) (a : Around) (id : SessionText) (hd : d.Shows) :
    sessionGet nums a id d = shown d.log id ∨ a.reads = false ∧ sessionGet nums a id d = .error (unreadable id) := by
  unfold sessionGet
  by_cases hid : isSessionId id = true
  · rw [if_pos hid]
    cases hfile : d.files id with
    | none =>
      have hview : view d.log id = none := by simpa [hd.files id] using hfile
      unfold shown
      rw [if_pos hid, hview]
      exact Or.inl rfl
    | some file =>
      have hread := readSession_of_shows nums a hd (by rw [hfile]; rfl) hid
      rw [hfile] at hread
      exact hread
  · unfold shown
    rw [if_neg hid, if_neg hid]
    exact Or.inl rfl

theorem view_of_shown {s : Session} (h : shown d.log id = .ok s) : view d.log id = some s ∧ isSessionId id = true := by
  unfold shown at h
  by_cases hid : isSessionId id = true
  · rw [if_pos hid] at h
    cases hview : view d.log id with
    | none =>
      rw [hview] at h
      cases h
    | some s' =>
      rw [hview] at h
      exact ⟨congrArg some (Except.ok.inj h), hid⟩
  · rw [if_neg hid] at h
    cases h

theorem effect_of_locked {c : SessionCall} {done : SessionEntry} {edit : Session → Session} (hd : d.Shows)
    (hedit : ∀ s, edit s = done.apply s) (hid : done.id = id) (hnew : done.creates = false) (hnotes : c.Notes done)
    (hc : ∀ id, c ≠ .get id) (h : locked nums a c id edit done d = (b', d')) : SessionEffect nums a d b b' d' := by
  unfold locked at h
  split at h
  · obtain ⟨rfl, rfl⟩ := Prod.mk.inj h
    exact .raises hc
  · rename_i s hget
    have hshown : shown d.log id = .ok s := by
      rcases sessionGet_of_shows nums a id hd with hs | ⟨-, he⟩
      · rw [← hs, hget]
      · rw [hget] at he
        cases he
    obtain ⟨hview, hvalid⟩ := view_of_shown hshown
    split at h
    · obtain ⟨rfl, rfl⟩ := Prod.mk.inj h
      exact .raises hc
    · rename_i d₁ hwrite
      obtain ⟨rfl, rfl⟩ := Prod.mk.inj h
      have hsession : (done.apply s).sessionId = .str id := by
        rw [← sessionId_view hview]
        cases done <;> rfl
      unfold writeSession pathOf at hwrite
      rw [hedit, hsession] at hwrite
      simp only [hvalid, if_true] at hwrite
      by_cases hwrites : a.writes = true
      · rw [if_pos hwrites] at hwrite
        rw [← Except.ok.inj hwrite, hedit, ← hid]
        exact .edits (hid ▸ hview) hnew hnotes
      · rw [if_neg hwrites] at hwrite
        cases hwrite

def SessionTurn.around : SessionTurn → Around
  | .call _ a => a
  | .goOn a => a

/-- The id that a turn draws is fresh. -/
def SessionTurn.Fresh (d : SessionDir) : SessionTurn → Prop
  | .call (.create _ _) a => isSessionId a.uuid = true ∧ a.uuid ∉ d.drawn
  | _ => True

theorem effect_of_start {c : SessionCall} (hd : d.Shows) (hfresh : (SessionTurn.call c a).Fresh d)
    (h : startCall nums a d c = (b', d')) : SessionEffect nums a d b b' d' := by
  cases c with
  | create model title =>
    obtain ⟨rfl, rfl⟩ := Prod.mk.inj h
    exact .draws hfresh.1 hfresh.2
  | get id =>
    rw [startCall] at h
    by_cases hid : isSessionId id = true
    · rw [if_pos hid] at h
      by_cases hfile : (d.files id).isSome = true
      · rw [if_pos hfile] at h
        obtain ⟨rfl, rfl⟩ := Prod.mk.inj h
        exact .looks hfile hid
      · rw [if_neg hfile] at h
        obtain ⟨rfl, rfl⟩ := Prod.mk.inj h
        refine .gets (Or.inl ?_)
        have hview : view d.log id = none := by simpa [hd.files id] using hfile
        unfold shown
        rw [if_pos hid, hview]
        rfl
    · rw [if_neg hid] at h
      obtain ⟨rfl, rfl⟩ := Prod.mk.inj h
      refine .gets (Or.inl ?_)
      unfold shown
      rw [if_neg hid]
  | recordExchange id user assistant model usage =>
    rw [startCall] at h
    refine effect_of_locked hd ?_ ?_ ?_ ?_ ?_ h
    · exact fun _ => rfl
    · rfl
    · rfl
    · exact ⟨rfl, rfl, rfl, rfl, rfl⟩
    · exact fun _ h => (by cases h)
  | rename id title goal =>
    rw [startCall] at h
    refine effect_of_locked hd ?_ ?_ ?_ ?_ ?_ h
    · exact fun _ => rfl
    · rfl
    · rfl
    · exact ⟨rfl, rfl, rfl⟩
    · exact fun _ h => (by cases h)

theorem effect_of_act {turn : SessionTurn} (hd : d.Shows) (hb : b.Sound d) (hfresh : turn.Fresh d)
    (h : sessionAct nums turn b d = some (b', d')) : SessionEffect nums turn.around d b b' d' := by
  unfold sessionAct at h
  split at h
  · exact effect_of_start hd hfresh (Option.some.inj h)
  · exact effect_of_start hd hfresh (Option.some.inj h)
  · rename_i a model title a₀
    obtain ⟨-, -, hid⟩ := hb
    have hpath : pathOf (newSession a₀ model title).sessionId = .ok a₀.uuid := by
      show (if isSessionId a₀.uuid = true then _ else _) = _
      rw [if_pos hid]
    unfold writeSession at h
    rw [hpath] at h
    by_cases hwrites : a.writes = true
    · simp only [if_pos hwrites] at h
      obtain ⟨rfl, rfl⟩ := Prod.mk.inj (Option.some.inj h)
      exact .creates
    · simp only [if_neg hwrites] at h
      obtain ⟨rfl, rfl⟩ := Prod.mk.inj (Option.some.inj h)
      exact .raises fun _ => by simp
  · rename_i a id
    obtain ⟨rfl, rfl⟩ := Prod.mk.inj (Option.some.inj h)
    exact .gets (readSession_of_shows nums a hd hb.1 hb.2)
  · cases h

/-! ### The files show the log -/

theorem shows_put {e : SessionEntry} {s : Session} (hd : d.Shows) (hview : view (d.log ++ [e]) e.id = some s)
    (hdrawn : e.id ∈ d.drawn) :
    SessionDir.Shows { d with files := d.put e.id s.payload, log := d.log ++ [e] } := by
  constructor
  · intro id
    show d.put e.id s.payload id = (view (d.log ++ [e]) id).map Session.payload
    unfold SessionDir.put
    by_cases hid : id = e.id
    · rw [hid, Function.update_self, hview, Option.map_some]
    · rw [Function.update_of_ne hid, view_concat_of_ne (Ne.symm hid), hd.files id]
  · intro e' he'
    rcases List.mem_append.mp he' with he' | he'
    · exact hd.drawn e' he'
    · rw [List.mem_singleton.mp he']
      exact hdrawn

/-- What the log shows was drawn. -/
theorem drawn_of_view {s : Session} (hd : d.Shows) (h : view d.log id = some s) : id ∈ d.drawn := by
  cases hlog : logOf d.log id with
  | nil =>
    rw [view_none hlog] at h
    cases h
  | cons e es =>
    have he : e ∈ logOf d.log id := by
      rw [hlog]
      exact List.mem_cons_self
    obtain ⟨hmem, hid⟩ := List.mem_filter.mp he
    rw [← of_decide_eq_true hid]
    exact hd.drawn e hmem

theorem logOf_of_not_drawn (hd : d.Shows) (h : id ∉ d.drawn) : logOf d.log id = [] := by
  refine List.filter_eq_nil_iff.mpr fun e he hid => h ?_
  rw [← of_decide_eq_true hid]
  exact hd.drawn e he

theorem shows_of_effect (hd : d.Shows) (hb : b.Sound d) (h : SessionEffect nums a d b b' d') :
    d'.Shows ∧ b'.Sound d' := by
  cases h with
  | looks hfile hid => exact ⟨hd, hfile, hid⟩
  | gets => exact ⟨hd, trivial⟩
  | raises => exact ⟨hd, trivial⟩
  | draws hid hnew =>
    refine ⟨⟨hd.files, fun e he => List.mem_cons_of_mem _ (hd.drawn e he)⟩, List.mem_cons_self, ?_, hid⟩
    show logOf d.log a.uuid = []
    exact logOf_of_not_drawn hd hnew
  | creates =>
    obtain ⟨hdrawn, hlog, -⟩ := hb
    exact ⟨shows_put hd (view_created _ _ _ hlog) hdrawn, trivial⟩
  | edits hview hnew => exact ⟨shows_put hd (view_concat hview rfl hnew) (drawn_of_view hd hview), trivial⟩

/-- An entry of another session leaves a thread alone. -/
theorem sound_put {j : SessionJob} {e : SessionEntry} {file : Json} (hj : j.Sound d)
    (he : ∀ id, j.pending = some id → e.id ≠ id) :
    j.Sound { d with files := d.put e.id file, log := d.log ++ [e] } := by
  cases j with
  | creating model title a₀ =>
    obtain ⟨hmem, hlog, hid⟩ := hj
    refine ⟨hmem, ?_, hid⟩
    show logOf (d.log ++ [e]) a₀.uuid = []
    unfold logOf at hlog ⊢
    rw [List.filter_append, hlog]
    simp [he a₀.uuid rfl]
  | reading id =>
    refine ⟨?_, hj.2⟩
    show (d.put e.id file id).isSome = true
    unfold SessionDir.put
    by_cases hid : id = e.id
    · rw [hid, Function.update_self]
      rfl
    · rw [Function.update_of_ne hid]
      exact hj.1
  | _ => trivial

/-- A step beside another thread. -/
theorem sound_of_effect {j : SessionJob} (hj : j.Sound d)
    (hapart : ∀ id, b.pending = some id → j.pending ≠ some id) (h : SessionEffect nums a d b b' d') :
    j.Sound d' ∧ ∀ id, b'.pending = some id → j.pending ≠ some id := by
  cases h with
  | looks => exact ⟨hj, fun _ h => (by cases h)⟩
  | gets => exact ⟨hj, fun _ h => (by cases h)⟩
  | raises => exact ⟨hj, fun _ h => (by cases h)⟩
  | draws hid hnew =>
    refine ⟨?_, ?_⟩
    · cases j with
      | creating => exact ⟨List.mem_cons_of_mem _ hj.1, hj.2⟩
      | _ => exact hj
    · rintro id h hpending
      cases j with
      | creating model title a₀ =>
        rw [SessionJob.pending, Option.some.injEq] at h hpending
        exact hnew (h.trans hpending.symm ▸ hj.1)
      | _ => cases hpending
  | creates =>
    refine ⟨sound_put hj ?_, fun _ h => (by cases h)⟩
    rintro id hid rfl
    exact hapart _ rfl hid
  | edits hview =>
    refine ⟨sound_put hj ?_, fun _ h => (by cases h)⟩
    rintro id hid rfl
    cases j with
    | creating model title a₀ =>
      rw [SessionJob.pending, Option.some.injEq] at hid
      rw [← hid, view_none hj.2.1] at hview
      cases hview
    | _ => cases hid

end Step

/-! ### Runs -/

/-- Two threads that are not about to write the same session. -/
def SessionJob.Apart (b b' : SessionJob) : Prop := ∀ id, b.pending = some id → b'.pending ≠ some id

section Runs

variable {nums : Json.Numerals} {w : SessionWorld} {k : ℕ} {turn : SessionTurn}

theorem fresh_of_freshIds (h : freshIds w (k, turn) = true) : turn.Fresh w.store := by
  cases turn with
  | call c a =>
    cases c with
    | create =>
      show isSessionId a.uuid = true ∧ a.uuid ∉ w.store.drawn
      simpa [freshIds] using h
    | _ => trivial
  | goOn => trivial

theorem session_keeps : Keeps (sessionAct nums) freshIds SessionDir.Shows (fun b d => b.Sound d) SessionJob.Apart where
  own := fun hw hallow h =>
    shows_of_effect hw.store (hw.each _) (effect_of_act hw.store (hw.each _) (fresh_of_freshIds hallow) h)
  other := by
    intro w k turn b d hw hallow h k' hk'
    have heffect := effect_of_act hw.store (hw.each k) (fresh_of_freshIds hallow) h
    obtain ⟨hsound, hapart⟩ := sound_of_effect (hw.each k') (hw.pair k k' hk'.symm) heffect
    exact ⟨hsound, hapart, fun id hid hb => hapart id hb hid⟩

theorem session_holds (h : Runs.Later (step (sessionAct nums)) freshIds SessionWorld.initial w) :
    Holds SessionDir.Shows (fun b d => b.Sound d) SessionJob.Apart w := by
  have hstart : Holds SessionDir.Shows (fun b d => b.Sound d) SessionJob.Apart SessionWorld.initial :=
    ⟨⟨fun _ => rfl, fun _ h => (by cases h)⟩, fun _ => trivial, fun _ _ _ _ h => (by cases h)⟩
  exact hstart.later session_keeps h

end Runs

/-- **The store refines a log.**  Whatever the interleaving and whatever fails, what `get`
returns is what the log shows of the session; a call that returns a session has its entry in
the log, and a step that returns none leaves the files and the log as they are. -/
theorem session_store_refines_log (nums : Json.Numerals) {w : SessionWorld} {k : ℕ} {turn : SessionTurn}
    {b : SessionJob} {d : SessionDir}
    (h : Runs.Later (step (sessionAct nums)) freshIds SessionWorld.initial w) (hallow : freshIds w (k, turn) = true)
    (hact : sessionAct nums turn (w.job k) w.store = some (b, d)) :
    (∀ id r, b = .returned (.get id) r →
      r = shown w.store.log id ∨ turn.around.reads = false ∧ r = .error (unreadable id)) ∧
    (∀ c s, b = .returned c (.ok s) → (∃ id, c = .get id) ∨ ∃ e, c.Notes e ∧ d.log = w.store.log ++ [e]) ∧
    ((∀ c s, b = .returned c (.ok s) → ∃ id, c = .get id) → d.files = w.store.files ∧ d.log = w.store.log) := by
  have hw := session_holds h
  have heffect := effect_of_act hw.store (hw.each k) (fresh_of_freshIds hallow) hact
  generalize w.job k = b₀ at heffect
  cases heffect with
  | looks => exact ⟨fun _ _ h => (by cases h), fun _ _ h => (by cases h), fun _ => ⟨rfl, rfl⟩⟩
  | gets hr =>
    refine ⟨?_, ?_, fun _ => ⟨rfl, rfl⟩⟩
    · rintro _ _ ⟨⟩
      exact hr
    · rintro _ _ ⟨⟩
      exact Or.inl ⟨_, rfl⟩
  | raises hc =>
    refine ⟨?_, fun _ _ h => (by cases h), fun _ => ⟨rfl, rfl⟩⟩
    rintro id r ⟨⟩
    exact absurd rfl (hc id)
  | draws => exact ⟨fun _ _ h => (by cases h), fun _ _ h => (by cases h), fun _ => ⟨rfl, rfl⟩⟩
  | creates =>
    refine ⟨fun _ _ h => (by cases h), ?_, ?_⟩
    · rintro _ _ ⟨⟩
      refine Or.inr ⟨_, ?_, rfl⟩
      exact ⟨rfl, _, rfl⟩
    · intro hget
      obtain ⟨id, hid⟩ := hget _ _ rfl
      cases hid
  | edits hview hnew hnotes =>
    refine ⟨?_, ?_, ?_⟩
    · rintro id r ⟨⟩
      cases hnotes
    · rintro _ _ ⟨⟩
      exact Or.inr ⟨_, hnotes, rfl⟩
    · intro hget
      obtain ⟨id, rfl⟩ := hget _ _ rfl
      cases hnotes

/-- The case of a session that is created, used, renamed and read. -/
theorem session_store_refines_log_once :
    ∃ w : SessionWorld, ∃ a : Around,
      Runs.Later (step (sessionAct ⟨fun _ => none, fun _ => none⟩)) freshIds SessionWorld.initial w ∧
        ∃ s, view w.store.log a.uuid = some s ∧ s.messages.length = 2 ∧ s.tally.promptTokens = 3 ∧
          sessionAct ⟨fun _ => none, fun _ => none⟩ (.goOn a) (w.job 1) w.store =
            some (.returned (.get a.uuid) (.ok s), w.store) := by
  let nums : Json.Numerals := ⟨fun _ => none, fun _ => none⟩
  let a : Around := ⟨"0123456789ab".toList, [], fun _ => 0, true, true⟩
  obtain ⟨w, hrun, hw⟩ := (Option.any_eq_true _ _).mp (show (Runs.run (step (sessionAct nums)) freshIds
    [(0, .call (.create "m".toList []) a), (0, .goOn a),
      (0, .call (.recordExchange a.uuid "hi".toList "ho".toList "m".toList ⟨3, -1, 0⟩) a),
      (0, .call (.rename a.uuid (some " t ".toList) none) a), (1, .call (.get a.uuid) a)]
    SessionWorld.initial).any (fun w => match w.job 1 with
      | .reading id => id = a.uuid && (view w.store.log a.uuid).any fun s =>
          s.messages.length = 2 && s.tally.promptTokens = 3
      | _ => false) = true by decide +kernel)
  have hlater := Runs.Later.of_run hrun
  cases hjob : w.job 1 with
  | reading id =>
    rw [hjob] at hw
    simp only [Bool.and_eq_true, decide_eq_true_eq, Option.any_eq_true] at hw
    obtain ⟨rfl, s, hs, hmessages, htokens⟩ := hw
    refine ⟨w, a, hlater, s, hs, hmessages, htokens, ?_⟩
    have hact : sessionAct nums (.goOn a) (w.job 1) w.store =
        some (.returned (.get a.uuid) (readSession nums a a.uuid (w.store.files a.uuid)), w.store) := by
      rw [hjob]
      rfl
    rcases (session_store_refines_log nums hlater rfl hact).1 _ _ rfl with hr | ⟨hreads, -⟩
    · have hid : isSessionId a.uuid = true := by decide
      rw [hact, hr]
      unfold shown
      rw [if_pos hid, hs]
      rfl
    · cases hreads
  | _ =>
    rw [hjob] at hw
    cases hw

end CyClaw.Harness
