/-
Listing the sessions and loading one, `harness/sessions.py`.

`get` builds a session from its file, message by message.  `list` builds none of the
messages: `check_all` says of each whether the constructor would take it, and the rest of
the file goes through the same function with no messages in it.  On messages that are there
the two agree (`readMessages_of_checkAll`).  They part over what counts as no messages:
`list` takes everything false for it, `get` only what can be gone through, so a file whose
messages are `null`, `false` or zero is listed and cannot be loaded.  And they part over what
they catch, which does not cover a number that is too large to convert.
-/
import CyClaw.Harness.Sessions
import CyClaw.Lib.Fallible
import CyClaw.Lib.PyValue
import Mathlib.Data.List.Nodup

namespace CyClaw.Harness.Listing

open PyText
open PyValue (Formats get set orElse)

/-- What a read of a session file can raise. -/
inductive Fault where
  | python (e : PyError)
  | attributeError
  | osError

/-- `_CORRUPT_SESSION_ERRORS`. -/
def Fault.corrupt : Fault → Bool
  | .python .overflowError => false
  | .python .recursionError => false
  | _ => true

abbrev Parsed := List (List Char × PyValue)

/-! ### Messages -/

/-- A message, with the time of its reading where the file gives none. -/
structure Message where
  role : PyValue
  text : PyValue
  ts : Option PyValue

/-- `_MSG_REQUIRED <= msg.keys() <= _MSG_FIELDS`. -/
def messageShaped : PyValue → Bool
  | .dict fields =>
      (get fields "role").isSome && (get fields "text").isSome &&
        fields.all fun field => field.1 ∈ ["role".toList, "text".toList, "ts".toList]
  | _ => false

/-- `for x in v`. -/
def iterate (v : PyValue) : Except Fault (List PyValue) := v.toList.mapError .python

/-- `Message.check_all`. -/
def checkAll (raw : PyValue) : Except Fault (List PyValue) :=
  (iterate raw).bind fun msgs =>
    if msgs.all messageShaped then .ok msgs else .error (.python .typeError)

/-- `Message(**msg)`. -/
def messageOf : PyValue → Except Fault Message
  | .dict fields =>
      if fields.all (fun field => field.1 ∈ ["role".toList, "text".toList, "ts".toList]) then
        match get fields "role", get fields "text" with
        | some role, some text => .ok ⟨role, text, get fields "ts"⟩
        | _, _ => .error (.python .typeError)
      else .error (.python .typeError)
  | _ => .error (.python .typeError)

/-- `[Message(**msg) for msg in v]`. -/
def readMessages (v : PyValue) : Except Fault (List Message) := (iterate v).bind fun msgs => msgs.mapM messageOf

/-! ### Sessions -/

structure Session where
  sessionId : PyValue
  title : PyValue
  createdTs : PyFloat
  model : PyValue
  messages : List Message
  tally : TokenTally
  goal : List Char

structure Summary where
  sessionId : PyValue
  title : PyValue
  createdTs : PyFloat
  model : PyValue
  messageCount : ℕ
  tokens : TokenTally
  total : ℤ

/-- `Session.summary`. -/
def Session.summary (s : Session) : Summary where
  sessionId := s.sessionId
  title := s.title
  createdTs := s.createdTs
  model := s.model
  messageCount := s.messages.length
  tokens := s.tally
  total := s.tally.promptTokens + s.tally.completionTokens

section Reading

variable (f : Formats)

/-- `int(tally.get(key, 0))`. -/
def count (tally : Parsed) (key : String) : Except Fault ℤ :=
  (((get tally key).getD (.int 0)).toInt f).mapError .python

/-- `TokenTally(...)` from the stored tally. -/
def tallyFromDict : PyValue → Except Fault TokenTally
  | .dict tally =>
      (count f tally "prompt_tokens").bind fun prompt =>
        (count f tally "completion_tokens").bind fun completion =>
          (count f tally "exchanges").map fun exchanges => ⟨prompt, completion, exchanges⟩
  | _ => .error .attributeError

/-- `goal.strip()` of a goal that is a text. -/
def goalOf : Option PyValue → List Char
  | some (.str goal) => strip goal
  | _ => []

/-- What `_session_from_dict` makes of a file apart from its messages. -/
def headFromDict (parsed : Parsed) : Except Fault (List Message → Session) :=
  match get parsed "session_id" with
  | none => .error (.python .keyError)
  | some sessionId =>
      ((((get parsed "created_ts").getD (.int 0)).toFloat f).mapError .python).bind fun createdTs =>
        (tallyFromDict f ((get parsed "tally").getD (.dict []))).map fun tally messages =>
          { sessionId := sessionId
            title := (get parsed "title").getD (.str [])
            createdTs := createdTs
            model := (get parsed "model").getD (.str [])
            messages := messages
            tally := tally
            goal := goalOf (get parsed "goal") }

/-- `_session_from_dict`. -/
def sessionFromDict : PyValue → Except Fault Session
  | .dict parsed =>
      (readMessages ((get parsed "messages").getD (.list []))).bind fun messages =>
        (headFromDict f parsed).map fun session => session messages
  | _ => .error .attributeError

/-- `Session.summarize_json`. -/
def summarizeJson : PyValue → Except Fault Summary
  | .dict parsed =>
      (checkAll (orElse (get parsed "messages") (.list []))).bind fun raw =>
        (sessionFromDict f (.dict (set "messages" (.list []) parsed))).map fun session =>
          { session.summary with messageCount := raw.length }
  | _ => .error .attributeError

/-! ### The store -/

/-- What stands under a name: a link to nothing, a file whose reading or decoding raises, or the
value in it. -/
inductive SessionFile where
  | dangling
  | raises (e : Fault)
  | value (v : PyValue)

/-- The directory, in the order in which the listing goes through it. -/
structure SessionsDir where
  files : List (List Char × SessionFile)
  unique : (files.map Prod.fst).Nodup

/-- `path.stem` of a name that `*.json` matches. -/
def stemOf (name : List Char) : Option SessionText :=
  if ".json".toList.isSuffixOf name then some (name.take (name.length - ".json".toList.length)) else none

/-- The name of the file of a session. -/
def fileName (id : SessionText) : List Char := id ++ ".json".toList

/-- What `get` raises: its own error, or one that it does not catch. -/
inductive GetError where
  | store (e : SessionStoreError)
  | escapes (e : Fault)

/-- The reading of a file that is there. -/
def load : SessionFile → Except Fault Session
  | .dangling => .error .osError
  | .raises e => .error e
  | .value v => sessionFromDict f v

/-- `SessionStore.get`. -/
def SessionsDir.get (dir : SessionsDir) (id : SessionText) : Except GetError Session :=
  if isSessionId id then
    match dir.files.lookup (fileName id) with
    | none => .error (.store (unknownSession id))
    | some .dangling => .error (.store (unknownSession id))
    | some file =>
        (load f file).mapError fun e => if e.corrupt then .store (unreadable id) else .escapes e
  else .error (.store (invalidId id))

/-- What the listing makes of a file. -/
def summarize : SessionFile → Except Fault Summary
  | .dangling => .error .osError
  | .raises e => .error e
  | .value v => summarizeJson f v

/-- The id of a file that the listing does not pass over. -/
def listedId (name : List Char) : Option SessionText := (stemOf name).filter isSessionId

/-- `SessionStore.list`. -/
def listFiles : List (List Char × SessionFile) → Except Fault (List Summary)
  | [] => .ok []
  | (name, file) :: files =>
      match listedId name with
      | none => listFiles files
      | some _ =>
          match summarize f file with
          | .ok summary => (listFiles files).map fun summaries => summary :: summaries
          | .error e => if e.corrupt then listFiles files else .error e

def SessionsDir.list (dir : SessionsDir) : Except Fault (List Summary) := listFiles f dir.files

/-! ### What the two are meant to have in common -/

/-- The summaries of the sessions that `get` returns, in the order of their files. -/
def SessionsDir.loadable (dir : SessionsDir) : List Summary :=
  dir.files.filterMap fun file =>
    (listedId file.1).bind fun id => (dir.get f id).toOption.map Session.summary

/-- Messages that count as none for the listing and cannot be gone through. -/
def emptyScalar : PyValue → Bool
  | .none => true
  | .bool b => !b
  | .int n => n = 0
  | .float x => x = .num 0
  | _ => false

/-- A file that both sides judge alike: what its reading raises is caught, and where the listing
takes its messages, so is what the rest of it raises, and a rest that is in order does not
stand beside messages that are `null`, `false` or zero. -/
def Listable : SessionFile → Prop
  | .dangling => True
  | .raises e => e.corrupt = true
  | .value (.dict parsed) =>
      (∃ raw, checkAll (orElse (PyValue.get parsed "messages") (.list [])) = .ok raw) →
        (∀ e, headFromDict f parsed = .error e → e.corrupt = true) ∧
        ((PyValue.get parsed "messages").any emptyScalar = true → ∀ head, headFromDict f parsed ≠ .ok head)
  | .value _ => True

end Reading

variable {f : Formats}

/-! ### Messages that both read -/

/-- A message is shaped like one just when the constructor takes it. -/
theorem messageShaped_iff (v : PyValue) : messageShaped v = true ↔ ∃ m, messageOf v = .ok m := by
  cases v with
  | dict fields =>
      unfold messageShaped messageOf
      dsimp only
      by_cases hkeys : (fields.all fun field => field.1 ∈ ["role".toList, "text".toList, "ts".toList]) = true
      · rw [if_pos hkeys, hkeys]
        cases get fields "role" with
        | none => simp
        | some role =>
            cases get fields "text" with
            | none => simp
            | some text => simp
      · rw [if_neg hkeys, Bool.eq_false_of_not_eq_true hkeys, Bool.and_false]
        simp
  | none => simp [messageShaped, messageOf]
  | bool b => simp [messageShaped, messageOf]
  | int n => simp [messageShaped, messageOf]
  | float x => simp [messageShaped, messageOf]
  | str t => simp [messageShaped, messageOf]
  | list items => simp [messageShaped, messageOf]

theorem messageOf_error {v : PyValue} {e : Fault} (h : messageOf v = .error e) : e = .python .typeError := by
  unfold messageOf at h
  split at h
  · split at h
    · split at h
      · cases h
      · exact (Except.error.inj h).symm
    · exact (Except.error.inj h).symm
  · exact (Except.error.inj h).symm

theorem mapM_messageOf_error {msgs : List PyValue} {e : Fault} (h : msgs.mapM messageOf = .error e) :
    e = .python .typeError := by
  induction msgs with
  | nil => cases h
  | cons msg msgs ih =>
      rw [List.mapM_cons] at h
      cases hmsg : messageOf msg with
      | error e' =>
          rw [hmsg] at h
          obtain rfl : e' = e := Except.error.inj h
          exact messageOf_error hmsg
      | ok m =>
          rw [hmsg] at h
          cases hrest : msgs.mapM messageOf with
          | error e' =>
              rw [hrest] at h
              obtain rfl : e' = e := Except.error.inj h
              exact ih hrest
          | ok ms => rw [hrest] at h; cases h

theorem iterate_error {v : PyValue} {e : Fault} (h : iterate v = .error e) : e = .python .typeError := by
  unfold iterate PyValue.toList at h
  split at h
  · cases h
  · cases h
  · cases h
  · exact (Except.error.inj h).symm

/-- **On messages that the listing accepts, `get` builds as many as it counts.** -/
theorem readMessages_of_checkAll {v : PyValue} {raw : List PyValue} (h : checkAll v = .ok raw) :
    ∃ messages, readMessages v = .ok messages ∧ messages.length = raw.length := by
  obtain ⟨msgs, hiterate, hshaped⟩ := Fallible.bind_eq_ok.mp h
  split at hshaped
  · rename_i hall
    obtain rfl := Except.ok.inj hshaped
    rw [List.all_eq_true] at hall
    obtain ⟨messages, hmessages⟩ := Fallible.mapM_ok fun msg hmsg => (messageShaped_iff msg).mp (hall msg hmsg)
    refine ⟨messages, Fallible.bind_eq_ok.mpr ⟨msgs, hiterate, hmessages⟩, ?_⟩
    exact Fallible.length_mapM hmessages
  · cases hshaped

/-- Where it does not, neither does `get`, and both raise a `TypeError`. -/
theorem readMessages_of_refused {v : PyValue} {e : Fault} (h : checkAll v = .error e) :
    e = .python .typeError ∧ readMessages v = .error (.python .typeError) := by
  unfold checkAll at h
  unfold readMessages
  cases hiterate : iterate v with
  | error e' =>
      rw [hiterate] at h
      obtain rfl : e' = e := Except.error.inj h
      obtain rfl := iterate_error hiterate
      exact ⟨rfl, rfl⟩
  | ok msgs =>
      rw [hiterate] at h
      change (if msgs.all messageShaped = true then Except.ok msgs else .error (.python .typeError)) = .error e at h
      split at h
      · cases h
      · rename_i hnot
        refine ⟨(Except.error.inj h).symm, ?_⟩
        change msgs.mapM messageOf = .error (.python .typeError)
        cases hmessages : msgs.mapM messageOf with
        | error e' => rw [mapM_messageOf_error hmessages]
        | ok messages =>
            refine absurd ?_ hnot
            rw [List.all_eq_true]
            intro msg hmsg
            exact (messageShaped_iff msg).mpr (Fallible.ok_of_mapM hmessages hmsg)

/-- What counts as no messages for the listing: what cannot be gone through, and what is empty. -/
theorem readMessages_of_falsy {v : PyValue} (h : v.truthy = false) :
    readMessages v = if emptyScalar v then .error (.python .typeError) else .ok [] := by
  cases v with
  | none => rfl
  | bool b =>
      cases b with
      | false => rfl
      | true => cases h
  | int n =>
      have hn : n = 0 := by simpa [PyValue.truthy] using h
      rw [hn]
      rfl
  | float x =>
      have hx : x = .num 0 := by simpa [PyValue.truthy] using h
      rw [hx]
      rfl
  | str t =>
      have ht : t = [] := by simpa [PyValue.truthy] using h
      rw [ht]
      rfl
  | list items =>
      have hitems : items = [] := by simpa [PyValue.truthy] using h
      rw [hitems]
      rfl
  | dict fields =>
      have hfields : fields = [] := by simpa [PyValue.truthy] using h
      rw [hfields]
      rfl

theorem emptyScalar_of_truthy {v : PyValue} (h : v.truthy = true) : emptyScalar v = false := by
  cases v with
  | none => cases h
  | bool b =>
      cases b with
      | false => cases h
      | true => rfl
  | int n =>
      have hn : n ≠ 0 := by simpa [PyValue.truthy] using h
      simp [emptyScalar, hn]
  | float x =>
      have hx : x ≠ .num 0 := by simpa [PyValue.truthy] using h
      simp [emptyScalar, hx]
  | str t => rfl
  | list items => rfl
  | dict fields => rfl

/-! ### One file -/

/-- The listing reads the rest of the file as `get` does. -/
theorem headFromDict_set (parsed : Parsed) (v : PyValue) :
    headFromDict f (set "messages" v parsed) = headFromDict f parsed := by
  unfold headFromDict
  simp only [PyValue.get_set_of_ne (by decide : "session_id" ≠ "messages"),
    PyValue.get_set_of_ne (by decide : "created_ts" ≠ "messages"),
    PyValue.get_set_of_ne (by decide : "tally" ≠ "messages"), PyValue.get_set_of_ne (by decide : "title" ≠ "messages"),
    PyValue.get_set_of_ne (by decide : "model" ≠ "messages"), PyValue.get_set_of_ne (by decide : "goal" ≠ "messages")]

theorem sessionFromDict_set (parsed : Parsed) :
    sessionFromDict f (.dict (set "messages" (.list []) parsed)) = (headFromDict f parsed).map fun head => head [] := by
  unfold sessionFromDict
  dsimp only
  rw [PyValue.get_set_self, headFromDict_set]
  rfl

/-- The head puts the messages into the session and looks at none of them. -/
theorem summary_of_head {parsed : Parsed} {head : List Message → Session} (h : headFromDict f parsed = .ok head)
    (messages : List Message) :
    (head messages).summary = { (head []).summary with messageCount := messages.length } := by
  unfold headFromDict at h
  split at h
  · cases h
  · obtain ⟨createdTs, -, h⟩ := Fallible.bind_eq_ok.mp h
    obtain ⟨tally, -, rfl⟩ := Fallible.map_eq_ok.mp h
    rfl

/-- How the two sides judge one file. -/
inductive Judged (listed : Except Fault Summary) (loaded : Except Fault Session) : Prop where
  | both (session : Session) (hloaded : loaded = .ok session) (hlisted : listed = .ok session.summary)
  | neither (e e' : Fault) (hlisted : listed = .error e) (hcaught : e.corrupt = true) (hloaded : loaded = .error e')

/-- The messages of a file: refused by both, read by both, or empty for the listing alone. -/
theorem messages_of_file (parsed : Parsed) :
    (checkAll (orElse (get parsed "messages") (.list [])) = .error (.python .typeError) ∧
      readMessages ((get parsed "messages").getD (.list [])) = .error (.python .typeError)) ∨
    ∃ raw, checkAll (orElse (get parsed "messages") (.list [])) = .ok raw ∧
      ((get parsed "messages").any emptyScalar = true ∧
          readMessages ((get parsed "messages").getD (.list [])) = .error (.python .typeError) ∨
        (get parsed "messages").any emptyScalar = false ∧
          ∃ messages, readMessages ((get parsed "messages").getD (.list [])) = .ok messages ∧
            messages.length = raw.length) := by
  cases get parsed "messages" with
  | none => exact Or.inr ⟨[], rfl, Or.inr ⟨rfl, [], rfl, rfl⟩⟩
  | some v =>
      rw [Option.getD_some, Option.any_some, orElse]
      cases htruthy : v.truthy with
      | true =>
          rw [if_pos rfl, emptyScalar_of_truthy htruthy]
          cases hcheck : checkAll v with
          | error e =>
              obtain ⟨rfl, hread⟩ := readMessages_of_refused hcheck
              exact Or.inl ⟨rfl, hread⟩
          | ok raw => exact Or.inr ⟨raw, rfl, Or.inr ⟨rfl, readMessages_of_checkAll hcheck⟩⟩
      | false =>
          rw [if_neg Bool.false_ne_true, readMessages_of_falsy htruthy]
          refine Or.inr ⟨[], rfl, ?_⟩
          cases emptyScalar v with
          | true => exact Or.inl ⟨rfl, rfl⟩
          | false => exact Or.inr ⟨rfl, [], rfl, rfl⟩

theorem summarize_dict (parsed : Parsed) :
    summarize f (.value (.dict parsed)) =
      (checkAll (orElse (get parsed "messages") (.list []))).bind fun raw =>
        (headFromDict f parsed).map fun head => { (head []).summary with messageCount := raw.length } := by
  unfold summarize summarizeJson
  dsimp only
  rw [sessionFromDict_set]
  cases headFromDict f parsed with
  | error e => rfl
  | ok head => rfl

theorem load_dict (parsed : Parsed) :
    load f (.value (.dict parsed)) =
      (readMessages ((get parsed "messages").getD (.list []))).bind fun messages =>
        (headFromDict f parsed).map fun head => head messages := rfl

/-- Listed and not to be loaded, or an exception that ends the listing. -/
def Parted (listed : Except Fault Summary) (loaded : Except Fault Session) : Prop :=
  (∃ summary e, listed = .ok summary ∧ loaded = .error e) ∨ ∃ e, listed = .error e ∧ e.corrupt = false

theorem judged_dict (parsed : Parsed) :
    Listable f (.value (.dict parsed)) ∧
        Judged (summarize f (.value (.dict parsed))) (load f (.value (.dict parsed))) ∨
      ¬ Listable f (.value (.dict parsed)) ∧
        Parted (summarize f (.value (.dict parsed))) (load f (.value (.dict parsed))) := by
  rw [summarize_dict, load_dict, Listable]
  obtain ⟨hcheck, hread⟩ | ⟨raw, hcheck, hmessages⟩ := messages_of_file parsed
  · rw [hcheck, hread]
    refine Or.inl ⟨?_, .neither _ _ rfl rfl rfl⟩
    rintro ⟨raw, hraw⟩
    cases hraw
  · rw [hcheck]
    cases hhead : headFromDict f parsed with
    | error e =>
        cases hcorrupt : e.corrupt with
        | false =>
            refine Or.inr ⟨fun h => ?_, Or.inr ⟨e, rfl, hcorrupt⟩⟩
            have hcaught := (h ⟨raw, rfl⟩).1 e rfl
            rw [hcorrupt] at hcaught
            cases hcaught
        | true =>
            refine Or.inl ⟨fun _ => ⟨?_, ?_⟩, ?_⟩
            · intro e₁ he₁
              rw [← Except.error.inj he₁]
              exact hcorrupt
            · intro _ head hok
              cases hok
            · cases readMessages ((get parsed "messages").getD (.list [])) with
              | error e' => exact .neither e e' rfl hcorrupt rfl
              | ok messages => exact .neither e e rfl hcorrupt rfl
    | ok head =>
        obtain ⟨hempty, hread⟩ | ⟨hsome, messages, hread, hlength⟩ := hmessages
        · rw [hread]
          exact Or.inr ⟨fun h => (h ⟨raw, rfl⟩).2 hempty head rfl, Or.inl ⟨_, _, rfl, rfl⟩⟩
        · rw [hread]
          refine Or.inl ⟨fun _ => ⟨?_, ?_⟩, .both (head messages) rfl ?_⟩
          · intro e he
            cases he
          · intro hempty
            rw [hsome] at hempty
            cases hempty
          · rw [summary_of_head hhead messages, hlength]
            rfl

/-- **A file that is listable is judged alike by both sides**, and on any other they part. -/
theorem judged_or_parted (file : SessionFile) :
    Listable f file ∧ Judged (summarize f file) (load f file) ∨
      ¬ Listable f file ∧ Parted (summarize f file) (load f file) := by
  cases file with
  | dangling => exact Or.inl ⟨trivial, .neither _ _ rfl rfl rfl⟩
  | raises e =>
      cases hcorrupt : e.corrupt with
      | true => exact Or.inl ⟨hcorrupt, .neither e e rfl hcorrupt rfl⟩
      | false =>
          refine Or.inr ⟨fun h => ?_, Or.inr ⟨e, rfl, hcorrupt⟩⟩
          rw [Listable, hcorrupt] at h
          cases h
  | value v =>
      cases v with
      | dict parsed => exact judged_dict parsed
      | none => exact Or.inl ⟨trivial, .neither _ _ rfl rfl rfl⟩
      | bool b => exact Or.inl ⟨trivial, .neither _ _ rfl rfl rfl⟩
      | int n => exact Or.inl ⟨trivial, .neither _ _ rfl rfl rfl⟩
      | float x => exact Or.inl ⟨trivial, .neither _ _ rfl rfl rfl⟩
      | str t => exact Or.inl ⟨trivial, .neither _ _ rfl rfl rfl⟩
      | list items => exact Or.inl ⟨trivial, .neither _ _ rfl rfl rfl⟩

/-! ### The directory -/

theorem eq_fileName {name : List Char} {id : SessionText} (h : listedId name = some id) :
    name = fileName id ∧ isSessionId id = true := by
  unfold listedId stemOf at h
  split at h
  · rename_i hsuffix
    rw [Option.filter_eq_some_iff] at h
    obtain ⟨hstem, hid⟩ := h
    obtain ⟨stem, rfl⟩ := List.isSuffixOf_iff_suffix.mp hsuffix
    rw [List.length_append, Nat.add_sub_cancel, List.take_left] at hstem
    obtain rfl := Option.some.inj hstem
    exact ⟨rfl, hid⟩
  · cases h

/-- What `get` returns for the id of a file is what its reading comes to. -/
theorem get_of_mem {dir : SessionsDir} {name : List Char} {file : SessionFile} {id : SessionText}
    (hmem : (name, file) ∈ dir.files) (hid : listedId name = some id) :
    (dir.get f id).toOption = (load f file).toOption := by
  obtain ⟨rfl, hvalid⟩ := eq_fileName hid
  have hlookup : dir.files.lookup (fileName id) = some file := by
    obtain ⟨before, after, hfiles⟩ := List.append_of_mem hmem
    rw [List.lookup_eq_some_iff]
    refine ⟨before, after, hfiles, ?_⟩
    intro entry hentry
    have hunique := dir.unique
    rw [hfiles, List.map_append, List.map_cons, List.nodup_append] at hunique
    exact bne_iff_ne.mpr (Ne.symm (hunique.2.2 entry.1 (List.mem_map_of_mem hentry) _ List.mem_cons_self))
  unfold SessionsDir.get
  rw [if_pos hvalid, hlookup]
  cases file with
  | dangling => rfl
  | raises e => rfl
  | value v =>
      dsimp only
      cases load f (.value v) with
      | error e => rfl
      | ok session => rfl

/-- What a file should add to the listing. -/
def wanted (f : Formats) (file : List Char × SessionFile) : Option Summary :=
  (listedId file.1).bind fun _ => (load f file.2).toOption.map Session.summary

theorem loadable_eq (dir : SessionsDir) : dir.loadable f = dir.files.filterMap (wanted f) := by
  refine List.filterMap_congr fun file hfile => ?_
  obtain ⟨name, file⟩ := file
  unfold wanted
  cases hid : listedId name with
  | none => rfl
  | some id => rw [Option.bind_some, Option.bind_some, get_of_mem hfile hid]

/-- A listing that ends has at least what it should have. -/
theorem length_wanted_le {files : List (List Char × SessionFile)} {summaries : List Summary}
    (h : listFiles f files = .ok summaries) : (files.filterMap (wanted f)).length ≤ summaries.length := by
  induction files generalizing summaries with
  | nil => exact Nat.zero_le _
  | cons entry files ih =>
      obtain ⟨name, file⟩ := entry
      rw [listFiles] at h
      cases hid : listedId name with
      | none =>
          rw [hid] at h
          rw [List.filterMap_cons_none (by rw [wanted, hid]; rfl)]
          exact ih h
      | some id =>
          rw [hid] at h
          dsimp only at h
          have hone : ∀ rest : List Summary, (files.filterMap (wanted f)).length ≤ rest.length →
              (((name, file) :: files).filterMap (wanted f)).length ≤ rest.length + 1 := by
            intro rest hrest
            rw [List.filterMap_cons]
            split
            · omega
            · rw [List.length_cons]
              omega
          cases hfile : summarize f file with
          | ok summary =>
              rw [hfile] at h
              obtain ⟨rest, hrest, rfl⟩ := Fallible.map_eq_ok.mp h
              exact hone rest (ih hrest)
          | error e =>
              rw [hfile] at h
              dsimp only at h
              split at h
              · -- A file that the listing skips is not loaded either.
                rename_i hcorrupt
                have hnone : wanted f (name, file) = none := by
                  rw [wanted, hid, Option.bind_some]
                  obtain ⟨-, hjudged⟩ | ⟨-, hparted⟩ := judged_or_parted (f := f) file
                  · cases hjudged with
                    | both session hloaded hlisted => rw [hfile] at hlisted; cases hlisted
                    | neither e₁ e₂ _ _ hloaded => rw [hloaded]; rfl
                  · obtain ⟨summary, e₁, hlisted, -⟩ | ⟨e₁, hlisted, hescapes⟩ := hparted
                    · rw [hfile] at hlisted
                      cases hlisted
                    · rw [hfile] at hlisted
                      rw [Except.error.inj hlisted, hescapes] at hcorrupt
                      cases hcorrupt
                rw [List.filterMap_cons_none hnone]
                exact ih h
              · cases h

theorem listFiles_eq_iff (files : List (List Char × SessionFile)) :
    listFiles f files = .ok (files.filterMap (wanted f)) ↔
      ∀ file ∈ files, (listedId file.1).isSome = true → Listable f file.2 := by
  induction files with
  | nil => simp [listFiles]
  | cons entry files ih =>
      obtain ⟨name, file⟩ := entry
      rw [List.forall_mem_cons, ← ih, listFiles]
      cases hid : listedId name with
      | none =>
          rw [List.filterMap_cons_none (by rw [wanted, hid]; rfl)]
          simp
      | some id =>
          dsimp only
          have hwanted : wanted f (name, file) = (load f file).toOption.map Session.summary := by
            rw [wanted, hid, Option.bind_some]
          obtain ⟨hlistable, hjudged⟩ | ⟨hnot, hparted⟩ := judged_or_parted (f := f) file
          · have hhead : ((some id).isSome = true → Listable f file) ↔ True := iff_true_intro fun _ => hlistable
            rw [hhead, true_and]
            cases hjudged with
            | both session hloaded hlisted =>
                have hsome : wanted f (name, file) = some session.summary := by
                  rw [hwanted, hloaded]
                  rfl
                rw [hlisted, List.filterMap_cons_some hsome]
                dsimp only
                constructor
                · intro h
                  obtain ⟨rest, hrest, heq⟩ := Fallible.map_eq_ok.mp h
                  rw [hrest, (List.cons.inj heq).2]
                · intro h
                  rw [h]
                  rfl
            | neither e e' hlisted hcaught hloaded =>
                have hnone : wanted f (name, file) = none := by
                  rw [hwanted, hloaded]
                  rfl
                rw [hlisted, List.filterMap_cons_none hnone]
                dsimp only
                rw [if_pos hcaught]
          · have hhead : ¬ ((some id).isSome = true → Listable f file) := fun h => hnot (h rfl)
            constructor
            · intro h
              exfalso
              obtain ⟨summary, e, hlisted, hloaded⟩ | ⟨e, hlisted, hescapes⟩ := hparted
              · -- One summary too many cannot be made up for.
                have hnone : wanted f (name, file) = none := by
                  rw [hwanted, hloaded]
                  rfl
                rw [hlisted, List.filterMap_cons_none hnone] at h
                obtain ⟨rest, hrest, heq⟩ := Fallible.map_eq_ok.mp h
                have hle := length_wanted_le hrest
                rw [← heq, List.length_cons] at hle
                omega
              · rw [hlisted] at h
                dsimp only at h
                rw [hescapes, if_neg Bool.false_ne_true] at h
                cases h
            · rintro ⟨h, -⟩
              exact absurd h hhead

/-- **The listing is what `get` returns, file by file, just when every file that is named by an
id is listable.** -/
theorem listing_agrees_iff (f : Formats) (dir : SessionsDir) :
    dir.list f = .ok (dir.loadable f) ↔
      ∀ file ∈ dir.files, (listedId file.1).isSome = true → Listable f file.2 := by
  rw [SessionsDir.list, loadable_eq]
  exact listFiles_eq_iff dir.files

/-- A session whose messages are `null`. -/
def nullMessages : SessionsDir where
  files := [(fileName "0123456789ab".toList,
    .value (.dict [("session_id".toList, .str "0123456789ab".toList), ("messages".toList, .none)]))]
  unique := List.nodup_singleton _

/-- It is listed, and `get` says that its file is unreadable. -/
theorem null_messages_listed :
    nullMessages.list ⟨fun _ => none, fun _ => none, fun _ => []⟩ ≠
      .ok (nullMessages.loadable ⟨fun _ => none, fun _ => none, fun _ => []⟩) := by
  intro h
  have hlisted : (nullMessages.list ⟨fun _ => none, fun _ => none, fun _ => []⟩).toOption.map List.length =
      some 1 := by decide +kernel
  have hloadable : (nullMessages.loadable ⟨fun _ => none, fun _ => none, fun _ => []⟩).length = 0 := by decide +kernel
  rw [h] at hlisted
  have hlength := Option.some.inj hlisted
  rw [hloadable] at hlength
  cases hlength

end CyClaw.Harness.Listing
