/-
The operator's notes, `harness/memory_notes.py`.

The notes are one file, which a call loads, edits and replaces whole.  Loading passes over what is no
note, converts, strips and cuts what is one, and stops at the twentieth; what a call writes back is
what it has loaded.  So a call keeps the other entries just when loading leaves them as they are
(`add_keeps_iff`, `forget_keeps_iff`).
-/
import CyClaw.Lib.JsonObject
import CyClaw.Sanitizer.Gates

namespace CyClaw.Harness.Notes

open PyText Sanitizer

abbrev Text := List Char

abbrev Bytes := List UInt8

inductive NotesError where
  | memory (e : MemoryNotesError)
  | unknownId (message code id : Text)
  /-- What is raised by what a call uses, and not caught. -/
  | other

/-- What `json.loads` says of the file's text. -/
inductive Loads where
  | value (parsed : PyValue)
  /-- Not UTF-8, or no JSON. -/
  | decodeError
  | raises

structure Note where
  id : Text
  text : Text
  ts : Text
deriving DecidableEq

def maxNotes : ℕ := 20

def Note.asDict (n : Note) : PyValue := .dict [("id".toList, .str n.id), ("text".toList, .str n.text), ("ts".toList, .str n.ts)]

/-- What `_save_notes` writes. -/
def payload (notes : List Note) : PyValue := .dict [("notes".toList, .list (notes.map Note.asDict))]

def noteText (n : Note) : Text :=
  '\n' :: ("    \x7b\n      \"id\": ".toList ++ (JsonText.quoted n.id ++
    ',' :: ("\n      \"text\": ".toList ++ (JsonText.quoted n.text ++
      ',' :: ("\n      \"ts\": ".toList ++ (JsonText.quoted n.ts ++ '\n' :: "    \x7d".toList))))))

/-- The notes after the first, and the end of the file. -/
def notesText : List Note → Text
  | [] => '\n' :: "  ]\n\x7d".toList
  | n :: notes => ',' :: (noteText n ++ notesText notes)

def fileStart : Text := "\x7b\n  \"notes\": [".toList

/-- `json.dump(payload, stream, indent=2)`. -/
def fileText (notes : List Note) : Text :=
  fileStart ++
    match notes with
    | [] => ']' :: "\n\x7d".toList
    | n :: notes => noteText n ++ notesText notes

def written (notes : List Note) : Bytes := encode (fileText notes)

/-- What the store uses. -/
structure Store where
  formats : PyValue.Formats
  regexes : Regexes
  loads : Bytes → Loads
  loads_written : ∀ notes, loads (written notes) = .value (payload notes)

/-- What a call finds around it. -/
structure Around where
  /-- The file can be read. -/
  reads : Bool
  /-- Nothing fails up to the replacement. -/
  writes : Bool
  /-- `secrets.token_hex(4)`. -/
  token : Text
  /-- `datetime.now(UTC).isoformat()`. -/
  now : Text
  token_ne_nil : token ≠ []
  token_stripped : strip token = token

/-- `_coerce_note`. -/
def coerceNote (s : Store) : PyValue → Option Note
  | .dict raw =>
      let noteId := strip ((PyValue.orElse (PyValue.get raw "id") (.str [])).text s.formats)
      let text := strip ((PyValue.orElse (PyValue.get raw "text") (.str [])).text s.formats)
      if noteId = [] ∨ text = [] then none
      else some ⟨noteId, text.take maxNoteChars, (PyValue.orElse (PyValue.get raw "ts") (.str [])).text s.formats⟩
  | _ => none

/-- The notes list of what was parsed. -/
def notesList : PyValue → Option (List PyValue)
  | .dict parsed =>
      match PyValue.get parsed "notes" with
      | some (.list raw) => some raw
      | _ => none
  | _ => none

/-- What loading makes of a notes list. -/
def coerced (s : Store) (raw : List PyValue) : List Note := (raw.filterMap (coerceNote s)).take maxNotes

/-- `_load_notes`; a file that is not there is `none`. -/
def loadNotes (s : Store) (a : Around) : Option Bytes → Except NotesError (List Note)
  | none => .ok []
  | some file =>
      if a.reads = false then .error (.memory ⟨"notes file is unreadable".toList, "MEMORY_NOTES_UNREADABLE".toList, none⟩)
      else
        match s.loads file with
        | .decodeError => .error (.memory ⟨"notes file is unreadable".toList, "MEMORY_NOTES_UNREADABLE".toList, none⟩)
        | .raises => .error .other
        | .value parsed =>
            match notesList parsed with
            | none => .ok []
            | some raw => .ok (coerced s raw)

/-- `_save_notes`: the file is replaced, or what fails leaves it as it was. -/
def saveNotes (a : Around) (notes : List Note) (file : Option Bytes) : Except NotesError Unit × Option Bytes :=
  if a.writes then (.ok (), some (written notes)) else (.error .other, file)

/-- `add`: what it returns, and the file after it. -/
def add (s : Store) (a : Around) (text : Text) (file : Option Bytes) : Except NotesError Note × Option Bytes :=
  match cleanNote s.regexes text with
  | .error e => (.error (.memory e), file)
  | .ok cleaned =>
      match loadNotes s a file with
      | .error e => (.error e, file)
      | .ok notes =>
          if maxNotes ≤ notes.length then
            (.error (.memory ⟨"at most 20 notes".toList, "MEMORY_NOTE_CAP".toList, some ("max_notes".toList, maxNotes)⟩),
              file)
          else
            let note : Note := ⟨a.token, cleaned, a.now⟩
            match saveNotes a (notes ++ [note]) file with
            | (.error e, file) => (.error e, file)
            | (.ok (), file) => (.ok note, file)

/-- `forget`: what it returns is how many notes are left. -/
def forget (s : Store) (a : Around) (noteId : Text) (file : Option Bytes) : Except NotesError ℕ × Option Bytes :=
  let wanted := strip noteId
  if wanted = [] then
    (.error (.memory ⟨"note id is required".toList, "MEMORY_NOTE_ID_REQUIRED".toList, none⟩), file)
  else
    match loadNotes s a file with
    | .error e => (.error e, file)
    | .ok notes =>
        let kept := notes.filter fun note => note.id ≠ wanted
        if kept.length = notes.length then
          (.error (.unknownId "unknown note id".toList "MEMORY_NOTE_UNKNOWN".toList wanted), file)
        else
          match saveNotes a kept file with
          | (.error e, file) => (.error e, file)
          | (.ok (), file) => (.ok kept.length, file)

/-! ### What a file holds -/

/-- What an entry of a notes list is known by. -/
inductive Identity where
  | note (id text : Option PyValue)
  | other (value : PyValue)

def identity : PyValue → Identity
  | .dict raw => .note (PyValue.get raw "id") (PyValue.get raw "text")
  | v => .other v

/-- The entries of the notes list in a file. -/
def entriesOf (s : Store) (file : Option Bytes) : List PyValue :=
  match file.map s.loads with
  | some (.value parsed) => (notesList parsed).getD []
  | _ => []

/-- Every one of some entries is in the file, with its id and text. -/
def Keeps (s : Store) (entries : List PyValue) (file : Option Bytes) : Prop :=
  (entries.map identity).Subperm ((entriesOf s file).map identity)

/-- Loading leaves the entry as it is: its id and text are texts, stripped and not empty, and the text is
no longer than a note may be. -/
def Proper (entry : PyValue) : Prop :=
  ∃ raw id text, entry = .dict raw ∧ PyValue.get raw "id" = some (.str id) ∧ PyValue.get raw "text" = some (.str text) ∧
    (strip id = id ∧ id ≠ []) ∧ strip text = text ∧ text ≠ [] ∧ text.length ≤ maxNoteChars

/-- An entry is loaded as a note of some id. -/
def HasId (s : Store) (id : Text) (entry : PyValue) : Prop := (coerceNote s entry).map Note.id = some id

variable {s : Store} {a : Around} {file : Option Bytes} {entry : PyValue} {entries raw : List PyValue} {n : Note}
  {notes : List Note}

theorem orElse_str (t : Text) : PyValue.orElse (some (.str t)) (.str []) = .str t := by
  unfold PyValue.orElse PyValue.truthy
  cases t <;> rfl

theorem coerceNote_dict {fields : List (Text × PyValue)} {id text : Text} (hid : PyValue.get fields "id" = some (.str id))
    (htext : PyValue.get fields "text" = some (.str text)) :
    coerceNote s (.dict fields) =
      if strip id = [] ∨ strip text = [] then none
      else some ⟨strip id, (strip text).take maxNoteChars,
        (PyValue.orElse (PyValue.get fields "ts") (.str [])).text s.formats⟩ := by
  rw [coerceNote, hid, htext, orElse_str, orElse_str]
  rfl

theorem identity_asDict (n : Note) : identity n.asDict = .note (some (.str n.id)) (some (.str n.text)) := by
  rfl

/-- A proper entry is loaded with its id and text. -/
theorem Proper.coerced (h : Proper entry) : ∃ n, coerceNote s entry = some n ∧ identity entry = identity n.asDict := by
  obtain ⟨raw, id, text, rfl, hid, htext, ⟨hsid, hnid⟩, hstext, hntext, hlength⟩ := h
  rw [coerceNote_dict hid htext, hsid, hstext, if_neg (not_or.mpr ⟨hnid, hntext⟩), List.take_of_length_le hlength]
  refine ⟨_, rfl, ?_⟩
  rw [identity_asDict, identity, hid, htext]

/-- What a loaded note is: only its text need not be stripped, where it was cut. -/
structure Sound (n : Note) : Prop where
  id : strip n.id = n.id ∧ n.id ≠ []
  text : n.text ≠ []
  length : n.text.length ≤ maxNoteChars

theorem coerceNote_some (h : coerceNote s entry = some n) : ∃ fields text, entry = .dict fields ∧
    text = strip ((PyValue.orElse (PyValue.get fields "text") (.str [])).text s.formats) ∧
    n.text = text.take maxNoteChars ∧ Sound n := by
  cases entry with
  | dict fields =>
    simp only [coerceNote, Option.ite_none_left_eq_some, Option.some.injEq, not_or] at h
    obtain ⟨⟨hid, htext⟩, rfl⟩ := h
    refine ⟨fields, _, rfl, rfl, rfl, ⟨stripBy_stripBy _ _, hid⟩, ?_, List.length_take_le _ _⟩
    intro hnil
    rw [List.take_eq_nil_iff] at hnil
    exact hnil.elim (by decide) htext
  | _ => cases h

theorem length_strip_le (t : Text) : (strip t).length ≤ t.length := by
  obtain ⟨x, z, ht⟩ := exists_strip t
  have hlength := congrArg List.length ht
  rw [List.length_append, List.length_append] at hlength
  omega

/-- The text of a note whose entry is kept was not cut. -/
theorem stripped_of_identity {n' : Note} (h : coerceNote s entry = some n) (hid : identity entry = identity n'.asDict)
    (hlength : n'.text.length ≤ maxNoteChars) : strip n.text = n.text := by
  obtain ⟨fields, text, rfl, htext, hcut, -⟩ := coerceNote_some h
  rw [identity, identity_asDict, Identity.note.injEq] at hid
  rw [hid.2, orElse_str] at htext
  have hshort : text.length ≤ maxNoteChars := by
    rw [htext]
    exact (length_strip_le _).trans hlength
  rw [hcut, List.take_of_length_le hshort, htext]
  exact stripBy_stripBy _ _

/-- An entry with the identity of a note that could have been loaded is proper. -/
theorem proper_of_identity (h : identity entry = identity n.asDict) (hn : Sound n) (hstrip : strip n.text = n.text) :
    Proper entry := by
  rw [identity_asDict] at h
  cases entry with
  | dict fields =>
    rw [identity, Identity.note.injEq] at h
    exact ⟨fields, n.id, n.text, rfl, h.1, h.2, hn.id, hstrip, hn.text, hn.length⟩
  | _ => cases h

/-- **Entries that are kept are proper**, where every note comes of one of them or is stripped. -/
theorem proper_of_kept (hnotes : ∀ n ∈ notes, Sound n ∧
      (strip n.text = n.text ∨ ∃ entry ∈ entries, coerceNote s entry = some n))
    (hkept : ∀ entry ∈ entries, identity entry ∈ notes.map fun n => identity n.asDict) :
    ∀ entry ∈ entries, Proper entry := by
  intro entry hentry
  obtain ⟨n, hn, hid⟩ := List.mem_map.mp (hkept entry hentry)
  obtain ⟨hsound, hstrip | ⟨source, hsource, hcoerced⟩⟩ := hnotes n hn
  · exact proper_of_identity hid.symm hsound hstrip
  · obtain ⟨n', hn', hid'⟩ := List.mem_map.mp (hkept source hsource)
    exact proper_of_identity hid.symm hsound (stripped_of_identity hcoerced hid'.symm (hnotes n' hn').1.length)

/-- Proper entries are all loaded, in order and as they are. -/
theorem identities_coerced (h : ∀ entry ∈ raw, Proper entry) :
    (raw.filterMap (coerceNote s)).map (fun n => identity n.asDict) = raw.map identity := by
  induction raw with
  | nil => rfl
  | cons entry raw ih =>
    obtain ⟨n, hn, hid⟩ := (h entry List.mem_cons_self).coerced (s := s)
    rw [List.filterMap_cons_some hn, List.map_cons, List.map_cons, hid,
      ih fun e he => h e (List.mem_cons_of_mem entry he)]

/-! ### Saving -/

theorem entriesOf_written (notes : List Note) : entriesOf s (some (written notes)) = notes.map Note.asDict := by
  rw [entriesOf, Option.map_some, s.loads_written]
  rfl

theorem keeps_written : Keeps s entries (some (written notes)) ↔
    (entries.map identity).Subperm (notes.map fun n => identity n.asDict) := by
  rw [Keeps, entriesOf_written, List.map_map]
  rfl

/-- What is loaded is the notes of the entries, or the loading raises. -/
theorem loadNotes_eq (s : Store) (a : Around) (file : Option Bytes) :
    (∃ e, loadNotes s a file = .error e) ∨ loadNotes s a file = .ok (coerced s (entriesOf s file)) := by
  cases file with
  | none => exact Or.inr rfl
  | some file =>
    rw [loadNotes, entriesOf, Option.map_some]
    split
    · exact Or.inl ⟨_, rfl⟩
    · cases s.loads file with
      | decodeError => exact Or.inl ⟨_, rfl⟩
      | raises => exact Or.inl ⟨_, rfl⟩
      | value parsed =>
        dsimp only
        cases notesList parsed with
        | none => exact Or.inr rfl
        | some raw => exact Or.inr rfl

/-- An error of loading, where the file could be read, leaves no entry to speak of. -/
theorem entriesOf_of_error {e : NotesError} (hreads : a.reads = true) (h : loadNotes s a file = .error e) :
    entriesOf s file = [] := by
  cases file with
  | none => cases h
  | some file =>
    rw [loadNotes, if_neg (by rw [hreads]; exact Bool.noConfusion)] at h
    rw [entriesOf, Option.map_some]
    cases hloads : s.loads file with
    | decodeError => rfl
    | raises => rfl
    | value parsed =>
      rw [hloads] at h
      dsimp only at h
      cases hlist : notesList parsed with
      | none =>
        rw [hlist] at h
        cases h
      | some raw =>
        rw [hlist] at h
        cases h

/-! ### Adding -/

/-- Adding a note raises and leaves the file as it is, or keeps all its entries. -/
def AddKeeps (s : Store) (a : Around) (text : Text) (file : Option Bytes) : Prop :=
  ((∃ e, (add s a text file).1 = .error e) ∧ (add s a text file).2 = file) ∨
    (∃ note, (add s a text file).1 = .ok note) ∧ Keeps s (entriesOf s file) (add s a text file).2

theorem coerced_sound (h : n ∈ coerced s raw) : ∃ entry ∈ raw, coerceNote s entry = some n ∧ Sound n := by
  obtain ⟨entry, hentry, hn⟩ := List.mem_filterMap.mp (List.mem_of_mem_take h)
  obtain ⟨-, -, -, -, -, hsound⟩ := coerceNote_some hn
  exact ⟨entry, hentry, hn, hsound⟩

theorem cleanNote_ok {text cleaned : Text} (h : cleanNote s.regexes text = .ok cleaned) :
    strip cleaned = cleaned ∧ cleaned ≠ [] ∧ cleaned.length ≤ maxNoteChars := by
  unfold cleanNote at h
  dsimp only at h
  split at h
  · cases h
  · rename_i hempty
    split at h
    · cases h
    · rename_i hlong
      split at h
      · cases h
        exact ⟨stripBy_stripBy _ _, hempty, Nat.le_of_not_lt hlong⟩
      · cases h

/-- A note is added and saved. -/
theorem add_saved {text cleaned : Text} (hclean : cleanNote s.regexes text = .ok cleaned)
    (hload : loadNotes s a file = .ok notes) (hroom : notes.length < maxNotes) (hwrites : a.writes = true) :
    add s a text file =
      (.ok ⟨a.token, cleaned, a.now⟩, some (written (notes ++ [⟨a.token, cleaned, a.now⟩]))) := by
  rw [add, hclean]
  dsimp only
  rw [hload]
  dsimp only
  rw [if_neg (Nat.not_le_of_lt hroom), saveNotes, if_pos hwrites]

/-- What adding keeps are proper entries, when the notes of all of them are there. -/
theorem keeps_added_iff {note : Note} (hnote : Sound note) (hstrip : strip note.text = note.text)
    (hroom : (coerced s raw).length < maxNotes) :
    Keeps s raw (some (written (coerced s raw ++ [note]))) ↔ ∀ entry ∈ raw, Proper entry := by
  rw [keeps_written]
  constructor
  · intro hkeeps
    have hnotes : ∀ n ∈ coerced s raw ++ [note], Sound n ∧
        (strip n.text = n.text ∨ ∃ entry ∈ raw, coerceNote s entry = some n) := by
      intro n hn
      rcases List.mem_append.mp hn with hn | hn
      · obtain ⟨entry, hentry, hcoerced, hsound⟩ := coerced_sound hn
        exact ⟨hsound, Or.inr ⟨entry, hentry, hcoerced⟩⟩
      · rw [List.mem_singleton] at hn
        rw [hn]
        exact ⟨hnote, Or.inl hstrip⟩
    exact proper_of_kept hnotes fun entry hentry => hkeeps.subset (List.mem_map_of_mem hentry)
  · intro hproper
    have hall : coerced s raw = raw.filterMap (coerceNote s) := by
      refine List.take_of_length_le ?_
      rw [coerced, List.length_take] at hroom
      omega
    rw [hall, List.map_append, identities_coerced hproper]
    exact (List.sublist_append_left _ _).subperm

/-- **Adding a note keeps the others** just when it is refused, or every entry is a proper note. -/
theorem add_keeps_iff (s : Store) (text : Text) (file : Option Bytes) :
    (∀ a, AddKeeps s a text file) ↔
      (∃ e, cleanNote s.regexes text = .error e) ∨ maxNotes ≤ (coerced s (entriesOf s file)).length ∨
        ∀ entry ∈ entriesOf s file, Proper entry := by
  cases hclean : cleanNote s.regexes text with
  | error e =>
    refine iff_of_true (fun a => Or.inl ?_) (Or.inl ⟨e, rfl⟩)
    rw [add, hclean]
    exact ⟨⟨_, rfl⟩, rfl⟩
  | ok cleaned =>
    obtain ⟨hstrip, hne, hlength⟩ := cleanNote_ok hclean
    have hsound (a : Around) : Sound ⟨a.token, cleaned, a.now⟩ := ⟨⟨a.token_stripped, a.token_ne_nil⟩, hne, hlength⟩
    rw [or_iff_right (fun h => by obtain ⟨e, h⟩ := h; cases h)]
    constructor
    · intro h
      by_contra hnot
      rw [not_or, Nat.not_le] at hnot
      -- The call that can read and write.
      have hkeeps := h ⟨true, true, ['0'], [], by decide, by decide⟩
      rcases loadNotes_eq s ⟨true, true, ['0'], [], by decide, by decide⟩ file with ⟨e, hload⟩ | hload
      · rw [entriesOf_of_error rfl hload] at hnot
        exact hnot.2 fun entry hentry => absurd hentry List.not_mem_nil
      · rw [AddKeeps, add_saved hclean hload hnot.1 rfl] at hkeeps
        rcases hkeeps with ⟨⟨e, he⟩, -⟩ | ⟨-, hkeeps⟩
        · cases he
        · exact hnot.2 ((keeps_added_iff (hsound _) hstrip hnot.1).mp hkeeps)
    · intro h a
      rcases loadNotes_eq s a file with ⟨e, hload⟩ | hload
      · left
        rw [add, hclean]
        dsimp only
        rw [hload]
        exact ⟨⟨_, rfl⟩, rfl⟩
      · by_cases hroom : (coerced s (entriesOf s file)).length < maxNotes
        · cases hwrites : a.writes with
          | false =>
            left
            rw [add, hclean]
            dsimp only
            rw [hload]
            dsimp only
            rw [if_neg (Nat.not_le_of_lt hroom), saveNotes, hwrites]
            exact ⟨⟨_, rfl⟩, rfl⟩
          | true =>
            right
            rw [add_saved hclean hload hroom hwrites]
            have hproper := h.resolve_left (Nat.not_le_of_lt hroom)
            exact ⟨⟨_, rfl⟩, (keeps_added_iff (hsound a) hstrip hroom).mpr hproper⟩
        · left
          rw [add, hclean]
          dsimp only
          rw [hload]
          dsimp only
          rw [if_pos (Nat.le_of_not_lt hroom)]
          exact ⟨⟨_, rfl⟩, rfl⟩

/-! ### Forgetting -/

/-- Forgetting a note raises and leaves the file as it is, or keeps all entries but one of that id. -/
def ForgetKeeps (s : Store) (a : Around) (noteId : Text) (file : Option Bytes) : Prop :=
  ((∃ e, (forget s a noteId file).1 = .error e) ∧ (forget s a noteId file).2 = file) ∨
    (∃ count, (forget s a noteId file).1 = .ok count) ∧
      ∃ before entry after, entriesOf s file = before ++ entry :: after ∧ HasId s (strip noteId) entry ∧
        Keeps s (before ++ after) (forget s a noteId file).2

/-- All entries but one are proper notes of other ids, and none lies beyond the twentieth. -/
def OneForgotten (s : Store) (wanted : Text) (raw : List PyValue) : Prop :=
  raw.length ≤ maxNotes ∧ ∃ before entry after, raw = before ++ entry :: after ∧ HasId s wanted entry ∧
    ∀ other ∈ before ++ after, Proper other ∧ ¬ HasId s wanted other

variable {wanted : Text}

theorem hasId_iff (h : coerceNote s entry = some n) : HasId s wanted entry ↔ n.id = wanted := by
  rw [HasId, h, Option.map_some, Option.some.injEq]

/-- The identity of a proper entry says which id it is loaded with. -/
theorem Proper.hasId_iff (hproper : Proper entry) (hid : identity entry = identity n.asDict) :
    HasId s wanted entry ↔ n.id = wanted := by
  obtain ⟨n', hn', hid'⟩ := hproper.coerced (s := s)
  rw [Notes.hasId_iff hn']
  rw [hid, identity_asDict, identity_asDict, Identity.note.injEq, Option.some.injEq, PyValue.str.injEq] at hid'
  rw [hid'.1]

theorem keeps_forgotten_iff (hknown : ∃ n ∈ coerced s raw, n.id = wanted) :
    (∃ before entry after, raw = before ++ entry :: after ∧ HasId s wanted entry ∧
      Keeps s (before ++ after) (some (written ((coerced s raw).filter fun note => note.id ≠ wanted)))) ↔
    OneForgotten s wanted raw := by
  constructor
  · rintro ⟨before, entry, after, hraw, hentry, hkeeps⟩
    rw [keeps_written] at hkeeps
    have hnotes : ∀ n ∈ (coerced s raw).filter fun note => note.id ≠ wanted, Sound n ∧
        (strip n.text = n.text ∨ ∃ other ∈ before ++ after, coerceNote s other = some n) := by
      intro n hn
      obtain ⟨hn, hid⟩ := List.mem_filter.mp hn
      obtain ⟨source, hsource, hcoerced, hsound⟩ := coerced_sound hn
      refine ⟨hsound, Or.inr ⟨source, ?_, hcoerced⟩⟩
      rw [hraw, List.mem_append, List.mem_cons] at hsource
      rw [List.mem_append]
      rcases hsource with h | rfl | h
      · exact Or.inl h
      · exact absurd ((hasId_iff hcoerced).mp hentry) (of_decide_eq_true hid)
      · exact Or.inr h
    have hkept : ∀ other ∈ before ++ after, identity other ∈
        ((coerced s raw).filter fun note => note.id ≠ wanted).map fun n => identity n.asDict := fun other hother =>
      hkeeps.subset (List.mem_map_of_mem hother)
    have hproper := proper_of_kept hnotes hkept
    refine ⟨?_, before, entry, after, hraw, hentry, fun other hother => ⟨hproper other hother, ?_⟩⟩
    · -- One of the notes loaded is left out, so there are at most nineteen others.
      have hless : ((coerced s raw).filter fun note => note.id ≠ wanted).length < (coerced s raw).length := by
        obtain ⟨n, hn, hid⟩ := hknown
        rw [List.length_filter_lt_length_iff_exists]
        exact ⟨n, hn, by simp [hid]⟩
      have hatMost : (coerced s raw).length ≤ maxNotes := List.length_take_le _ _
      have hlength := hkeeps.length_le
      rw [List.length_map, List.length_map, List.length_append] at hlength
      rw [hraw, List.length_append, List.length_cons]
      omega
    · obtain ⟨n, hn, hid⟩ := List.mem_map.mp (hkept other hother)
      rw [(hproper other hother).hasId_iff hid.symm]
      exact of_decide_eq_true (List.mem_filter.mp hn).2
  · rintro ⟨hlength, before, entry, after, hraw, hentry, hothers⟩
    refine ⟨before, entry, after, hraw, hentry, ?_⟩
    obtain ⟨n, hn, hid⟩ := Option.map_eq_some_iff.mp hentry
    have hall : coerced s raw = before.filterMap (coerceNote s) ++ n :: after.filterMap (coerceNote s) := by
      rw [coerced, List.take_of_length_le ((List.length_filterMap_le _ _).trans hlength), hraw, List.filterMap_append,
        List.filterMap_cons_some hn]
    have hkeep : ∀ part : List PyValue, (∀ other ∈ part, other ∈ before ++ after) →
        (part.filterMap (coerceNote s)).filter (fun note => note.id ≠ wanted) = part.filterMap (coerceNote s) := by
      intro part hpart
      refine List.filter_eq_self.mpr fun n hn => decide_eq_true fun hid => ?_
      obtain ⟨other, hother, hcoerced⟩ := List.mem_filterMap.mp hn
      exact (hothers other (hpart other hother)).2 ((hasId_iff hcoerced).mpr hid)
    rw [keeps_written, hall, List.filter_append, List.filter_cons_of_neg (by simp [hid]),
      hkeep before fun _ h => List.mem_append_left _ h, hkeep after fun _ h => List.mem_append_right _ h,
      ← List.filterMap_append, identities_coerced fun other hother => (hothers other hother).1]

theorem forget_saved {noteId : Text} (hid : strip noteId ≠ []) (hload : loadNotes s a file = .ok notes)
    (hknown : (notes.filter fun note => note.id ≠ strip noteId).length ≠ notes.length) (hwrites : a.writes = true) :
    forget s a noteId file = (.ok (notes.filter fun note => note.id ≠ strip noteId).length,
      some (written (notes.filter fun note => note.id ≠ strip noteId))) := by
  rw [forget]
  dsimp only
  rw [if_neg hid, hload]
  dsimp only
  rw [if_neg hknown, saveNotes, if_pos hwrites]

theorem unknown_iff : (notes.filter fun note => note.id ≠ wanted).length = notes.length ↔ ∀ n ∈ notes, n.id ≠ wanted := by
  rw [List.length_filter_eq_length_iff]
  exact forall₂_congr fun n _ => decide_eq_true_iff

/-- **Forgetting a note keeps the others** just when it is refused, or all others are proper notes of other
ids and none lies beyond the twentieth. -/
theorem forget_keeps_iff (s : Store) (noteId : Text) (file : Option Bytes) :
    (∀ a, ForgetKeeps s a noteId file) ↔
      strip noteId = [] ∨ (∀ n ∈ coerced s (entriesOf s file), n.id ≠ strip noteId) ∨
        OneForgotten s (strip noteId) (entriesOf s file) := by
  by_cases hid : strip noteId = []
  · refine iff_of_true (fun a => Or.inl ?_) (Or.inl hid)
    rw [forget]
    dsimp only
    rw [if_pos hid]
    exact ⟨⟨_, rfl⟩, rfl⟩
  · rw [or_iff_right hid]
    by_cases hunknown : ∀ n ∈ coerced s (entriesOf s file), n.id ≠ strip noteId
    · refine iff_of_true (fun a => Or.inl ?_) (Or.inl hunknown)
      rw [forget]
      dsimp only
      rw [if_neg hid]
      rcases loadNotes_eq s a file with ⟨e, hload⟩ | hload
      · rw [hload]
        exact ⟨⟨_, rfl⟩, rfl⟩
      · rw [hload]
        dsimp only
        rw [if_pos (unknown_iff.mpr hunknown)]
        exact ⟨⟨_, rfl⟩, rfl⟩
    · rw [or_iff_right hunknown]
      have hknown : ∃ n ∈ coerced s (entriesOf s file), n.id = strip noteId := by
        push Not at hunknown
        exact hunknown
      have hless := mt unknown_iff.mp hunknown
      rw [← keeps_forgotten_iff hknown]
      constructor
      · intro h
        have hkeeps := h ⟨true, true, ['0'], [], by decide, by decide⟩
        rcases loadNotes_eq s ⟨true, true, ['0'], [], by decide, by decide⟩ file with ⟨e, hload⟩ | hload
        · rw [entriesOf_of_error rfl hload] at hknown
          obtain ⟨n, hn, -⟩ := hknown
          cases hn
        · rw [ForgetKeeps, forget_saved hid hload hless rfl] at hkeeps
          rcases hkeeps with ⟨⟨e, he⟩, -⟩ | ⟨-, hkeeps⟩
          · cases he
          · exact hkeeps
      · intro h a
        rcases loadNotes_eq s a file with ⟨e, hload⟩ | hload
        · left
          rw [forget]
          dsimp only
          rw [if_neg hid, hload]
          exact ⟨⟨_, rfl⟩, rfl⟩
        · cases hwrites : a.writes with
          | false =>
            left
            rw [forget]
            dsimp only
            rw [if_neg hid, hload]
            dsimp only
            rw [if_neg hless, saveNotes, hwrites]
            exact ⟨⟨_, rfl⟩, rfl⟩
          | true =>
            right
            rw [forget_saved hid hload hless hwrites]
            exact ⟨⟨_, rfl⟩, h⟩

/-- Adding and forgetting keep the other entries of every file just under these conditions. -/
theorem notes_kept_iff (s : Store) (text noteId : Text) (file : Option Bytes) :
    ((∀ a, AddKeeps s a text file) ↔
      (∃ e, cleanNote s.regexes text = .error e) ∨ maxNotes ≤ (coerced s (entriesOf s file)).length ∨
        ∀ entry ∈ entriesOf s file, Proper entry) ∧
    ((∀ a, ForgetKeeps s a noteId file) ↔
      strip noteId = [] ∨ (∀ n ∈ coerced s (entriesOf s file), n.id ≠ strip noteId) ∨
        OneForgotten s (strip noteId) (entriesOf s file)) :=
  ⟨add_keeps_iff s text file, forget_keeps_iff s noteId file⟩

/-! ### A file with an entry that has no id -/

def readText (before : Text) (t : Text) : Option (Text × Text) :=
  (JsonObject.after before t).bind fun rest =>
    match JsonObject.readScalar rest with
    | some (.str value, rest) => some (value, rest)
    | _ => none

def readNote (t : Text) : Option (Note × Text) :=
  (readText ('\n' :: "    \x7b\n      \"id\": ".toList) t).bind fun id =>
    (readText (',' :: "\n      \"text\": ".toList) id.2).bind fun text =>
      (readText (',' :: "\n      \"ts\": ".toList) text.2).bind fun ts =>
        (JsonObject.after ('\n' :: "    \x7d".toList) ts.2).map fun rest => (⟨id.1, text.1, ts.1⟩, rest)

def readNotes : ℕ → Text → Option (List Note)
  | 0, _ => none
  | k + 1, t =>
      if t = notesText [] then some []
      else
        (JsonObject.after [','] t).bind fun rest =>
          (readNote rest).bind fun r => (readNotes k r.2).map fun notes => r.1 :: notes

def readFile (t : Text) : Option (List Note) :=
  (JsonObject.after fileStart t).bind fun rest =>
    if rest = ']' :: "\n\x7d".toList then some []
    else (readNote rest).bind fun r => (readNotes (t.length + 1) r.2).map fun notes => r.1 :: notes

theorem readText_append (before value : Text) {rest : Text} (hends : JsonObject.Ends rest) :
    readText before (before ++ (JsonText.quoted value ++ rest)) = some (value, rest) := by
  have hscalar : JsonObject.readScalar (JsonText.quoted value ++ rest) = some (.str value, rest) :=
    JsonObject.readScalar_append (.str value) hends
  rw [readText, JsonObject.after_append, Option.bind_some, hscalar]

theorem readNote_append (n : Note) (rest : Text) : readNote (noteText n ++ rest) = some (n, rest) := by
  simp only [noteText, List.append_assoc, List.cons_append]
  simp only [← List.cons_append]
  rw [readNote, readText_append, Option.bind_some, readText_append, Option.bind_some, readText_append, Option.bind_some,
    JsonObject.after_append]
  · rfl
  · rfl
  · rfl
  · rfl

theorem readNotes_notesText (notes : List Note) : ∀ k, notes.length < k → readNotes k (notesText notes) = some notes := by
  induction notes with
  | nil =>
    intro k hk
    obtain ⟨k, rfl⟩ := Nat.exists_eq_succ_of_ne_zero (Nat.ne_of_gt hk)
    rw [readNotes, if_pos rfl]
  | cons n notes ih =>
    intro k hk
    obtain ⟨k, rfl⟩ := Nat.exists_eq_succ_of_ne_zero (Nat.ne_of_gt (Nat.lt_of_le_of_lt (Nat.zero_le _) hk))
    have hmore : notesText (n :: notes) ≠ notesText [] := fun h => absurd (List.cons.inj h).1 (by decide)
    have hafter : JsonObject.after [','] (notesText (n :: notes)) = some (noteText n ++ notesText notes) :=
      JsonObject.after_append [','] _
    rw [readNotes, if_neg hmore, hafter, Option.bind_some, readNote_append, Option.bind_some,
      ih k (Nat.lt_of_succ_lt_succ hk)]
    rfl

theorem length_le_notesText (notes : List Note) : notes.length ≤ (notesText notes).length := by
  induction notes with
  | nil => exact Nat.zero_le _
  | cons n notes ih =>
    rw [notesText, List.length_cons, List.length_cons, List.length_append]
    omega

/-- What is written is read back. -/
theorem readFile_fileText (notes : List Note) : readFile (fileText notes) = some notes := by
  cases notes with
  | nil => rw [readFile, fileText, JsonObject.after_append, Option.bind_some, if_pos rfl]
  | cons n notes =>
    have hmore : noteText n ++ notesText notes ≠ ']' :: "\n\x7d".toList := by
      intro h
      rw [noteText, List.cons_append, List.cons.injEq] at h
      exact absurd h.1 (by decide)
    have hlength : notes.length < (fileText (n :: notes)).length + 1 := by
      have hle := length_le_notesText notes
      rw [fileText, List.length_append, List.length_append]
      omega
    have hafter : JsonObject.after fileStart (fileText (n :: notes)) =
        some (noteText n ++ notesText notes) := by
      rw [fileText, JsonObject.after_append]
    rw [readFile, hafter, Option.bind_some, if_neg hmore, readNote_append, Option.bind_some,
      readNotes_notesText notes _ hlength]
    rfl

/-- The file an operator may have written by hand. -/
def handWritten : Bytes := encode "\x7b\"notes\": [\x7b\"text\": \"milk\"\x7d]\x7d".toList

def handEntry : PyValue := .dict [("text".toList, .str "milk".toList)]

def sampleStore : Store where
  formats := ⟨fun _ => none, fun _ => none, fun _ => []⟩
  regexes := sampleRegexes
  loads b :=
    match (decode b).bind readFile with
    | some notes => .value (payload notes)
    | none => if b = handWritten then .value (.dict [("notes".toList, .list [handEntry])]) else .decodeError
  loads_written := by
    intro notes
    rw [written, decode_encode, Option.bind_some, readFile_fileText]

def sampleAround : Around := ⟨true, true, "0a1b2c3d".toList, "2026-01-01T00:00:00+00:00".toList, by decide, by decide⟩

theorem entriesOf_handWritten : entriesOf sampleStore (some handWritten) = [handEntry] := by
  have hread : (decode handWritten).bind readFile = none := by
    rw [handWritten, decode_encode]
    decide +kernel
  have hloads : sampleStore.loads handWritten = .value (.dict [("notes".toList, .list [handEntry])]) := by
    simp only [sampleStore, hread]
    rfl
  rw [entriesOf, Option.map_some, hloads]
  rfl

/-- The note without an id is gone once another is added. -/
theorem add_loses_entry : ¬ AddKeeps sampleStore sampleAround "eggs".toList (some handWritten) := by
  have hclean : cleanNote sampleStore.regexes "eggs".toList = .ok "eggs".toList := by decide +kernel
  have hcoerced : coerced sampleStore (entriesOf sampleStore (some handWritten)) = [] := by
    rw [entriesOf_handWritten]
    rfl
  have hload : loadNotes sampleStore sampleAround (some handWritten) = .ok [] := by
    rcases loadNotes_eq sampleStore sampleAround (some handWritten) with ⟨e, hload⟩ | hload
    · have hnone := entriesOf_of_error rfl hload
      rw [entriesOf_handWritten] at hnone
      cases hnone
    · rw [hload, hcoerced]
  rw [AddKeeps, add_saved hclean hload (by decide) rfl, entriesOf_handWritten]
  rintro (⟨⟨e, he⟩, -⟩ | ⟨-, hkeeps⟩)
  · cases he
  · rw [keeps_written] at hkeeps
    obtain ⟨n, -, hid⟩ := List.mem_map.mp (hkeeps.subset List.mem_cons_self)
    rw [identity_asDict] at hid
    cases hid

end CyClaw.Harness.Notes
