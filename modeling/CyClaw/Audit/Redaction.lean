/-
What the audit log leaves out (`utils/logger.py`).

A record is built on a shallow copy of the event: the query gives way to its hash, and every value
that is not one of the structural ones is copied with its strings redacted, first of e-mail addresses
and then of IPv4 addresses.  The second substitution puts in no part of an address and takes away what
lies between two others, so neither pattern is left (`redact_clear`).  Only values are redacted, at
any depth; a key is written as it is.

The objects of an event are reached by reference, so that what the caller still holds can be told from
what was copied.  What a character is to `\w` and `\d`, what a configured pattern replaces, the hash
and the clock come from outside (`AuditHost`).
-/
import CyClaw.Lib.PyHeap
import CyClaw.Lib.RegexSub

namespace CyClaw.Redaction

open PyHeap Regex

abbrev Text := List Char

/-! ### The patterns -/

/-- `\w` and `\d` of `re`, for texts. -/
structure CharClasses where
  isWord : Char → Bool
  isDigit : Char → Bool
  digit_word : ∀ c, isDigit c = true → isWord c = true
  ascii_digit : ∀ c, c.toNat < 128 → isDigit c = c.isDigit

def isAsciiLetter (c : Char) : Bool := ('a' ≤ c && c ≤ 'z') || ('A' ≤ c && c ≤ 'Z')

def isAsciiDigit (c : Char) : Bool := '0' ≤ c && c ≤ '9'

/-- `[a-zA-Z0-9._%+-]` -/
def isLocalPart (c : Char) : Bool :=
  isAsciiLetter c || isAsciiDigit c || c == '.' || c == '_' || c == '%' || c == '+' || c == '-'

/-- `[a-zA-Z0-9.-]` -/
def isDomain (c : Char) : Bool := isAsciiLetter c || isAsciiDigit c || c == '.' || c == '-'

/-- `[a-zA-Z0-9._%+-]+@[a-zA-Z0-9.-]+\.[a-zA-Z]{2,}` -/
def emailPattern : Re :=
  .seq (.plus (.cls isLocalPart)) (.seq (.cls (· == '@')) (.seq (.plus (.cls isDomain)) (.seq (.cls (· == '.'))
    (.seq (.cls isAsciiLetter) (.plus (.cls isAsciiLetter))))))

variable (u : CharClasses)

/-- `\d{1,3}` -/
def octet : Re := .seq (.cls u.isDigit) (.alt (.seq (.cls u.isDigit) (.alt (.cls u.isDigit) .eps)) .eps)

/-- `\d{1,3}\.\d{1,3}\.\d{1,3}\.\d{1,3}` -/
def quad : Re :=
  .seq (octet u) (.seq (.cls (· == '.')) (.seq (octet u) (.seq (.cls (· == '.')) (.seq (octet u)
    (.seq (.cls (· == '.')) (octet u))))))

/-- `\b\d{1,3}\.\d{1,3}\.\d{1,3}\.\d{1,3}\b` -/
def ipPattern : Re := wholeWord (quad u)

def redactedEmail : Text := marked '[' ']' "REDACTED_EMAIL".toList

def redactedIp : Text := marked '[' ']' "REDACTED_IP".toList

/-- `policy.privacy`. -/
structure Privacy where
  redactEmails : Bool
  redactIps : Bool
  redactSecretsLike : List PyValue

/-- `_compiled_redactors`; `compile` makes of a configured pattern what it substitutes, `none` where it is no
pattern. -/
def compiledRedactors (compile : Text → Option (Text → Text)) (privacy : Privacy) : List (Text → Text) :=
  (if privacy.redactEmails then [sub u.isWord emailPattern redactedEmail] else []) ++
  (if privacy.redactIps then [sub u.isWord (ipPattern u) redactedIp] else []) ++
  privacy.redactSecretsLike.filterMap fun
    | .str pattern => compile pattern
    | _ => none

/-- One substitution after the other. -/
def redact (redactors : List (Text → Text)) (t : Text) : Text := redactors.foldl (fun t substitute => substitute t) t

/-! ### The record -/

/-- A new list of what the items come to. -/
def listOf (f : Val → Heap → Heap × Except Fault Val) (items : List Val) (h : Heap) : Heap × Except Fault Val :=
  match collect f items h with
  | (h, .error e) => (h, .error e)
  | (h, .ok items) => alloc (.list items) h

/-- An entry with what its value comes to. -/
def entryOf (f : Val → Heap → Heap × Except Fault Val) (p : Scalar × Val) (h : Heap) :
    Heap × Except Fault (Scalar × Val) :=
  ((f p.2 h).1, (f p.2 h).2.map fun v => (p.1, v))

/-- A new dictionary of what the entries come to. -/
def dictFrom (f : Val → Heap → Heap × Except Fault Val) (rows : List (Scalar × Val)) (h : Heap) :
    Heap × Except Fault Val :=
  match collect (entryOf f) rows h with
  | (h, .error e) => (h, .error e)
  | (h, .ok rows) => alloc (.dict (dictOf rows)) h

/-- `_redact_value`, at most `n` calls deep. -/
def redactValue (redactors : List (Text → Text)) : ℕ → Val → Heap → Heap × Except Fault Val
  | 0, _, h => (h, .error .recursionError)
  | _ + 1, .scalar (.str t), h => (h, .ok (.scalar (.str (redact redactors t))))
  | _ + 1, .scalar s, h => (h, .ok (.scalar s))
  | n + 1, .ref r, h =>
      match h[r]? with
      | some (.dict fields) => dictFrom (redactValue redactors n) fields.rows h
      | some (.list items) => listOf (redactValue redactors n) items h
      | some (.tuple items) => listOf (redactValue redactors n) items h
      -- There is no such object.
      | none => (h, .error .refused)

structure AuditConfig where
  privacy : Privacy
  includeQueryHash : Bool

structure AuditHost where
  classes : CharClasses
  compile : Text → Option (Text → Text)
  hashQuery : Text → Text
  timestamp : Text
  /-- How deep `_redact_value` and `json.dumps` go. -/
  redactDepth : ℕ
  dumpsDepth : ℕ

def key (name : String) : Scalar := .str name.toList

/-- `_AUDIT_SKIP_KEYS` -/
def auditSkipKeys : List Scalar := [key "query_hash", key "timestamp", key "event"]

/-- What the dictionary at a reference holds. -/
def fieldsAt (h : Heap) (r : ℕ) : Dict :=
  match h[r]? with
  | some (.dict fields) => fields
  | _ => Table.empty

/-- `record[key] = v`. -/
def setItem (r : ℕ) (key : Scalar) (v : Val) (h : Heap) : Heap := h.set r (.dict ((fieldsAt h r).upsert (key, v)))

/-- `record.pop(key)`. -/
def popItem (r : ℕ) (key : Scalar) (h : Heap) : Heap := h.set r (.dict ((fieldsAt h r).delete fun p => p.1 = key))

variable (cfg : AuditConfig) (host : AuditHost)

/-- The query of the record gives way to its hash, which only a text has. -/
def hashedQuery (r : ℕ) (h : Heap) : Heap × Except Fault Unit :=
  match (fieldsAt h r).find? (key "query") with
  | some (_, v) =>
      if cfg.includeQueryHash then
        match v with
        | .scalar (.str raw) =>
            (setItem r (key "query_hash") (.scalar (.str (host.hashQuery raw))) (popItem r (key "query") h), .ok ())
        | _ => (popItem r (key "query") h, .error .refused)
      else (h, .ok ())
  | none => (h, .ok ())

/-- The loop over the items of the record. -/
def redactItems (redactors : List (Text → Text)) (r : ℕ) : List (Scalar × Val) → Heap → Heap × Except Fault Unit
  | [], h => (h, .ok ())
  | (key, v) :: items, h =>
      if key ∈ auditSkipKeys then redactItems redactors r items h
      else
        match redactValue redactors host.redactDepth v h with
        | (h, .error e) => (h, .error e)
        | (h, .ok v) => redactItems redactors r items (setItem r key v h)

/-- The record of an event, built on a copy of it. -/
def buildRecord (event : ℕ) (h : Heap) : Heap × Except Fault Tree :=
  match h[event]? with
  | some (.dict fields) =>
      let r := h.length
      match hashedQuery cfg host r (h ++ [.dict fields]) with
      | (h, .error e) => (h, .error e)
      | (h, .ok ()) =>
          match redactItems host (compiledRedactors host.classes host.compile cfg.privacy) r (fieldsAt h r).rows h with
          | (h, .error e) => (h, .error e)
          | (h, .ok ()) =>
              let h := setItem r (key "timestamp") (.scalar (.str host.timestamp)) h
              (h, dumps host.dumpsDepth h (.ref r))
  | _ => (h, .error .refused)

inductive Outcome where
  /-- The record goes to the audit log. -/
  | logged (record : Tree)
  /-- A warning is all there is. -/
  | dropped
  | raised

/-- `audit_log`. -/
def auditLog (event : ℕ) (h : Heap) : Heap × Outcome :=
  match buildRecord cfg host event h with
  | (h, .ok record) => (h, .logged record)
  | (h, .error .refused) => (h, .dropped)
  | (h, .error .recursionError) => (h, .raised)

/-! ### What the patterns read -/

variable {u : CharClasses} {l m : Language Char} {c : Char}

/-- Every text of the language has the character. -/
def Holds (c : Char) (l : Language Char) : Prop := ∀ y ∈ l, c ∈ y

theorem holds_cls (c : Char) : Holds c (Re.cls (· == c)).lang := by
  rintro _ ⟨d, hd, rfl⟩
  rw [eq_of_beq hd]
  exact List.mem_singleton_self c

theorem Holds.mul_left (h : Holds c l) : Holds c (l * m) := by
  rintro _ ⟨x, hx, y, -, rfl⟩
  exact List.mem_append_left y (h x hx)

theorem Holds.mul_right (h : Holds c m) : Holds c (l * m) := by
  rintro _ ⟨x, -, y, hy, rfl⟩
  exact List.mem_append_right x (h y hy)

/-- No class reads a bracket, and what is put in lacks a character that every text has. -/
theorem fenced_lang {r : Re} {mid : Text} (hclasses : ∀ p ∈ r.classes, p '[' = false ∧ p ']' = false)
    (hholds : Holds c r.lang) (hmid : c ∉ mid) : Fenced r.lang '[' ']' mid := by
  refine ⟨fun y hy hmem => ?_, fun y hy hmem => ?_, fun y hy hmiddle => hmid (hmiddle.subset (hholds y hy))⟩
  · obtain ⟨p, hp, htrue⟩ := exists_class_of_mem_lang hy hmem
    rw [(hclasses p hp).1] at htrue
    cases htrue
  · obtain ⟨p, hp, htrue⟩ := exists_class_of_mem_lang hy hmem
    rw [(hclasses p hp).2] at htrue
    cases htrue

theorem email_classes : ∀ p ∈ emailPattern.classes, p '[' = false ∧ p ']' = false := by
  simp only [emailPattern, Re.plus, Re.classes, List.cons_append, List.nil_append, List.forall_mem_cons,
    List.not_mem_nil, false_imp_iff, implies_true, and_true]
  decide

theorem email_holds : Holds '@' emailPattern.lang := (holds_cls '@').mul_left.mul_right

theorem email_reads : ReadsBetween u.isWord emailPattern emailPattern.lang False := by
  refine readsBetween_lang (by decide) fun y hy hnil => ?_
  have hat := email_holds y hy
  rw [hnil] at hat
  cases hat

theorem quad_classes : ∀ p ∈ (quad u).classes, p = u.isDigit ∨ p = (· == '.') := by
  simp only [quad, octet, Re.classes, List.cons_append, List.nil_append, List.append_nil,
    List.forall_mem_cons, List.not_mem_nil, false_imp_iff, implies_true, and_true]
  simp

theorem quad_unfenced : ∀ p ∈ (quad u).classes, p '[' = false ∧ p ']' = false := by
  intro p hp
  rcases quad_classes p hp with rfl | rfl
  · rw [u.ascii_digit _ (by decide), u.ascii_digit _ (by decide)]
    decide
  · decide

theorem quad_holds : Holds '.' (quad u).lang := (holds_cls '.').mul_left.mul_right

/-- An octet begins and ends in a digit. -/
theorem octet_startsIn : StartsIn (u.isDigit · = true) (octet u).lang := by
  refine StartsIn.mul ?_
  rintro _ ⟨d, hd, rfl⟩
  exact ⟨d, [], rfl, hd⟩

theorem octet_endsIn : EndsIn (u.isDigit · = true) (octet u).lang := by
  have hdigit : EndsIn (u.isDigit · = true) (Re.cls u.isDigit).lang := by
    rintro _ ⟨d, hd, rfl⟩
    exact ⟨[], d, rfl, hd⟩
  -- What may be left out leaves the digit before it.
  have hopt : ∀ r : Re, EndsIn (u.isDigit · = true) r.lang →
      EndsIn (u.isDigit · = true) (Re.seq (.cls u.isDigit) (.alt r .eps)).lang := by
    rintro r hr _ ⟨x, hx, y, hy | hy, rfl⟩
    · obtain ⟨z, d, rfl, hd⟩ := hr y hy
      exact ⟨x ++ z, d, by simp, hd⟩
    · obtain rfl := Language.mem_one y |>.mp hy
      obtain ⟨z, d, rfl, hd⟩ := hdigit x hx
      exact ⟨z, d, by simp, hd⟩
  exact hopt _ (hopt _ hdigit)

theorem quad_word : ∀ y ∈ (quad u).lang, y.head?.any u.isWord = true ∧ y.getLast?.any u.isWord = true := by
  intro y hy
  have hstarts : StartsIn (u.isDigit · = true) (quad u).lang := octet_startsIn.mul
  have hends : EndsIn (u.isDigit · = true) (quad u).lang := octet_endsIn.mul.mul.mul.mul.mul.mul
  obtain ⟨a, x, hax, ha⟩ := hstarts y hy
  obtain ⟨z, d, hzd, hd⟩ := hends y hy
  refine ⟨?_, ?_⟩
  · rw [hax]
    exact u.digit_word a ha
  · rw [hzd, List.getLast?_append]
    exact u.digit_word d hd

theorem ip_reads : ReadsBetween u.isWord (ipPattern u) (quad u).lang True :=
  readsBetween_wholeWord rfl quad_word

/-! ### Redacted texts -/

/-- Neither pattern is in the text. -/
def Clear (u : CharClasses) (t : Text) : Prop :=
  hits u.isWord emailPattern t = false ∧ hits u.isWord (ipPattern u) t = false

def addressesOnly : Privacy := ⟨true, true, []⟩

theorem redact_addresses (compile : Text → Option (Text → Text)) (t : Text) :
    redact (compiledRedactors u compile addressesOnly) t =
      sub u.isWord (ipPattern u) redactedIp (sub u.isWord emailPattern redactedEmail t) := rfl

/-- **What is redacted is clear of both patterns.** -/
theorem redact_clear (compile : Text → Option (Text → Text)) (t : Text) :
    Clear u (redact (compiledRedactors u compile addressesOnly) t) := by
  rw [redact_addresses]
  have hemail : hits u.isWord emailPattern (sub u.isWord emailPattern redactedEmail t) = false :=
    not_hits_sub email_reads (fenced_lang email_classes email_holds (by decide)) t
  refine ⟨?_, ?_⟩
  · have hfenced : Fenced emailPattern.lang '[' ']' "REDACTED_IP".toList :=
      fenced_lang email_classes email_holds (by decide)
    refine not_hits_sub_of_not_hits (fun b a h => ?_) email_reads hfenced hemail
    exact ip_reads.nonempty [] (ip_reads.occurs.mp h).1 rfl
  · exact not_hits_sub ip_reads (fenced_lang quad_unfenced quad_holds (by decide)) _

theorem redact_of_clear (compile : Text → Option (Text → Text)) {t : Text} (h : Clear u t) :
    redact (compiledRedactors u compile addressesOnly) t = t := by
  rw [redact_addresses, sub_of_not_hits h.1, sub_of_not_hits h.2]

/-! ### A redacted copy -/

section Copy

variable {redactors : List (Text → Text)} {h h' h₀ : Heap} {n k r : ℕ} {v : Val} {t : Tree}

theorem listOf_prefix {f : Val → Heap → Heap × Except Fault Val} (hf : ∀ v h, h <+: (f v h).1) (items : List Val)
    (h : Heap) : h <+: (listOf f items h).1 := by
  have hpre := collect_prefix hf items h
  rw [listOf]
  split
  · rename_i hcollect
    rwa [hcollect] at hpre
  · rename_i hcollect
    rw [hcollect] at hpre
    exact hpre.trans (List.prefix_append _ _)

theorem dictFrom_prefix {f : Val → Heap → Heap × Except Fault Val} (hf : ∀ v h, h <+: (f v h).1)
    (rows : List (Scalar × Val)) (h : Heap) : h <+: (dictFrom f rows h).1 := by
  have hpre := collect_prefix (f := entryOf f) (fun p h => hf p.2 h) rows h
  rw [dictFrom]
  split
  · rename_i hcollect
    rwa [hcollect] at hpre
  · rename_i hcollect
    rw [hcollect] at hpre
    exact hpre.trans (List.prefix_append _ _)

theorem redactValue_prefix (redactors : List (Text → Text)) (n : ℕ) (v : Val) (h : Heap) :
    h <+: (redactValue redactors n v h).1 := by
  induction n generalizing v h with
  | zero => exact List.prefix_refl h
  | succ n ih =>
    cases v with
    | scalar s => cases s <;> exact List.prefix_refl h
    | ref r =>
      rw [redactValue]
      cases hr : h[r]? with
      | none => exact List.prefix_refl h
      | some o =>
        cases o with
        | dict fields => exact dictFrom_prefix ih fields.rows h
        | list items => exact listOf_prefix ih items h
        | tuple items => exact listOf_prefix ih items h

/-- The calls were nested more deeply than they can be. -/
def TooDeep (n k : ℕ) (e : Fault) : Prop := e = .recursionError ∧ n < k

theorem TooDeep.succ {e : Fault} (h : TooDeep n k e) : TooDeep (n + 1) (k + 1) e := ⟨h.1, Nat.succ_lt_succ h.2⟩

/-- How the copy of a value comes out: made anew, with every string redacted. -/
def Copies (redactors : List (Text → Text)) (n k : ℕ) (h : Heap) (result : Heap × Except Fault Val) (t : Tree) : Prop :=
  (∃ e, result.2 = .error e ∧ TooDeep n k e) ∨ ∃ h' v', result = (h', .ok v') ∧ h <+: h' ∧
    Made (read k) h h' v' (t.mapStrings (redact redactors))

theorem copies_listOf {items : List Val} {ts : List Tree}
    (ih : ∀ {k : ℕ} {h : Heap} {v : Val} {t : Tree}, read k h v = some t →
      Copies redactors n k h (redactValue redactors n v h) t)
    (hitems : List.Forall₂ (fun v t => read k h v = some t) items ts) :
    Copies redactors (n + 1) (k + 1) h (listOf (redactValue redactors n) items h) (.list ts) := by
  rcases collect_cases (PyHeap.read k) read_extend ih hitems with
    ⟨e, herror, hdeep⟩ | ⟨h', items', hok, hpre, hmade⟩
  · refine Or.inl ⟨e, ?_, hdeep.succ⟩
    rw [listOf]
    rcases hcollect : collect (redactValue redactors n) items h with ⟨h', result⟩
    rw [hcollect] at herror
    obtain rfl : result = .error e := herror
    rfl
  · refine Or.inr ⟨h' ++ [.list items'], .ref h'.length, ?_, hpre.trans (List.prefix_append _ _), made_list hpre ?_⟩
    · rw [listOf, hok]
      rfl
    · rw [mapItems_eq, List.forall₂_map_right_iff]
      exact hmade

theorem copies_dictFrom {fields : Dict} {ts : List (Scalar × Tree)}
    (ih : ∀ {k : ℕ} {h : Heap} {v : Val} {t : Tree}, read k h v = some t →
      Copies redactors n k h (redactValue redactors n v h) t)
    (hrows : List.Forall₂ (fun p q => readRow k h p = some q) fields.rows ts) :
    Copies redactors (n + 1) (k + 1) h (dictFrom (redactValue redactors n) fields.rows h) (.dict ts) := by
  have hstep : ∀ {h : Heap} {p : Scalar × Val} {q : Scalar × Tree}, readRow k h p = some q →
      (∃ e, (entryOf (redactValue redactors n) p h).2 = .error e ∧ TooDeep n k e) ∨
      ∃ h' p', entryOf (redactValue redactors n) p h = (h', .ok p') ∧ h <+: h' ∧
        Made (readRow k) h h' p' (q.1, q.2.mapStrings (redact redactors)) := by
    intro h p q hp
    obtain ⟨hkey, hread⟩ := readRow_eq.mp hp
    rcases ih hread with ⟨e, herror, hdeep⟩ | ⟨h', v', hok, hpre, hmade⟩
    · refine Or.inl ⟨e, ?_, hdeep⟩
      rw [entryOf, herror]
      rfl
    · refine Or.inr ⟨h', (p.1, v'), ?_, hpre, fun g hg => readRow_eq.mpr ⟨hkey, hmade g hg⟩⟩
      rw [entryOf, hok]
      rfl
  have hextend : ∀ {h h' : Heap} {p : Scalar × Val} {q : Scalar × Tree}, h <+: h' → readRow k h p = some q →
      readRow k h' p = some q := by
    intro h h' p q hpre hp
    obtain ⟨hkey, hread⟩ := readRow_eq.mp hp
    exact readRow_eq.mpr ⟨hkey, read_extend hpre hread⟩
  rcases collect_cases (readRow k) hextend hstep hrows with ⟨e, herror, hdeep⟩ | ⟨h', rows', hok, hpre, hmade⟩
  · refine Or.inl ⟨e, ?_, hdeep.succ⟩
    rw [dictFrom]
    rcases hcollect : collect (entryOf (redactValue redactors n)) fields.rows h with ⟨h', result⟩
    rw [hcollect] at herror
    obtain rfl : result = .error e := herror
    rfl
  · have hkeys : (rows'.map Prod.fst).Nodup := by
      have hnew : ts.map Prod.fst = rows'.map Prod.fst := by
        refine map_fst_of_forall₂ (fun p q hpq => ?_) hmade
        have hread := readRow_eq.mp (hpq h' fun i _ _ => rfl)
        exact hread.1
      have hold : ts.map Prod.fst = fields.rows.map Prod.fst := by
        refine map_fst_of_forall₂ (fun p q hpq => ?_) hrows
        have hread := readRow_eq.mp hpq
        exact hread.1
      rw [← hnew, hold]
      exact fields.unique
    refine Or.inr ⟨h' ++ [.dict (dictOf rows')], .ref h'.length, ?_, hpre.trans (List.prefix_append _ _),
      made_dict hkeys hpre ?_⟩
    · rw [dictFrom, hok]
      rfl
    · rw [mapFields_eq, List.forall₂_map_right_iff]
      exact hmade

/-- **A value is copied with its strings redacted**, unless it goes down too deep. -/
theorem redactValue_copies (redactors : List (Text → Text)) (n : ℕ) (hread : PyHeap.read k h v = some t) :
    Copies redactors n k h (redactValue redactors n v h) t := by
  induction n generalizing k h v t with
  | zero =>
    refine Or.inl ⟨.recursionError, rfl, rfl, Nat.pos_of_ne_zero ?_⟩
    rintro rfl
    cases hread
  | succ n ih =>
    cases k with
    | zero => cases hread
    | succ k =>
      cases v with
      | scalar s =>
        obtain rfl : Tree.scalar s = t := Option.some.inj hread
        cases s <;> exact Or.inr ⟨h, _, rfl, List.prefix_refl h, fun g _ => rfl⟩
      | ref r =>
        rw [redactValue]
        cases hr : h[r]? with
        | none =>
          rw [PyHeap.read, hr] at hread
          cases hread
        | some o =>
          cases o with
          | dict fields =>
            obtain ⟨ts, hts, rfl⟩ := (read_dict hr).mp hread
            exact copies_dictFrom ih (hts.imp fun p q hpq => readRow_eq.mpr hpq)
          | list items =>
            obtain ⟨ts, hts, rfl⟩ := (read_list hr).mp hread
            exact copies_listOf ih hts
          | tuple items =>
            obtain ⟨ts, hts, rfl⟩ := (read_tuple hr).mp hread
            exact copies_listOf ih hts

end Copy

/-! ### A redacted record -/

/-- An event as the caller holds it, and what it comes to. -/
structure Event where
  heap : Heap
  ref : ℕ
  fields : Entries Tree
  depth : ℕ
  reads : PyHeap.read depth heap (.ref ref) = some (.dict fields.rows)

/-- The entries with the query hashed. -/
def hashedFields (fields : Entries Tree) : Entries Tree :=
  match fields.find? (key "query") with
  | some (_, .scalar (.str raw)) =>
      if cfg.includeQueryHash then
        (fields.delete fun q => q.1 = key "query").upsert (key "query_hash", .scalar (.str (host.hashQuery raw)))
      else fields
  | _ => fields

/-- An entry with its value redacted, if it is not structural. -/
def redactEntry (redactors : List (Text → Text)) (q : Scalar × Tree) : Scalar × Tree :=
  (q.1, if q.1 ∈ auditSkipKeys then q.2 else q.2.mapStrings (redact redactors))

def redactEntries (redactors : List (Text → Text)) (fields : Entries Tree) : Entries Tree :=
  fields.update (fun _ => true) (redactEntry redactors) fun _ => rfl

/-- The record that an event comes to. -/
def recordOf (fields : Entries Tree) : Entries Tree :=
  (redactEntries (compiledRedactors host.classes host.compile cfg.privacy) (hashedFields cfg host fields)).upsert
    (key "timestamp", .scalar (.str host.timestamp))

/-- The query is to be hashed and is no text. -/
def Unhashable (fields : Entries Tree) : Prop :=
  cfg.includeQueryHash = true ∧ ∃ q, fields.find? (key "query") = some q ∧ ∀ raw, q.2 ≠ .scalar (.str raw)

section Record

variable {cfg : AuditConfig} {host : AuditHost} {redactors : List (Text → Text)} {h h' h₀ : Heap} {k r : ℕ}
  {fields : Dict} {trees : Entries Tree}

theorem fieldsAt_eq (hr : h[r]? = some (.dict fields)) : fieldsAt h r = fields := by rw [fieldsAt, hr]

theorem getElem?_setItem (hr : h[r]? = some (.dict fields)) (key : Scalar) (v : Val) :
    (setItem r key v h)[r]? = some (.dict (fields.upsert (key, v))) := by
  rw [setItem, fieldsAt_eq hr, List.getElem?_set_self (List.getElem?_eq_some_iff.mp hr).1]

theorem getElem?_popItem (hr : h[r]? = some (.dict fields)) (key : Scalar) :
    (popItem r key h)[r]? = some (.dict (fields.delete fun p => p.1 = key)) := by
  rw [popItem, fieldsAt_eq hr, List.getElem?_set_self (List.getElem?_eq_some_iff.mp hr).1]

theorem hashedQuery_frame (cfg : AuditConfig) (host : AuditHost) (r : ℕ) (h : Heap) :
    Frame r h (hashedQuery cfg host r h).1 := by
  have hsame : Frame r h h := .of_le (List.prefix_refl h)
  have hpop : Frame r h (popItem r (key "query") h) := .set r h _
  rw [hashedQuery]
  split
  · split
    · split
      · exact hpop.trans (.set r _ _)
      · exact hpop
    · exact hsame
  · exact hsame

theorem redactItems_frame (host : AuditHost) (redactors : List (Text → Text)) (r : ℕ) (items : List (Scalar × Val))
    (h : Heap) : Frame r h (redactItems host redactors r items h).1 := by
  induction items generalizing h with
  | nil => exact .of_le (List.prefix_refl h)
  | cons item items ih =>
    obtain ⟨key, v⟩ := item
    rw [redactItems]
    split
    · exact ih h
    · have hpre := redactValue_prefix redactors host.redactDepth v h
      rcases hvalue : redactValue redactors host.redactDepth v h with ⟨h', result⟩
      rw [hvalue] at hpre
      cases result with
      | error e => exact .of_le hpre
      | ok v' => exact (Frame.of_le hpre).trans ((Frame.set r h' _).trans (ih _))

/-- **The loop leaves every entry in its place, redacted**, whatever becomes of the heap around the record. -/
theorem redactItems_cases (host : AuditHost) (redactors : List (Text → Text)) {done items : List (Scalar × Val)} {ts : List (Scalar × Tree)}
    (hr : h[r]? = some (.dict fields)) (hrows : fields.rows = done ++ items) (hpre : h₀ <+: h) (hlen : h₀.length ≤ r)
    (hitems : List.Forall₂ (fun p q => readRow k h₀ p = some q) items ts) :
    (∃ e, (redactItems host redactors r items h).2 = .error e ∧ TooDeep host.redactDepth k e) ∨
    ∃ h' fields' items', redactItems host redactors r items h = (h', .ok ()) ∧ h'[r]? = some (.dict fields') ∧
      fields'.rows = done ++ items' ∧ ∀ g, Frame r h' g →
        List.Forall₂ (fun p q => readRow k g p = some (redactEntry redactors q)) items' ts := by
  induction items generalizing h fields done ts with
  | nil =>
    rw [List.forall₂_nil_left_iff] at hitems
    subst hitems
    exact Or.inr ⟨h, fields, [], rfl, hr, hrows, fun g _ => .nil⟩
  | cons item items ih =>
    obtain ⟨key, v⟩ := item
    obtain ⟨⟨key', t⟩, ts, hitem, hrest, rfl⟩ := List.forall₂_cons_left_iff.mp hitems
    obtain ⟨hkey, hread⟩ := readRow_eq.mp hitem
    obtain rfl : key' = key := hkey
    rw [redactItems]
    by_cases hskip : key' ∈ auditSkipKeys
    · rw [if_pos hskip]
      have hrows' : fields.rows = (done ++ [(key', v)]) ++ items := by rw [hrows, List.append_assoc]; rfl
      rcases ih hr hrows' hpre hrest with hdeep | ⟨h', fields', items', hok, hr', hrows'', hread'⟩
      · exact Or.inl hdeep
      · refine Or.inr ⟨h', fields', (key', v) :: items', hok, hr', by rw [hrows'', List.append_assoc]; rfl, ?_⟩
        intro g hg
        refine .cons (readRow_eq.mpr ⟨rfl, ?_⟩) (hread' g hg)
        have hframe := redactItems_frame host redactors r items h
        rw [hok] at hframe
        rw [redactEntry, if_pos hskip]
        exact read_extend ((hframe.trans hg).keeps hpre hlen) hread
    · rw [if_neg hskip]
      rcases redactValue_copies redactors host.redactDepth (read_extend hpre hread) with
        ⟨e, herror, hdeep⟩ | ⟨h₁, v', hok, hpre₁, hmade⟩
      · refine Or.inl ⟨e, ?_, hdeep⟩
        rcases hvalue : redactValue redactors host.redactDepth v h with ⟨h₁, result⟩
        rw [hvalue] at herror
        obtain rfl : result = .error e := herror
        rfl
      · rw [hok]
        dsimp only
        have hrlt := (List.getElem?_eq_some_iff.mp hr).1
        have hr₁ : h₁[r]? = some (.dict fields) := by rw [getElem?_of_le hpre₁ hrlt, hr]
        have hset : Frame r h₁ (setItem r key' v' h₁) := .set r h₁ _
        have hrows' : (fields.upsert (key', v')).rows = (done ++ [(key', v')]) ++ items := by
          rw [upsert_present hrows, List.append_assoc]
          rfl
        rcases ih (getElem?_setItem hr₁ key' v') hrows' (hset.keeps (hpre.trans hpre₁) hlen) hrest with
          hdeep | ⟨h', fields', items', hok', hr', hrows'', hread'⟩
        · exact Or.inl hdeep
        · refine Or.inr ⟨h', fields', (key', v') :: items', hok', hr', by rw [hrows'', List.append_assoc]; rfl, ?_⟩
          intro g hg
          refine .cons (readRow_eq.mpr ⟨rfl, ?_⟩) (hread' g hg)
          have hframe := redactItems_frame host redactors r items (setItem r key' v' h₁)
          rw [hok'] at hframe
          rw [redactEntry, if_neg hskip]
          exact hmade.framed hrlt ((hset.trans hframe).trans hg)

/-- Two entries that agree, the second read of the first. -/
def Reads (k : ℕ) (h : Heap) (p : Scalar × Val) (q : Scalar × Tree) : Prop := readRow k h p = some q

theorem Reads.key (p : Scalar × Val) (q : Scalar × Tree) (hread : Reads k h p q) : q.1 = p.1 :=
  (readRow_eq.mp hread).1

theorem reads_scalar (k : ℕ) (h : Heap) (key s : Scalar) : Reads (k + 1) h (key, .scalar s) (key, .scalar s) := rfl

/-- The query is hashed, or is no text where it should be. -/
theorem hashedQuery_cases (cfg : AuditConfig) (host : AuditHost) (hr : h[r]? = some (.dict fields))
    (hpairs : List.Forall₂ (Reads (k + 1) h₀) fields.rows trees.rows) :
    ((hashedQuery cfg host r h).2 = .error .refused ∧ Unhashable cfg trees) ∨
    ¬ Unhashable cfg trees ∧ ∃ h' fields', hashedQuery cfg host r h = (h', .ok ()) ∧ h'[r]? = some (.dict fields') ∧
      List.Forall₂ (Reads (k + 1) h₀) fields'.rows (hashedFields cfg host trees).rows := by
  rw [hashedQuery, fieldsAt_eq hr, hashedFields]
  rcases forall₂_find? Reads.key hpairs (key "query") with ⟨hnone, hnone'⟩ | ⟨p, q, hp, hq, hread⟩
  · rw [hnone, hnone']
    refine Or.inr ⟨?_, h, fields, rfl, hr, hpairs⟩
    rintro ⟨-, q, hq, -⟩
    rw [hnone'] at hq
    cases hq
  · obtain ⟨key', v⟩ := p
    obtain ⟨key'', t⟩ := q
    have hvalue : PyHeap.read (k + 1) h₀ v = some t := (readRow_eq.mp hread).2
    rw [hp, hq]
    dsimp only
    cases hhash : cfg.includeQueryHash with
    | false =>
      refine Or.inr ⟨?_, h, fields, rfl, hr, ?_⟩
      · rintro ⟨htrue, -⟩
        rw [hhash] at htrue
        cases htrue
      split
      · exact hpairs
      · exact hpairs
    | true =>
      rw [if_pos rfl]
      by_cases htext : ∃ raw, t = .scalar (.str raw)
      · obtain ⟨raw, rfl⟩ := htext
        obtain rfl := eq_of_read_scalar hvalue
        refine Or.inr ⟨?_, _, _, rfl, getElem?_setItem (getElem?_popItem hr _) _ _, ?_⟩
        · rintro ⟨-, q, hq', hnot⟩
          rw [hq] at hq'
          exact hnot raw (congrArg Prod.snd (Option.some.inj hq')).symm
        dsimp only
        rw [if_pos rfl]
        have hrest := forall₂_delete Reads.key hpairs fun k => k = key "query"
        exact forall₂_upsert Reads.key hrest (reads_scalar k h₀ _ _)
      · refine Or.inl ⟨?_, hhash, (key'', t), hq, fun raw hraw => htext ⟨raw, hraw⟩⟩
        split
        · exact absurd ⟨_, (Option.some.inj hvalue).symm⟩ htext
        · rfl

theorem Event.dict (event : Event) : ∃ k fields, event.depth = k + 1 ∧
    event.heap[event.ref]? = some (.dict fields) ∧
    List.Forall₂ (Reads (k + 1) event.heap) fields.rows event.fields.rows := by
  have hreads := event.reads
  cases hdepth : event.depth with
  | zero =>
    rw [hdepth] at hreads
    cases hreads
  | succ k =>
    rw [hdepth] at hreads
    cases hr : event.heap[event.ref]? with
    | none =>
      rw [PyHeap.read, hr] at hreads
      cases hreads
    | some o =>
      cases o with
      | dict fields =>
        obtain ⟨ts, hts, heq⟩ := (read_dict hr).mp hreads
        obtain rfl := Tree.dict.inj heq
        refine ⟨k, fields, rfl, rfl, hts.imp fun p q hpq => ?_⟩
        exact readRow_eq.mpr ⟨hpq.1, read_succ hpq.2⟩
      | list items =>
        obtain ⟨ts, -, heq⟩ := (read_list hr).mp hreads
        cases heq
      | tuple items =>
        obtain ⟨ts, -, heq⟩ := (read_tuple hr).mp hreads
        cases heq

/-- Why an event leaves no record. -/
inductive Unrecorded (cfg : AuditConfig) (host : AuditHost) (event : Event) : Fault → Prop
  | query (hquery : Unhashable cfg event.fields) : Unrecorded cfg host event .refused
  | unwritable (hwritable : (Tree.dict (recordOf cfg host event.fields).rows).writable = false) :
      Unrecorded cfg host event .refused
  | redactDepth (hdepth : host.redactDepth < event.depth) : Unrecorded cfg host event .recursionError
  | dumpsDepth (hdepth : host.dumpsDepth ≤ event.depth) : Unrecorded cfg host event .recursionError

theorem buildRecord_prefix (cfg : AuditConfig) (host : AuditHost) (e : ℕ) (h : Heap) :
    h <+: (buildRecord cfg host e h).1 := by
  rw [buildRecord]
  split
  · rename_i fields _
    have hcopy : h <+: h ++ [.dict fields] := List.prefix_append _ _
    have hquery := (hashedQuery_frame cfg host h.length (h ++ [.dict fields])).keeps hcopy (Nat.le_refl _)
    dsimp only
    rcases hhashed : hashedQuery cfg host h.length (h ++ [.dict fields]) with ⟨h₁, result⟩
    rw [hhashed] at hquery ⊢
    cases result with
    | error e => exact hquery
    | ok _ =>
      have hitems := (redactItems_frame host (compiledRedactors host.classes host.compile cfg.privacy) h.length
        (fieldsAt h₁ h.length).rows h₁).keeps hquery (Nat.le_refl _)
      dsimp only
      rcases hloop : redactItems host (compiledRedactors host.classes host.compile cfg.privacy) h.length
        (fieldsAt h₁ h.length).rows h₁ with ⟨h₂, result⟩
      rw [hloop] at hitems
      cases result with
      | error e => exact hitems
      | ok _ => exact (Frame.set h.length h₂ _).keeps hitems (Nat.le_refl _)
  · exact List.prefix_refl h

/-- The record as it can be read, once its timestamp is set. -/
theorem read_record {fields' : Dict} {items : List (Scalar × Val)} (hr : h'[r]? = some (.dict fields'))
    (hrows : fields'.rows = items) (hreads : ∀ g, Frame r h' g →
      List.Forall₂ (fun p q => readRow (k + 1) g p = some (redactEntry redactors q)) items trees.rows) (stamp : Text) :
    PyHeap.read (k + 2) (setItem r (key "timestamp") (.scalar (.str stamp)) h') (.ref r) =
      some (.dict ((redactEntries redactors trees).upsert (key "timestamp", .scalar (.str stamp))).rows) := by
  have hpairs : List.Forall₂ (Reads (k + 1) (setItem r (key "timestamp") (.scalar (.str stamp)) h')) fields'.rows
      (redactEntries redactors trees).rows := by
    rw [hrows]
    have hentries := hreads (setItem r (key "timestamp") (.scalar (.str stamp)) h') (.set r h' _)
    exact List.forall₂_map_right_iff.mpr (hentries.imp fun p q hpq => hpq)
  refine (read_dict (getElem?_setItem hr _ _)).mpr ⟨_, ?_, rfl⟩
  refine (forall₂_upsert Reads.key hpairs (reads_scalar k _ _ _)).imp fun p q hpq => ?_
  exact readRow_eq.mp hpq

/-- **The record is what the event comes to**, or there is a reason why there is none. -/
theorem buildRecord_cases (cfg : AuditConfig) (host : AuditHost) (event : Event) :
    (∃ e, (buildRecord cfg host event.ref event.heap).2 = .error e ∧ Unrecorded cfg host event e) ∨
      ¬ Unhashable cfg event.fields ∧
        (buildRecord cfg host event.ref event.heap).2 = .ok (.dict (recordOf cfg host event.fields).rows) := by
  obtain ⟨k, fields, hdepth, hr, hpairs⟩ := event.dict
  rw [buildRecord, hr]
  dsimp only
  rcases hashedQuery_cases cfg host (getElem?_alloc event.heap (.dict fields)) hpairs with
    ⟨herror, hunhashable⟩ | ⟨hhashable, h₁, fields₁, hok, hr₁, hpairs₁⟩
  · refine Or.inl ⟨.refused, ?_, .query hunhashable⟩
    rcases hhashed : hashedQuery cfg host event.heap.length (event.heap ++ [.dict fields]) with ⟨h₁, result⟩
    rw [hhashed] at herror ⊢
    obtain rfl : result = .error .refused := herror
    rfl
  · have hframe := hashedQuery_frame cfg host event.heap.length (event.heap ++ [.dict fields])
    rw [hok] at hframe ⊢
    have hpre := hframe.keeps (List.prefix_append event.heap _) (Nat.le_refl _)
    dsimp only
    rw [fieldsAt_eq hr₁]
    have hall : fields₁.rows = [] ++ fields₁.rows := rfl
    rcases redactItems_cases host (compiledRedactors host.classes host.compile cfg.privacy) hr₁ hall hpre
        (Nat.le_refl _) hpairs₁ with
      ⟨e, herror, rfl, hdeep⟩ | ⟨h₂, fields₂, items, hok₂, hr₂, hrows₂, hreads₂⟩
    · refine Or.inl ⟨.recursionError, ?_, .redactDepth (by rw [hdepth]; exact hdeep)⟩
      rcases hloop : redactItems host (compiledRedactors host.classes host.compile cfg.privacy) event.heap.length
        fields₁.rows h₁ with ⟨h₂, result⟩
      rw [hloop] at herror
      obtain rfl : result = .error .recursionError := herror
      rfl
    · rw [hok₂]
      dsimp only
      have hread := read_record hr₂ hrows₂ hreads₂ host.timestamp
      rw [dumps]
      cases hdumps : PyHeap.read host.dumpsDepth
          (setItem event.heap.length (key "timestamp") (.scalar (.str host.timestamp)) h₂) (.ref event.heap.length) with
      | none =>
        refine Or.inl ⟨.recursionError, rfl, .dumpsDepth (Nat.le_of_not_lt fun hlt => ?_)⟩
        have hdeep := read_le (show k + 2 ≤ host.dumpsDepth by omega) hread
        rw [hdumps] at hdeep
        cases hdeep
      | some t =>
        obtain rfl : t = .dict (recordOf cfg host event.fields).rows := read_unique hdumps hread
        dsimp only
        by_cases hwritable : (Tree.dict (recordOf cfg host event.fields).rows).writable = true
        · exact Or.inr ⟨hhashable, if_pos hwritable⟩
        · exact Or.inl ⟨.refused, if_neg hwritable, .unwritable (Bool.eq_false_iff.mpr hwritable)⟩

theorem redactEntries_rows (redactors : List (Text → Text)) (trees : Entries Tree) :
    (redactEntries redactors trees).rows = trees.rows.map (redactEntry redactors) := rfl

theorem timestamp_mem : key "timestamp" ∈ auditSkipKeys := by decide +kernel

theorem query_hash_mem : key "query_hash" ∈ auditSkipKeys := by decide +kernel

theorem key_ne : key "query_hash" ≠ key "query" ∧ key "timestamp" ≠ key "query" ∧
    key "timestamp" ≠ key "query_hash" := by
  decide +kernel

/-- An entry of a record is structural, or a redacted one. -/
theorem mem_recordOf {q : Scalar × Tree} (hq : q ∈ (recordOf cfg host trees).rows) : q.1 ∈ auditSkipKeys ∨
    ∃ t : Tree, q.2 = t.mapStrings (redact (compiledRedactors host.classes host.compile cfg.privacy)) := by
  rcases Table.mem_upsert hq with rfl | hq
  · exact Or.inl timestamp_mem
  · rw [redactEntries_rows] at hq
    obtain ⟨q, -, rfl⟩ := List.mem_map.mp hq
    by_cases hskip : q.1 ∈ auditSkipKeys
    · exact Or.inl hskip
    · exact Or.inr ⟨q.2, if_neg hskip⟩

/-- Hashing leaves the hash in the place of the query. -/
theorem find?_hashedFields (host : AuditHost) (hhash : cfg.includeQueryHash = true) (hhashable : ¬ Unhashable cfg trees) :
    (hashedFields cfg host trees).find? (key "query") = none ∧
      ∀ raw, trees.find? (key "query") = some (key "query", .scalar (.str raw)) →
        (hashedFields cfg host trees).find? (key "query_hash") =
          some (key "query_hash", .scalar (.str (host.hashQuery raw))) := by
  rw [hashedFields]
  cases hquery : trees.find? (key "query") with
  | none =>
    refine ⟨hquery, fun raw hraw => ?_⟩
    cases hraw
  | some q =>
    obtain ⟨key', t⟩ := q
    by_cases htext : ∃ raw, t = .scalar (.str raw)
    · obtain ⟨raw, rfl⟩ := htext
      dsimp only
      rw [if_pos hhash]
      refine ⟨?_, fun raw' hraw => ?_⟩
      · rw [Table.find?_upsert, if_neg key_ne.1, Table.find?_delete, hquery]
        obtain ⟨-, hkey⟩ := Table.find?_eq_some.mp hquery
        simpa using hkey
      · obtain rfl : raw = raw' := by simpa using (Prod.mk.inj (Option.some.inj hraw)).2
        rw [Table.find?_upsert, if_pos rfl]
    · exact absurd ⟨hhash, (key', t), hquery, fun raw hraw => htext ⟨raw, hraw⟩⟩ hhashable

theorem find?_recordOf {name : Scalar} (hname : key "timestamp" ≠ name) : (recordOf cfg host trees).find? name =
    ((hashedFields cfg host trees).find? name).map
      (redactEntry (compiledRedactors host.classes host.compile cfg.privacy)) := by
  rw [recordOf, Table.find?_upsert, if_neg hname]
  exact Table.find?_update

/-! ### The audit log -/

/-- What the record of an event is, with both kinds of addresses redacted. -/
structure Redacted (cfg : AuditConfig) (host : AuditHost) (event : Event) (record : Tree) : Prop where
  recorded : record = .dict (recordOf cfg host event.fields).rows
  /-- No value at any depth has an address, but for the structural ones. -/
  clear : ∀ q ∈ (recordOf cfg host event.fields).rows, q.1 ∉ auditSkipKeys → ∀ t ∈ q.2.strings, Clear host.classes t
  /-- Redacting it once more changes nothing. -/
  stable : (redactEntries (compiledRedactors host.classes host.compile cfg.privacy)
    (recordOf cfg host event.fields)).rows = (recordOf cfg host event.fields).rows
  /-- The query is there as its hash only. -/
  hashed : cfg.includeQueryHash = true → (recordOf cfg host event.fields).find? (key "query") = none ∧
    ∀ raw, event.fields.find? (key "query") = some (key "query", .scalar (.str raw)) →
      (recordOf cfg host event.fields).find? (key "query_hash") =
        some (key "query_hash", .scalar (.str (host.hashQuery raw)))

theorem redacted_recordOf (host : AuditHost) (includeQueryHash : Bool) (event : Event)
    (hhashable : ¬ Unhashable ⟨addressesOnly, includeQueryHash⟩ event.fields) :
    Redacted ⟨addressesOnly, includeQueryHash⟩ host event
      (.dict (recordOf ⟨addressesOnly, includeQueryHash⟩ host event.fields).rows) where
  recorded := rfl
  clear := by
    intro q hq hskip t ht
    rcases mem_recordOf hq with hmem | ⟨t₀, heq⟩
    · exact absurd hmem hskip
    · rw [heq, Tree.strings_mapStrings] at ht
      obtain ⟨t', -, rfl⟩ := List.mem_map.mp ht
      exact redact_clear host.compile t'
  stable := by
    have hidem : ∀ t, redact (compiledRedactors host.classes host.compile addressesOnly)
        (redact (compiledRedactors host.classes host.compile addressesOnly) t) =
          redact (compiledRedactors host.classes host.compile addressesOnly) t :=
      fun t => redact_of_clear host.compile (redact_clear host.compile t)
    rw [redactEntries_rows]
    refine (List.map_congr_left fun q hq => ?_).trans (List.map_id _)
    obtain ⟨name, t⟩ := q
    rw [redactEntry]
    by_cases hskip : name ∈ auditSkipKeys
    · rw [if_pos hskip]
      rfl
    · rw [if_neg hskip]
      obtain ⟨t₀, rfl⟩ := (mem_recordOf hq).resolve_left hskip
      rw [Tree.mapStrings_mapStrings hidem]
      rfl
  hashed := by
    intro hhash
    obtain ⟨hnone, hsome⟩ := find?_hashedFields host hhash hhashable
    refine ⟨?_, fun raw hraw => ?_⟩
    · rw [find?_recordOf key_ne.2.1, hnone]
      rfl
    · rw [find?_recordOf key_ne.2.2, hsome raw hraw, Option.map_some, redactEntry, if_pos query_hash_mem]

end Record

/-! ### Keys -/

/-- Word characters and digits as far as ASCII goes. -/
def asciiClasses : CharClasses where
  isWord c := c.isAlphanum || c == '_'
  isDigit := Char.isDigit
  digit_word c hc := by simp [Char.isAlphanum, hc]
  ascii_digit _ _ := rfl

def plainHost : AuditHost := ⟨asciiClasses, fun _ => none, id, "2026-01-01T00:00:00+00:00".toList, 100, 100⟩

def address : Text := "a@b.co".toList

/-- An event whose details are kept by address. -/
def keyedHeap : Heap :=
  [.dict (dictOf [(key "details", .ref 1)]), .dict (dictOf [(.str address, .scalar (.int 1))])]

end CyClaw.Redaction
