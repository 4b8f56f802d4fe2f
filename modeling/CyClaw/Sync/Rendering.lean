/-
rclone's log lines, read back.

An expression of `parse_log` sees a line as pieces between colons.  It takes the first piece
behind which a piece opens with its verb, and that piece is the path (`pathOf_eq`).  A path
with a colon in it is more than one piece; and the piece before the path is taken for one
where the path opens with a verb itself.  `parseLog_inverts_iff` says these are the only paths
that a log does not give back, but for those that a carriage return breaks in two.
-/
import CyClaw.Lib.Lines
import CyClaw.Lib.RegexLanguage
import CyClaw.Sync.Log

namespace CyClaw.Sync

open PyText Regex
open CyClaw.Sql (caseless caselessWord pyWord)

/-! ### Lines as rclone writes them -/

/-- `2026/05/21 02:10:01`. -/
structure Timestamp where
  date : List Char
  hour : List Char
  minute : List Char
  second : List Char
  date_eq : ∀ c ∈ date, c.isDigit = true ∨ c = '/'
  digits : ∀ c ∈ hour ++ (minute ++ second), c.isDigit = true
  second_ne : second ≠ []

/-- What rclone says it has done. -/
def verbText : Kind → List Char
  | .added => "Copied (new)".toList
  | .modified => "Copied (replaced existing)".toList
  | .deleted => "Deleted".toList

def renderLine (ts : Timestamp) (kind : Kind) (path : List Char) : List Char :=
  ts.date ++ " ".toList ++ ts.hour ++ ":".toList ++ ts.minute ++ ":".toList ++ ts.second ++ " INFO  : ".toList ++ path ++
    ": ".toList ++ verbText kind

structure Entry where
  stamp : Timestamp
  kind : Kind
  path : List Char

def Entry.event (e : Entry) : FileEvent := ⟨e.kind, e.path, none⟩

def Entry.line (e : Entry) : List Char := renderLine e.stamp e.kind e.path

/-- The log as a text. -/
def renderLog (entries : List Entry) : List Char := unlines (entries.map Entry.line)

/-- The log as a reader in text mode finds it. -/
def readText (text : List Char) : LogFile := .lines (splitLines (· = '\n') (universalNewlines text))

/-! ### Lines cut at their colons -/

/-- Whether a text opens with a verb, blanks before it passed over. -/
def opens (uw : Char → Bool) (verb : Re) (t : List Char) : Bool :=
  !(ends (pyWord uw) (.seq spacesRe verb) ⟨[], t⟩).isEmpty

/-- The path an expression reports of a line, cut at its colons. -/
def pathAmong (uw : Char → Bool) (verb : Re) : List (List Char) → Option (List Char)
  | _ :: p :: q :: rest =>
      if p ≠ [] ∧ opens uw verb q = true then some (strip p) else pathAmong uw verb (p :: q :: rest)
  | _ => none

/-- What is asked of a verb. -/
structure IsVerb (verb : Re) : Prop where
  noBoundary : verb.asksNoBoundary = true
  noColon : ∀ p ∈ verb.classes, p ':' = false
  starts : StartsIn (fun c => isSpace c = false ∧ c.isDigit = false) verb.lang

variable {uw : Char → Bool} {verb : Re} {t p : List Char}

theorem IsVerb.notMem (hv : IsVerb verb) {y : List Char} (hy : y ∈ verb.lang) : ':' ∉ y := by
  intro hc
  obtain ⟨q, hq, hqc⟩ := exists_class_of_mem_lang hy hc
  rw [hv.noColon q hq] at hqc
  cases hqc

theorem opens_verb_iff (hv : IsVerb verb) :
    opens uw verb t = true ↔ ∃ x y rest, t = x ++ (y ++ rest) ∧ (∀ c ∈ x, isSpace c = true) ∧ y ∈ verb.lang := by
  have hseq : (Re.seq spacesRe verb).asksNoBoundary = true := by
    rw [Re.asksNoBoundary, hv.noBoundary]
    rfl
  unfold opens
  rw [Bool.not_eq_true', List.isEmpty_eq_false_iff]
  constructor
  · intro hne
    obtain ⟨m, hm⟩ := List.exists_mem_of_ne_nil _ hne
    obtain ⟨_, ⟨x, hx, y, hy, rfl⟩, hafter, -⟩ := (mem_ends_iff hseq).mp hm
    exact ⟨x, y, m.after, by rw [← List.append_assoc]; exact hafter, mem_lang_star.mp hx, hy⟩
  · rintro ⟨x, y, rest, rfl, hx, hy⟩
    have hreads : Reads (x ++ y) ⟨[], x ++ (y ++ rest)⟩ ⟨(x ++ y).reverse ++ [], rest⟩ := ⟨(List.append_assoc x y rest).symm, rfl⟩
    exact List.ne_nil_of_mem ((mem_ends_iff hseq).mpr ⟨x ++ y, ⟨x, mem_lang_star.mpr hx, y, hy, rfl⟩, hreads⟩)

/-- Nothing beyond a colon is asked for. -/
theorem opens_append (hv : IsVerb verb) (rest : List Char) : opens uw verb (t ++ ':' :: rest) = opens uw verb t := by
  rw [Bool.eq_iff_iff, opens_verb_iff hv, opens_verb_iff hv]
  constructor
  · rintro ⟨x, y, r, heq, hx, hy⟩
    have hcolon : ':' ∉ x ++ y := by
      intro hc
      rcases List.mem_append.mp hc with hc | hc
      · exact absurd (hx _ hc) (by decide)
      · exact hv.notMem hy hc
    rw [← List.append_assoc, List.append_eq_append_iff] at heq
    rcases heq with ⟨s, hxy, hs⟩ | ⟨s, ht, -⟩
    · cases s with
      | nil => exact ⟨x, y, [], by rw [← List.append_assoc, hxy]; simp, hx, hy⟩
      | cons c s =>
          obtain ⟨rfl, -⟩ := List.cons.inj hs
          exact absurd (hxy ▸ List.mem_append_right _ List.mem_cons_self) hcolon
    · exact ⟨x, y, s, by rw [ht, List.append_assoc], hx, hy⟩
  · rintro ⟨x, y, r, rfl, hx, hy⟩
    exact ⟨x, y, r ++ ':' :: rest, by simp only [List.append_assoc], hx, hy⟩

theorem opens_first (hv : IsVerb verb) {q : List Char} {rest : List (List Char)} (h : t.splitOn ':' = q :: rest) :
    opens uw verb t = opens uw verb q := by
  by_cases hc : ':' ∈ t
  · obtain ⟨s, r, rfl, hs⟩ := List.eq_append_cons_of_mem hc
    rw [List.splitOn_append_cons_self_of_not_mem hs] at h
    rw [← (List.cons.inj h).1, opens_append hv]
  · rw [List.splitOn_eq_singleton hc] at h
    rw [(List.cons.inj h).1]

theorem first_piece {a b q : List Char} (hp : ':' ∉ p) (hq : ':' ∉ q) (h : p ++ ':' :: a = q ++ ':' :: b) : p = q ∧ a = b := by
  have hsplit := congrArg (List.splitOn ':') h
  rw [List.splitOn_append_cons_self_of_not_mem hp, List.splitOn_append_cons_self_of_not_mem hq] at hsplit
  obtain rfl := (List.cons.inj hsplit).1
  exact ⟨rfl, (List.cons.inj (List.append_cancel_left h)).2⟩

variable (uw) in
/-- The expression at a colon behind which the next one comes after `p`. -/
theorem groups_iff (hv : IsVerb verb) {g a : List Char} (hp : ':' ∉ p) :
    Groups (.seq colonRe spacesRe) (.plus (.cls (· != ':'))) (verbRe verb) g (':' :: (p ++ ':' :: a)) ↔
      (∃ x, p = x ++ g ∧ ∀ c ∈ x, isSpace c = true) ∧ g ≠ [] ∧ opens uw verb a = true := by
  constructor
  · rintro ⟨_, _, rest, heq, ⟨_, ⟨c, -, rfl⟩, x, hx, rfl⟩, hg, ⟨_, ⟨d, hd, rfl⟩, _, ⟨x', hx', y, hy, rfl⟩, rfl⟩⟩
    obtain ⟨hne, hg⟩ := mem_lang_plus.mp hg
    have hspaces := mem_lang_star.mp hx
    obtain rfl : d = ':' := by simpa using hd
    obtain ⟨-, heq⟩ := List.cons.inj heq
    have hcolon : ':' ∉ x ++ g := by
      intro hc
      rcases List.mem_append.mp hc with hc | hc
      · exact absurd (hspaces _ hc) (by decide)
      · exact absurd (hg _ hc) (by decide)
    have hsplit : p ++ ':' :: a = (x ++ g) ++ ':' :: (x' ++ (y ++ rest)) := by
      have hshape : p ++ ':' :: a = x ++ (g ++ ':' :: (x' ++ y ++ rest)) := heq
      rw [hshape]
      simp only [List.append_assoc]
    obtain ⟨hpiece, ha⟩ := first_piece hp hcolon hsplit
    refine ⟨⟨x, hpiece, hspaces⟩, hne, (opens_verb_iff hv).mpr ⟨x', y, rest, ha, mem_lang_star.mp hx', hy⟩⟩
  · rintro ⟨⟨x, rfl, hx⟩, hne, hopens⟩
    obtain ⟨x', y, rest, rfl, hx', hy⟩ := (opens_verb_iff hv).mp hopens
    refine ⟨':' :: x, ':' :: (x' ++ y), rest, ?_, ⟨[':'], ⟨':', rfl, rfl⟩, x, mem_lang_star.mpr hx, rfl⟩, ?_,
      ⟨[':'], ⟨':', rfl, rfl⟩, x' ++ y, ⟨x', mem_lang_star.mpr hx', y, hy, rfl⟩, rfl⟩⟩
    · simp only [List.append_assoc, List.cons_append]
    · refine mem_lang_plus.mpr ⟨hne, fun c hc => ?_⟩
      rw [bne_iff_ne]
      rintro rfl
      exact hp (List.mem_append_right _ hc)

/-- Two colons belong to every match. -/
theorem not_groups {g : List Char} (h : ∀ s, t = ':' :: s → ':' ∉ s) :
    ¬ Groups (.seq colonRe spacesRe) (.plus (.cls (· != ':'))) (verbRe verb) g t := by
  rintro ⟨_, _, rest, rfl, ⟨_, ⟨c, hc, rfl⟩, x, -, rfl⟩, -, ⟨_, ⟨d, hd, rfl⟩, y, -, rfl⟩⟩
  obtain rfl : c = ':' := by simpa using hc
  obtain rfl : d = ':' := by simpa using hd
  exact h (x ++ (g ++ (':' :: (y ++ rest)))) rfl (by simp)

theorem strip_blanks {x g : List Char} (hx : ∀ c ∈ x, isSpace c = true) : strip (x ++ g) = strip g := by
  unfold strip stripBy
  rw [List.dropWhile_append_of_pos hx]

theorem pathAmong_cons (c : Char) (ps : List (List Char)) :
    pathAmong uw verb (ps.modifyHead (List.cons c)) = pathAmong uw verb ps := by
  rcases ps with _ | ⟨p, _ | ⟨q, _ | ⟨r, rest⟩⟩⟩ <;> rfl

/-- **A line is read piece by piece.** -/
theorem groupFrom_eq (hv : IsVerb verb) (b a : List Char) :
    (groupFrom (pyWord uw) (.seq colonRe spacesRe) (.plus (.cls (· != ':'))) (verbRe verb) b a).map strip =
      pathAmong uw verb (a.splitOn ':') := by
  have hpost : (verbRe verb).asksNoBoundary = true := by
    simp only [verbRe, colonRe, spacesRe, Re.asksNoBoundary, hv.noBoundary, Bool.and_self]
  have hnone : ∀ b t, (∀ g, ¬ Groups (.seq colonRe spacesRe) (.plus (.cls (· != ':'))) (verbRe verb) g t) →
      groupHere (pyWord uw) (.seq colonRe spacesRe) (.plus (.cls (· != ':'))) (verbRe verb) ⟨b, t⟩ = none := by
    intro b t h
    rw [Option.eq_none_iff_forall_ne_some]
    exact fun g hg => h g (groupHere_sound rfl rfl hpost hg)
  induction a generalizing b with
  | nil =>
      rw [groupFrom_nil (hnone b [] fun g => not_groups fun s hs => by cases hs)]
      rfl
  | cons c a ih =>
      by_cases hc : c = ':'
      · subst hc
        have hsplit : (':' :: a).splitOn ':' = [] :: a.splitOn ':' := List.splitOn_append_cons_self_of_not_mem List.not_mem_nil a
        rw [hsplit]
        by_cases ha : ':' ∈ a
        · obtain ⟨p, r, rfl, hp⟩ := List.eq_append_cons_of_mem ha
          obtain ⟨q, rest, hq⟩ := List.exists_cons_of_ne_nil (List.splitOn_ne_nil ':' r)
          rw [List.splitOn_append_cons_self_of_not_mem hp, hq, pathAmong, ← opens_first hv hq]
          by_cases hpath : p ≠ [] ∧ opens uw verb r = true
          · rw [if_pos hpath]
            have hgroups := (groups_iff uw hv hp).mpr ⟨⟨[], rfl, fun c hc => by cases hc⟩, hpath⟩
            obtain ⟨g, hg⟩ := groupHere_complete (z := ⟨b, ':' :: (p ++ ':' :: r)⟩) (w := pyWord uw) rfl rfl hpost hgroups
            obtain ⟨⟨x, hx, hblank⟩, -⟩ := (groups_iff uw hv hp).mp (groupHere_sound rfl rfl hpost hg)
            rw [groupFrom_of_some hg, Option.map_some, hx, strip_blanks hblank]
          · rw [if_neg hpath, groupFrom_cons, ih, List.splitOn_append_cons_self_of_not_mem hp, hq]
            refine hnone b _ fun g hg => hpath ?_
            obtain ⟨⟨x, hx, -⟩, hne, hopens⟩ := (groups_iff uw hv hp).mp hg
            exact ⟨fun hp => hne (List.append_eq_nil_iff.mp (hx.symm.trans hp)).2, hopens⟩
        · rw [groupFrom_cons (hnone b _ fun g => not_groups fun s hs => (List.cons.inj hs).2 ▸ ha), ih,
            List.splitOn_eq_singleton ha]
          rfl
      · have hcons : groupHere (pyWord uw) (.seq colonRe spacesRe) (.plus (.cls (· != ':'))) (verbRe verb) ⟨b, c :: a⟩ = none :=
          hnone b _ fun g => not_groups fun s hs => absurd (List.cons.inj hs).1 hc
        rw [groupFrom_cons hcons, ih, List.splitOn_cons_eq_if_modifyHead, if_neg (by simpa using hc), pathAmong_cons]

theorem pathOf_eq (hv : IsVerb verb) (line : List Char) : pathOf uw verb line = pathAmong uw verb (line.splitOn ':') :=
  groupFrom_eq hv [] line

/-- What comes out of a line is a piece of it. -/
theorem mem_pathAmong {ps : List (List Char)} (h : pathAmong uw verb ps = some p) : ∃ q ∈ ps, p = strip q := by
  induction ps with
  | nil => cases h
  | cons first ps ih =>
      rcases ps with _ | ⟨q, _ | ⟨r, rest⟩⟩
      · cases h
      · cases h
      · rw [pathAmong] at h
        split at h
        · exact ⟨q, by simp, (Option.some.inj h).symm⟩
        · obtain ⟨q', hq', hp⟩ := ih h
          exact ⟨q', List.mem_cons_of_mem first hq', hp⟩

/-- A path that is reported has no colon, and no character that the line has not. -/
theorem mem_pathOf (hv : IsVerb verb) {line : List Char} (h : pathOf uw verb line = some p) {c : Char} (hc : c ∈ p) :
    c ∈ line ∧ c ≠ ':' := by
  rw [pathOf_eq hv] at h
  obtain ⟨q, hq, rfl⟩ := mem_pathAmong h
  exact mem_splitOn hq (mem_of_mem_strip hc)

/-! ### The verbs -/

theorem startsIn_caselessWord {k : String} {c : Char} (hk : k.toList.head? = some c)
    (hc : ∀ d, caseless c d = true → isSpace d = false ∧ d.isDigit = false) :
    StartsIn (fun d => isSpace d = false ∧ d.isDigit = false) (caselessWord k).lang :=
  startsIn_literal hk hc

theorem isSpace_eq_false {c : Char} (h : 33 ≤ c.toNat) (h' : c.toNat ≤ 126) : isSpace c = false := by
  unfold isSpace
  simp only [Bool.or_eq_false_iff, Bool.and_eq_false_iff, decide_eq_false_iff_not, beq_eq_false_iff_ne]
  omega

/-- The letters the verbs start with. -/
theorem caseless_plain {c d : Char} (hc : c = 'c' ∨ c = 'u' ∨ c = 'd') (h : caseless c d = true) :
    isSpace d = false ∧ d.isDigit = false := by
  have hlower : d.toLower = c := by
    rcases hc with rfl | rfl | rfl <;> simpa [caseless] using h
  have hletter : 97 ≤ c.toNat ∧ c.toNat ≤ 122 := by
    rcases hc with rfl | rfl | rfl <;> decide
  have hn := toNat_toLower d
  rw [hlower] at hn
  have hd : 65 ≤ d.toNat ∧ d.toNat ≤ 122 := by
    split at hn <;> omega
  refine ⟨isSpace_eq_false (by omega) (by omega), ?_⟩
  rw [Bool.eq_false_iff, ne_eq, isDigit_iff]
  omega

theorem isVerb_added : IsVerb addedRe where
  noBoundary := rfl
  noColon := by decide
  starts := (startsIn_caselessWord rfl fun _ => caseless_plain (.inl rfl)).mul

theorem isVerb_modified : IsVerb modifiedRe where
  noBoundary := rfl
  noColon := by decide
  starts := by
    rintro t (ht | ht)
    · exact startsIn_caselessWord rfl (fun _ => caseless_plain (.inl rfl)) t ht
    · exact startsIn_caselessWord rfl (fun _ => caseless_plain (.inr (.inl rfl))) t ht

theorem isVerb_deleted : IsVerb deletedRe where
  noBoundary := rfl
  noColon := by decide
  starts := (startsIn_caselessWord rfl fun _ => caseless_plain (.inr (.inr rfl))).mul

/-- The verbs that are tried on the line of an event. -/
def tried : Kind → List Re
  | .added => [addedRe]
  | .modified => [addedRe, modifiedRe]
  | .deleted => [addedRe, modifiedRe, deletedRe]

theorem isVerb_of_tried {kind : Kind} (h : verb ∈ tried kind) : IsVerb verb := by
  have hall : verb = addedRe ∨ verb = modifiedRe ∨ verb = deletedRe := by
    cases kind <;> simp only [tried, List.mem_cons, List.not_mem_nil, or_false] at h <;> tauto
  rcases hall with rfl | rfl | rfl
  · exact isVerb_added
  · exact isVerb_modified
  · exact isVerb_deleted

/-! ### One line -/

/-- A path that its line gives back. -/
structure Legible (uw : Char → Bool) (kind : Kind) (path : List Char) : Prop where
  colon : ':' ∉ path
  plain : ∀ verb ∈ tried kind, opens uw verb path = false

/-- A path as a log may have it. -/
structure Loggable (path : List Char) : Prop where
  nonempty : path ≠ []
  newline : '\n' ∉ path
  stripped : strip path = path

/-- A text that opens with a verb begins with its first letter, after the blanks. -/
theorem opens_cons (hv : IsVerb verb) {c : Char} (hc : isSpace c = false) (h : opens uw verb (c :: t) = true) :
    c.isDigit = false := by
  obtain ⟨x, y, rest, heq, hx, hy⟩ := (opens_verb_iff hv).mp h
  obtain ⟨d, y', rfl, -, hd⟩ := hv.starts y hy
  cases x with
  | nil =>
      rw [(List.cons.inj heq).1]
      exact hd
  | cons b x =>
      rw [(List.cons.inj heq).1, hx b List.mem_cons_self] at hc
      cases hc

theorem opens_blank (hv : IsVerb verb) : opens uw verb (' ' :: t) = opens uw verb t := by
  rw [Bool.eq_iff_iff, opens_verb_iff hv, opens_verb_iff hv]
  constructor
  · rintro ⟨x, y, rest, heq, hx, hy⟩
    cases x with
    | nil =>
        obtain ⟨d, y', rfl, hd, -⟩ := hv.starts y hy
        rw [← (List.cons.inj heq).1] at hd
        cases hd
    | cons b x => exact ⟨x, y, rest, (List.cons.inj heq).2, fun c hc => hx c (List.mem_cons_of_mem b hc), hy⟩
  · rintro ⟨x, y, rest, rfl, hx, hy⟩
    exact ⟨' ' :: x, y, rest, rfl, List.forall_mem_cons.mpr ⟨rfl, hx⟩, hy⟩

theorem splitOn_renderLine (ts : Timestamp) (kind : Kind) {path : List Char} (hcolon : ':' ∉ path) :
    (renderLine ts kind path ++ ['\n']).splitOn ':' =
      [ts.date ++ ' ' :: ts.hour, ts.minute, ts.second ++ " INFO  ".toList, ' ' :: path, ' ' :: (verbText kind ++ ['\n'])] := by
  have hshape : renderLine ts kind path ++ ['\n'] = (ts.date ++ ' ' :: ts.hour) ++ ':' :: (ts.minute ++ ':' ::
      ((ts.second ++ " INFO  ".toList) ++ ':' :: ((' ' :: path) ++ ':' :: (' ' :: (verbText kind ++ ['\n']))))) := by
    simp [renderLine]
  have hdigit : ∀ t, t ⊆ ts.hour ++ (ts.minute ++ ts.second) → ':' ∉ t := fun t ht hc => absurd (ts.digits _ (ht hc)) (by decide)
  have hhour : ':' ∉ ts.date ++ ' ' :: ts.hour := by
    intro hc
    rcases List.mem_append.mp hc with hc | hc
    · exact absurd (ts.date_eq _ hc) (by decide)
    · rcases List.mem_cons.mp hc with hc | hc
      · cases hc
      · exact hdigit ts.hour (List.subset_append_left _ _) hc
  have hminute : ':' ∉ ts.minute :=
    hdigit ts.minute fun c hc => List.mem_append_right _ (List.mem_append_left _ hc)
  have hsecond : ':' ∉ ts.second ++ " INFO  ".toList := by
    intro hc
    rcases List.mem_append.mp hc with hc | hc
    · exact hdigit ts.second (fun c hc => List.mem_append_right _ (List.mem_append_right _ hc)) hc
    · exact absurd hc (by decide)
  have hpath : ':' ∉ ' ' :: path := by
    intro hc
    rcases List.mem_cons.mp hc with hc | hc
    · cases hc
    · exact hcolon hc
  have hverb : ':' ∉ ' ' :: (verbText kind ++ ['\n']) := by cases kind <;> decide
  rw [hshape, List.splitOn_append_cons_self_of_not_mem hhour, List.splitOn_append_cons_self_of_not_mem hminute,
    List.splitOn_append_cons_self_of_not_mem hsecond, List.splitOn_append_cons_self_of_not_mem hpath,
    List.splitOn_eq_singleton hverb]

/-- What stands before the path begins with a digit. -/
theorem second_cons (ts : Timestamp) :
    ∃ d r, ts.second ++ " INFO  ".toList = d :: r ∧ d.isDigit = true ∧ isSpace d = false := by
  obtain ⟨d, r, hd⟩ := List.exists_cons_of_ne_nil ts.second_ne
  have hdigit : d.isDigit = true := by
    refine ts.digits d (List.mem_append_right _ (List.mem_append_right _ ?_))
    rw [hd]
    exact List.mem_cons_self
  have hn := isDigit_iff.mp hdigit
  exact ⟨d, r ++ " INFO  ".toList, by rw [hd]; rfl, hdigit, isSpace_eq_false (by omega) (by omega)⟩

theorem strip_cons {c : Char} (hc : isSpace c = false) (t : List Char) : strip (c :: t) = c :: rstripBy isSpace t := by
  unfold strip stripBy
  rw [List.dropWhile_cons, if_neg (by rw [hc]; exact Bool.false_ne_true)]
  exact rstripBy_append_cons hc [] t

variable (uw) in
/-- **What an expression reports of a line.** -/
theorem pathOf_renderLine (hv : IsVerb verb) (ts : Timestamp) (kind : Kind) {path : List Char} (hpath : Loggable path)
    (hcolon : ':' ∉ path) :
    pathOf uw verb (renderLine ts kind path ++ ['\n']) =
      if opens uw verb path = true then some (strip (ts.second ++ " INFO  ".toList))
      else if opens uw verb (verbText kind ++ ['\n']) = true then some path else none := by
  obtain ⟨d, r, hsecond, hdigit, hspace⟩ := second_cons ts
  have hquiet : opens uw verb (ts.second ++ " INFO  ".toList) = false := by
    rw [hsecond, Bool.eq_false_iff]
    intro h
    rw [opens_cons hv hspace h] at hdigit
    cases hdigit
  have hstrip : strip (' ' :: path) = path := (strip_blanks (x := [' ']) (by decide)).trans hpath.stripped
  have hne : ts.second ++ " INFO  ".toList ≠ [] := by
    rw [hsecond]
    exact List.cons_ne_nil d r
  rw [pathOf_eq hv, splitOn_renderLine ts kind hcolon]
  simp only [pathAmong, hquiet, opens_blank hv, hstrip, ne_eq, hne, List.cons_ne_nil, not_false_eq_true, true_and,
    Bool.false_eq_true, and_false, if_false]

/-- The piece before the path is not the path where it is taken for it. -/
theorem second_ne_path (hv : IsVerb verb) (ts : Timestamp) {path : List Char} (hpath : Loggable path)
    (h : opens uw verb path = true) : strip (ts.second ++ " INFO  ".toList) ≠ path := by
  obtain ⟨d, r, hsecond, hdigit, hspace⟩ := second_cons ts
  rw [hsecond, strip_cons hspace]
  rintro rfl
  rw [opens_cons hv hspace h] at hdigit
  cases hdigit

theorem lineEvent_eq_some {line : List Char} {ev : FileEvent} (h : lineEvent uw line = some ev) :
    ∃ verb, IsVerb verb ∧ pathOf uw verb line = some ev.path := by
  unfold lineEvent at h
  split at h
  · rename_i hp
    cases h
    exact ⟨addedRe, isVerb_added, hp⟩
  · rename_i hp
    cases h
    exact ⟨modifiedRe, isVerb_modified, hp⟩
  · rename_i hp
    cases h
    exact ⟨deletedRe, isVerb_deleted, hp⟩
  · cases h

/-- The word characters do not matter to a verb. -/
theorem opens_congr (hv : IsVerb verb) (uw uw' : Char → Bool) (t : List Char) : opens uw verb t = opens uw' verb t := by
  rw [Bool.eq_iff_iff, opens_verb_iff hv, opens_verb_iff hv]

/-- No word character beyond ASCII. -/
def noWord (_ : Char) : Bool := false

theorem opens_added (kind : Kind) : opens uw addedRe (verbText kind ++ ['\n']) = decide (kind = .added) := by
  rw [opens_congr isVerb_added uw noWord]
  cases kind <;> decide

theorem opens_modified {kind : Kind} (h : kind ≠ .added) :
    opens uw modifiedRe (verbText kind ++ ['\n']) = decide (kind = .modified) := by
  rw [opens_congr isVerb_modified uw noWord]
  cases kind
  · exact absurd rfl h
  · decide
  · decide

theorem opens_deleted : opens uw deletedRe (verbText .deleted ++ ['\n']) = true := by
  rw [opens_congr isVerb_deleted uw noWord]
  decide

/-- **A line gives its event back just where the path has no colon and opens with no verb that
is tried.** -/
theorem lineEvent_renderLine_iff (ts : Timestamp) (kind : Kind) {path : List Char} (hpath : Loggable path) :
    lineEvent uw (renderLine ts kind path ++ ['\n']) = some ⟨kind, path, none⟩ ↔ Legible uw kind path := by
  by_cases hcolon : ':' ∈ path
  · refine iff_of_false ?_ fun h => h.colon hcolon
    intro h
    obtain ⟨verb, hv, hp⟩ := lineEvent_eq_some h
    exact (mem_pathOf hv hp hcolon).2 rfl
  have hadded := pathOf_renderLine uw isVerb_added ts kind hpath hcolon
  have hmodified := pathOf_renderLine uw isVerb_modified ts kind hpath hcolon
  have hdeleted := pathOf_renderLine uw isVerb_deleted ts kind hpath hcolon
  -- Where a verb takes the piece before the path, the event has that for its path.
  have htaken : ∀ verb ∈ tried kind, opens uw verb path = true →
      (∃ k, lineEvent uw (renderLine ts kind path ++ ['\n']) = some ⟨k, strip (ts.second ++ " INFO  ".toList), none⟩) →
      (lineEvent uw (renderLine ts kind path ++ ['\n']) = some ⟨kind, path, none⟩ ↔ Legible uw kind path) := by
    rintro verb hverb hopens ⟨k, hk⟩
    refine iff_of_false ?_ fun h => ?_
    · rw [hk, Option.some.injEq, FileEvent.mk.injEq]
      exact fun h => second_ne_path (isVerb_of_tried hverb) ts hpath hopens h.2.1
    · rw [h.plain verb hverb] at hopens
      cases hopens
  by_cases ha : opens uw addedRe path = true
  · rw [if_pos ha] at hadded
    refine htaken addedRe (by cases kind <;> exact List.mem_cons_self) ha ⟨.added, ?_⟩
    rw [lineEvent, hadded]
  rw [if_neg ha, opens_added] at hadded
  by_cases hkind : kind = .added
  · subst hkind
    refine iff_of_true ?_ ⟨hcolon, ?_⟩
    · rw [lineEvent, hadded]
      rfl
    · exact List.forall_mem_singleton.mpr (Bool.eq_false_iff.mpr ha)
  rw [decide_eq_false hkind, if_neg Bool.false_ne_true] at hadded
  by_cases hm : opens uw modifiedRe path = true
  · rw [if_pos hm] at hmodified
    refine htaken modifiedRe ?_ hm ⟨.modified, ?_⟩
    · cases kind
      · exact absurd rfl hkind
      · exact List.mem_cons_of_mem _ List.mem_cons_self
      · exact List.mem_cons_of_mem _ List.mem_cons_self
    · rw [lineEvent, hadded, hmodified]
  rw [if_neg hm, opens_modified hkind] at hmodified
  cases kind with
  | added => exact absurd rfl hkind
  | modified =>
      refine iff_of_true ?_ ⟨hcolon, ?_⟩
      · rw [lineEvent, hadded, hmodified]
        rfl
      · exact List.forall_mem_cons.mpr ⟨Bool.eq_false_iff.mpr ha, List.forall_mem_singleton.mpr (Bool.eq_false_iff.mpr hm)⟩
  | deleted =>
      rw [decide_eq_false nofun, if_neg Bool.false_ne_true] at hmodified
      by_cases hd : opens uw deletedRe path = true
      · rw [if_pos hd] at hdeleted
        refine htaken deletedRe (List.mem_cons_of_mem _ (List.mem_cons_of_mem _ List.mem_cons_self)) hd ⟨.deleted, ?_⟩
        rw [lineEvent, hadded, hmodified, hdeleted]
      · rw [if_neg hd, if_pos opens_deleted] at hdeleted
        refine iff_of_true ?_ ⟨hcolon, ?_⟩
        · rw [lineEvent, hadded, hmodified, hdeleted]
        · simp only [tried, List.forall_mem_cons]
          exact ⟨Bool.eq_false_iff.mpr ha, Bool.eq_false_iff.mpr hm, Bool.eq_false_iff.mpr hd, fun _ h => by cases h⟩

/-! ### The log -/

section Lists

variable {α β : Type*}

theorem eraseDups_sublist [BEq α] : ∀ l : List α, l.eraseDups.Sublist l
  | [] => List.Sublist.refl []
  | a :: l => by
      have hfilter := List.length_filter_le (fun b => !b == a) l
      rw [List.eraseDups_cons]
      exact ((eraseDups_sublist (l.filter fun b => !b == a)).trans List.filter_sublist).cons_cons a
termination_by l => l.length
decreasing_by
  rw [List.length_cons]
  omega

theorem eraseDups_of_nodup [BEq α] [LawfulBEq α] {l : List α} (h : l.Nodup) : l.eraseDups = l := by
  induction l with
  | nil => rfl
  | cons a l ih =>
      obtain ⟨ha, hl⟩ := List.nodup_cons.mp h
      have hkept : (l.filter fun b => !b == a) = l := by
        rw [List.filter_eq_self]
        intro b hb
        have hne : b ≠ a := fun heq => ha (heq ▸ hb)
        simpa using hne
      rw [List.eraseDups_cons, hkept, ih hl]

theorem filterMap_eq_map_iff {f : α → Option β} {g : α → β} {l : List α} :
    l.filterMap f = l.map g ↔ ∀ a ∈ l, f a = some (g a) := by
  constructor
  · intro h
    have hsome : ∀ a ∈ l, (f a).isSome := List.filterMap_length_eq_length.mp (by rw [h, List.length_map])
    induction l with
    | nil => exact fun a ha => absurd ha List.not_mem_nil
    | cons a l ih =>
        obtain ⟨b, hb⟩ := Option.isSome_iff_exists.mp (hsome a List.mem_cons_self)
        rw [List.filterMap_cons_some hb, List.map_cons, List.cons.injEq] at h
        rw [List.forall_mem_cons, hb, h.1]
        exact ⟨rfl, ih h.2 fun c hc => hsome c (List.mem_cons_of_mem a hc)⟩
  · intro h
    rw [← List.filterMap_eq_map]
    exact List.filterMap_congr h

end Lists

theorem notMem_renderLine (ts : Timestamp) (kind : Kind) {c : Char} {path : List Char} (hc : c = '\n' ∨ c = '\r')
    (hpath : c ∉ path) : c ∉ renderLine ts kind path := by
  have hdigit : c.isDigit = false := by rcases hc with rfl | rfl <;> rfl
  have hfixed : ∀ t ∈ [" ".toList, ":".toList, " INFO  : ".toList, ": ".toList, verbText kind], c ∉ t := by
    rcases hc with rfl | rfl <;> cases kind <;> decide
  simp only [List.forall_mem_cons] at hfixed
  obtain ⟨hblank, hcolon, hinfo, hsep, hverb, -⟩ := hfixed
  have hdate : c ∉ ts.date := by
    intro h
    rcases ts.date_eq c h with h | rfl
    · rw [hdigit] at h
      cases h
    · rcases hc with hc | hc <;> cases hc
  have htime : c ∉ ts.hour ++ (ts.minute ++ ts.second) := by
    intro h
    rw [ts.digits c h] at hdigit
    cases hdigit
  simp only [List.mem_append, not_or] at htime
  simp only [renderLine, List.mem_append, not_or]
  exact ⟨⟨⟨⟨⟨⟨⟨⟨⟨⟨hdate, hblank⟩, htime.1⟩, hcolon⟩, htime.2.1⟩, hcolon⟩, htime.2.2⟩, hinfo⟩, hpath⟩, hsep⟩, hverb⟩

/-- No path that is read has a carriage return. -/
theorem notMem_of_parseLog {text : List Char} {events : List FileEvent} {errors : List (List Char)}
    (h : parseLog uw (readText text) = .ok (events, errors)) {ev : FileEvent} (hev : ev ∈ events) : '\r' ∉ ev.path := by
  intro hc
  rw [readText, parseLog, Except.ok.injEq, Prod.mk.injEq] at h
  rw [← h.1, List.mem_eraseDups, List.mem_filterMap] at hev
  obtain ⟨line, hline, hevent⟩ := hev
  obtain ⟨verb, hv, hpath⟩ := lineEvent_eq_some hevent
  have hmem := (mem_pathOf hv hpath hc).1
  rw [List.mem_append, List.mem_singleton] at hmem
  rcases hmem with hmem | hmem
  · rcases mem_universalNewlines (mem_splitLines hline hmem).1 with h | h
    · cases h
    · exact h.2 rfl
  · cases hmem

theorem readText_renderLog {entries : List Entry} (hpath : ∀ e ∈ entries, Loggable e.path)
    (hreturn : ∀ e ∈ entries, '\r' ∉ e.path) : readText (renderLog entries) = .lines (entries.map Entry.line) := by
  have hlines : ∀ line ∈ entries.map Entry.line, '\n' ∉ line ∧ '\r' ∉ line := by
    rw [List.forall_mem_map]
    intro e he
    exact ⟨notMem_renderLine _ _ (.inl rfl) (hpath e he).newline, notMem_renderLine _ _ (.inr rfl) (hreturn e he)⟩
  have huniversal : universalNewlines (renderLog entries) = renderLog entries := by
    refine universalNewlines_eq fun hc => ?_
    rcases mem_unlines hc with hc | ⟨line, hline, hc⟩
    · cases hc
    · exact (hlines line hline).2 hc
  rw [readText, huniversal, renderLog, splitLines_unlines]
  · intro line hline c hc
    refine decide_eq_false fun heq => ?_
    rw [heq] at hc
    exact (hlines line hline).1 hc
  · rfl

/-- **A log is read back as it was written just where each of its paths is.** -/
theorem parseLog_inverts_iff (uw : Char → Bool) (entries : List Entry) (hpath : ∀ e ∈ entries, Loggable e.path)
    (hdistinct : (entries.map fun e => (e.kind, e.path)).Nodup) :
    parseLog uw (readText (renderLog entries)) = .ok (entries.map Entry.event, []) ↔
      ∀ e ∈ entries, '\r' ∉ e.path ∧ Legible uw e.kind e.path := by
  have hnodup : (entries.map Entry.event).Nodup := by
    have hpairs : entries.map Entry.event = (entries.map fun e => (e.kind, e.path)).map fun p => ⟨p.1, p.2, none⟩ := by
      rw [List.map_map]
      rfl
    rw [hpairs]
    refine hdistinct.map fun p q h => ?_
    rw [FileEvent.mk.injEq] at h
    exact Prod.ext h.1 h.2.1
  by_cases hreturn : ∀ e ∈ entries, '\r' ∉ e.path
  · have hevents : (∀ e ∈ entries, lineEvent uw (e.line ++ ['\n']) = some e.event) ↔
        ∀ e ∈ entries, '\r' ∉ e.path ∧ Legible uw e.kind e.path := by
      refine forall₂_congr fun e he => ?_
      rw [and_iff_right (hreturn e he)]
      exact lineEvent_renderLine_iff e.stamp e.kind (hpath e he)
    rw [readText_renderLog hpath hreturn, parseLog, Except.ok.injEq, Prod.mk.injEq, List.filterMap_map, List.filterMap_map,
      ← hevents]
    constructor
    · rintro ⟨hread, -⟩
      -- There are as many events as lines, so no line is without one and none is double.
      have hlength := congrArg List.length hread
      rw [List.length_map] at hlength
      have hkept := (eraseDups_sublist _).eq_of_length_le ((List.length_filterMap_le _ entries).trans hlength.ge)
      exact filterMap_eq_map_iff.mp (hkept.symm.trans hread)
    · intro h
      have hread : entries.filterMap ((fun l => lineEvent uw (l ++ ['\n'])) ∘ Entry.line) = entries.map Entry.event :=
        filterMap_eq_map_iff.mpr h
      refine ⟨by rw [hread, eraseDups_of_nodup hnodup], ?_⟩
      rw [List.filterMap_eq_nil_iff]
      intro e he
      rw [Function.comp_apply, lineError, h e he]
  · refine iff_of_false ?_ fun h => hreturn fun e he => (h e he).1
    intro hread
    refine hreturn fun e he => ?_
    exact notMem_of_parseLog hread (List.mem_map_of_mem he)

/-! Names with a colon and with a verb. -/

def midnight : Timestamp where
  date := "2026/05/21".toList
  hour := "00".toList
  minute := "00".toList
  second := "01".toList
  date_eq := by decide
  digits := by decide
  second_ne := by decide

/-- The entry of a file that was copied. -/
def copied (path : String) : Entry := ⟨midnight, .added, path.toList⟩

theorem parseLog_inverts_iff_copied :
    parseLog noWord (readText (renderLog [copied "docs/a copied (new) b.md"])) =
      .ok ([⟨.added, "docs/a copied (new) b.md".toList, none⟩], []) := by
  refine (parseLog_inverts_iff noWord [copied "docs/a copied (new) b.md"] ?_ (by decide)).mpr ?_
  · exact List.forall_mem_singleton.mpr ⟨by decide, by decide, by decide⟩
  · exact List.forall_mem_singleton.mpr ⟨by decide, by decide, by decide⟩

/-- A log of one line that an expression finds its path in. -/
theorem parseLog_copied {path : String} {reported : List Char} (hpath : Loggable path.toList) (hreturn : '\r' ∉ path.toList)
    (h : pathAmong noWord addedRe (((copied path).line ++ ['\n']).splitOn ':') = some reported) :
    parseLog noWord (readText (renderLog [copied path])) = .ok ([⟨.added, reported, none⟩], []) := by
  have hevent : lineEvent noWord ((copied path).line ++ ['\n']) = some ⟨.added, reported, none⟩ := by
    rw [← pathOf_eq isVerb_added] at h
    rw [lineEvent, h]
  rw [readText_renderLog (List.forall_mem_singleton.mpr hpath) (List.forall_mem_singleton.mpr hreturn)]
  simp [parseLog, lineError, hevent, eraseDups_of_nodup]

/-- **Of a name with a colon the last part is reported, and of one that opens with the verb the
piece before it.** -/
theorem misread :
    parseLog noWord (readText (renderLog [copied "notes: draft.md"])) = .ok ([⟨.added, "draft.md".toList, none⟩], []) ∧
      parseLog noWord (readText (renderLog [copied "Copied (new).md"])) = .ok ([⟨.added, "01 INFO".toList, none⟩], []) ∧
      (copied "notes: draft.md").event ≠ ⟨.added, "draft.md".toList, none⟩ ∧
      (copied "Copied (new).md").event ≠ ⟨.added, "01 INFO".toList, none⟩ :=
  ⟨parseLog_copied ⟨by decide, by decide, by decide⟩ (by decide) (by decide),
    parseLog_copied ⟨by decide, by decide, by decide⟩ (by decide) (by decide), by decide, by decide⟩

end CyClaw.Sync
