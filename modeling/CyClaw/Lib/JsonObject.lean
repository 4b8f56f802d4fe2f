/-
Flat JSON objects, one field a line.

`dumps` is the layout of `json.dumps(..., indent=2)` for an object whose values are strings,
whole numbers and null.  `reads` reads that layout back, given the keys in their order, and
nothing else: what another layout says is not decided here.  A reader takes what it reads off
the front of a text (`readScalar_append`), so the fields are read one after the other
(`reads_dumps`).
-/
import CyClaw.Lib.JsonText

namespace JsonObject

open JsonText PyText

abbrev Text := List Char

inductive Scalar where
  | str (t : Text)
  | int (n : ℤ)
  | null
deriving DecidableEq, Repr

def digits (n : ℕ) : Text := Nat.toDigits 10 n

def Scalar.text : Scalar → Text
  | .str t => quoted t
  | .int (.ofNat n) => digits n
  | .int (.negSucc n) => '-' :: digits (n + 1)
  | .null => "null".toList

/-- The fields after the first come on lines of their own. -/
def fieldsText : List (Text × Scalar) → Text
  | [] => "\n\x7d".toList
  | (key, value) :: fields => ",\n  ".toList ++ quoted key ++ ": ".toList ++ value.text ++ fieldsText fields

def dumps : List (Text × Scalar) → Text
  | [] => "\x7b\x7d".toList
  | (key, value) :: fields => "\x7b\n  ".toList ++ quoted key ++ ": ".toList ++ value.text ++ fieldsText fields

/-! ### Reading -/

/-- What is left of a text after a given beginning. -/
def after : Text → Text → Option Text
  | [], t => some t
  | _ :: _, [] => none
  | c :: cs, d :: ds => if c = d then after cs ds else none

/-- The rest of a string after its opening quote, and the text after it. -/
def readBody : ℕ → Text → Option (Text × Text)
  | 0, _ => none
  | _ + 1, '"' :: rest => some ([], rest)
  | n + 1, t => (next t).bind fun e => (readBody n e.2).map fun r => (e.1 :: r.1, r.2)

def readNat (t : Text) : ℕ × Text := (Nat.ofDigitChars 10 (t.takeWhile Char.isDigit) 0, t.dropWhile Char.isDigit)

def readScalar : Text → Option (Scalar × Text)
  | '"' :: rest => (readBody (rest.length + 1) rest).map fun r => (.str r.1, r.2)
  | 'n' :: rest => (after "ull".toList rest).map fun r => (.null, r)
  | '-' :: rest => some (.int (-(readNat rest).1), (readNat rest).2)
  | t => some (.int (readNat t).1, (readNat t).2)

def readFields : List Text → Text → Option (List Scalar)
  | [], t => if t = "\n\x7d".toList then some [] else none
  | key :: keys, t =>
      (after (",\n  ".toList ++ quoted key ++ ": ".toList) t).bind fun rest =>
        (readScalar rest).bind fun r => (readFields keys r.2).map (r.1 :: ·)

def reads : List Text → Text → Option (List Scalar)
  | [], t => if t = "\x7b\x7d".toList then some [] else none
  | key :: keys, t =>
      (after ("\x7b\n  ".toList ++ quoted key ++ ": ".toList) t).bind fun rest =>
        (readScalar rest).bind fun r => (readFields keys r.2).map (r.1 :: ·)

/-! ### What is written is read -/

theorem after_append (p t : Text) : after p (p ++ t) = some t := by
  induction p with
  | nil => rfl
  | cons c p ih =>
    show (if c = c then after p (p ++ t) else none) = some t
    rw [if_pos rfl, ih]

theorem readBody_next {n : ℕ} {t : Text} (h : ∀ rest, t ≠ '"' :: rest) :
    readBody (n + 1) t = (next t).bind fun e => (readBody n e.2).map fun r => (e.1 :: r.1, r.2) := by
  rw [readBody]
  exact fun rest hrest => h rest hrest

theorem readBody_append (t rest : Text) :
    ∀ n, t.length < n → readBody n (t.flatMap escape ++ '"' :: rest) = some (t, rest) := by
  induction t with
  | nil =>
    intro n hn
    obtain ⟨n, rfl⟩ := Nat.exists_eq_succ_of_ne_zero (Nat.ne_of_gt (Nat.lt_of_le_of_lt (Nat.zero_le _) hn))
    rfl
  | cons c t ih =>
    intro n hn
    obtain ⟨n, rfl⟩ := Nat.exists_eq_succ_of_ne_zero (Nat.ne_of_gt (Nat.lt_of_le_of_lt (Nat.zero_le _) hn))
    have hrest := ih n (Nat.lt_of_succ_lt_succ hn)
    rw [List.flatMap_cons, List.append_assoc, readBody_next (escape_ne_quote c _), next_escape,
      Option.bind_some, hrest]
    rfl

theorem length_le_escape (c : Char) : 1 ≤ (escape c).length := by
  unfold escape
  split
  · simp
  · split
    · simp
    · split <;> simp [codeUnit]

theorem length_le_flatMap_escape (t : Text) : t.length ≤ (t.flatMap escape).length := by
  induction t with
  | nil => simp
  | cons c t ih =>
    have hc := length_le_escape c
    rw [List.flatMap_cons, List.length_append, List.length_cons]
    omega

/-- A text that no number goes on with. -/
def Ends (t : Text) : Prop := t.takeWhile Char.isDigit = []

theorem readNat_append (n : ℕ) {rest : Text} (h : Ends rest) : readNat (digits n ++ rest) = (n, rest) := by
  have hall : ∀ c ∈ digits n, c.isDigit = true := fun c hc =>
    Nat.isDigit_of_mem_toDigits (by decide) (by decide) hc
  have hdrop : rest.dropWhile Char.isDigit = rest := by
    have hsplit := List.takeWhile_append_dropWhile (p := Char.isDigit) (l := rest)
    rw [h, List.nil_append] at hsplit
    exact hsplit
  unfold readNat
  rw [List.takeWhile_append_of_pos hall, List.dropWhile_append_of_pos hall, h, hdrop, List.append_nil]
  exact congrArg (·, rest) Nat.ofDigitChars_ten_toDigits

theorem readScalar_digits (n : ℕ) {rest : Text} (h : Ends rest) :
    readScalar (digits n ++ rest) = some (.int n, rest) := by
  have hread := readNat_append n h
  have hfirst : ∀ c cs, digits n ++ rest = c :: cs → c.isDigit = true := by
    intro c cs hcs
    cases hd : digits n with
    | nil =>
      have hpos := Nat.length_toDigits_pos (b := 10) (n := n)
      rw [show Nat.toDigits 10 n = digits n from rfl, hd] at hpos
      cases hpos
    | cons d ds =>
      rw [hd, List.cons_append, List.cons.injEq] at hcs
      refine Nat.isDigit_of_mem_toDigits (b := 10) (n := n) (by decide) (by decide) ?_
      rw [← hcs.1]
      show d ∈ digits n
      rw [hd]
      exact List.mem_cons_self
  rw [readScalar, hread]
  · intro r hr
    exact absurd (hfirst _ _ hr) (by decide)
  · intro r hr
    exact absurd (hfirst _ _ hr) (by decide)
  · intro r hr
    exact absurd (hfirst _ _ hr) (by decide)

theorem readScalar_append (v : Scalar) {rest : Text} (h : Ends rest) : readScalar (v.text ++ rest) = some (v, rest) := by
  cases v with
  | str t =>
    have hbody : (Scalar.str t).text ++ rest = '"' :: (t.flatMap escape ++ '"' :: rest) := by
      simp only [Scalar.text, quoted, List.cons_append, List.append_assoc, List.nil_append]
    have hlength : t.length < (t.flatMap escape ++ '"' :: rest).length + 1 := by
      have hle := length_le_flatMap_escape t
      rw [List.length_append]
      omega
    rw [hbody, readScalar, readBody_append t rest _ hlength]
    rfl
  | int n =>
    cases n with
    | ofNat n => exact readScalar_digits n h
    | negSucc n =>
      show some (Scalar.int (-(readNat (digits (n + 1) ++ rest)).1), (readNat (digits (n + 1) ++ rest)).2) = _
      rw [readNat_append (n + 1) h]
      rfl
  | null => rfl

theorem ends_fieldsText (fields : List (Text × Scalar)) : Ends (fieldsText fields) := by
  cases fields <;> rfl

theorem readFields_fieldsText (fields : List (Text × Scalar)) :
    readFields (fields.map Prod.fst) (fieldsText fields) = some (fields.map Prod.snd) := by
  induction fields with
  | nil => rfl
  | cons field fields ih =>
    obtain ⟨key, value⟩ := field
    have htext : fieldsText ((key, value) :: fields) =
        (",\n  ".toList ++ quoted key ++ ": ".toList) ++ (value.text ++ fieldsText fields) :=
      List.append_assoc _ _ _
    rw [htext, List.map_cons, readFields, after_append, Option.bind_some,
      readScalar_append value (ends_fieldsText fields), Option.bind_some, ih]
    rfl

/-- **What is written is read back.** -/
theorem reads_dumps (fields : List (Text × Scalar)) :
    reads (fields.map Prod.fst) (dumps fields) = some (fields.map Prod.snd) := by
  cases fields with
  | nil => rfl
  | cons field fields =>
    obtain ⟨key, value⟩ := field
    have htext : dumps ((key, value) :: fields) =
        ("\x7b\n  ".toList ++ quoted key ++ ": ".toList) ++ (value.text ++ fieldsText fields) :=
      List.append_assoc _ _ _
    rw [htext, List.map_cons, reads, after_append, Option.bind_some,
      readScalar_append value (ends_fieldsText fields), Option.bind_some, readFields_fieldsText]
    rfl

/-! ### Its bytes -/

/-- The bytes of an ASCII text. -/
def ascii (t : Text) : List UInt8 := t.map fun c => UInt8.ofNat c.toNat

/-- The text of bytes that are all ASCII. -/
def ofAscii (b : List UInt8) : Option Text :=
  if b.all (· < 128) then some (b.map fun x => Char.ofNat x.toNat) else none

def IsAscii (t : Text) : Prop := ∀ c ∈ t, c.toNat < 128

theorem ofAscii_ascii {t : Text} (h : IsAscii t) : ofAscii (ascii t) = some t := by
  have hbyte : ∀ c ∈ t, (UInt8.ofNat c.toNat).toNat = c.toNat := by
    intro c hc
    have hlt := h c hc
    rw [UInt8.toNat_ofNat']
    omega
  unfold ofAscii ascii
  rw [if_pos, List.map_map]
  · refine congrArg some ?_
    calc t.map _ = t.map id := List.map_congr_left fun c hc => by
          rw [Function.comp_apply, hbyte c hc, Char.ofNat_toNat, id]
      _ = t := List.map_id t
  · rw [List.all_map, List.all_eq_true]
    intro c hc
    rw [Function.comp_apply, decide_eq_true_eq, UInt8.lt_iff_toNat_lt, hbyte c hc]
    exact h c hc

theorem isAscii_append {t t' : Text} (h : IsAscii t) (h' : IsAscii t') : IsAscii (t ++ t') := by
  intro c hc
  rcases List.mem_append.mp hc with hc | hc
  · exact h c hc
  · exact h' c hc

theorem isAscii_codeUnit (n : ℕ) : IsAscii (codeUnit n) := by
  have hall : ∀ n : Fin 16, (hexDigit n).toNat < 128 := by decide
  have hdigit : ∀ n, (hexDigit (n % 16)).toNat < 128 := fun n => hall ⟨n % 16, Nat.mod_lt _ (by decide)⟩
  intro c hc
  simp only [codeUnit, hex4, List.mem_cons, List.not_mem_nil, or_false] at hc
  rcases hc with rfl | rfl | rfl | rfl | rfl | rfl
  · decide
  · decide
  all_goals exact hdigit _

theorem isAscii_escape (c : Char) : IsAscii (escape c) := by
  unfold escape
  split
  · rename_i letter hlookup
    have hall : ∀ e ∈ shortEscapes, e.2.toNat < 128 := by decide
    obtain ⟨before, rest, heq, -⟩ := List.lookup_eq_some_iff.mp hlookup
    intro d hd
    rcases List.mem_cons.mp hd with rfl | hd
    · decide
    · rw [List.mem_singleton] at hd
      rw [hd]
      exact hall (c, letter) (by rw [heq]; simp)
  · split
    · rename_i hprint
      intro d hd
      rw [List.mem_singleton] at hd
      rw [hd]
      omega
    · split
      · exact isAscii_codeUnit _
      · exact isAscii_append (isAscii_codeUnit _) (isAscii_codeUnit _)

theorem isAscii_quoted (t : Text) : IsAscii (quoted t) := by
  intro c hc
  rcases List.mem_cons.mp hc with rfl | hc
  · decide
  · rcases List.mem_append.mp hc with hc | hc
    · obtain ⟨d, -, hd⟩ := List.mem_flatMap.mp hc
      exact isAscii_escape d c hd
    · rw [List.mem_singleton] at hc
      rw [hc]
      decide

theorem isAscii_digits (n : ℕ) : IsAscii (digits n) := by
  intro c hc
  have hdigit := Nat.isDigit_of_mem_toDigits (by decide) (by decide) hc
  rw [isDigit_iff] at hdigit
  omega

theorem isAscii_scalar (v : Scalar) : IsAscii v.text := by
  cases v with
  | str t => exact isAscii_quoted t
  | int n =>
    cases n with
    | ofNat n => exact isAscii_digits n
    | negSucc n =>
      intro c hc
      rcases List.mem_cons.mp hc with rfl | hc
      · decide
      · exact isAscii_digits _ c hc
  | null =>
    show ∀ c ∈ "null".toList, c.toNat < 128
    decide

theorem isAscii_field {before : Text} (h : IsAscii before) (key : Text) (value : Scalar) {rest : Text}
    (hrest : IsAscii rest) : IsAscii (before ++ quoted key ++ ": ".toList ++ value.text ++ rest) := by
  refine isAscii_append (isAscii_append (isAscii_append (isAscii_append h (isAscii_quoted key)) ?_)
    (isAscii_scalar value)) hrest
  show ∀ c ∈ ": ".toList, c.toNat < 128
  decide

theorem isAscii_fieldsText (fields : List (Text × Scalar)) : IsAscii (fieldsText fields) := by
  induction fields with
  | nil =>
    show ∀ c ∈ "\n\x7d".toList, c.toNat < 128
    decide
  | cons field fields ih =>
    refine isAscii_field ?_ field.1 field.2 ih
    show ∀ c ∈ ",\n  ".toList, c.toNat < 128
    decide

theorem isAscii_dumps (fields : List (Text × Scalar)) : IsAscii (dumps fields) := by
  cases fields with
  | nil =>
    show ∀ c ∈ "\x7b\x7d".toList, c.toNat < 128
    decide
  | cons field fields =>
    refine isAscii_field ?_ field.1 field.2 (isAscii_fieldsText fields)
    show ∀ c ∈ "\x7b\n  ".toList, c.toNat < 128
    decide

end JsonObject
