/-
JSON strings as `json.dumps` writes them.

Everything outside the printable ASCII characters is escaped, a character beyond the basic
plane as a pair of surrogates.  What makes a written text readable is that no escape is the
beginning of another: `next` reads one character back (`next_escape`), so a string is read
back whole, whatever follows it (`quoted_unique`).
-/
import CyClaw.Lib.PyText
import Mathlib.Data.Nat.Notation

namespace JsonText

/-- The digit of a number below sixteen. -/
def hexDigit (n : ℕ) : Char := "0123456789abcdef".toList.getD n '0'

def hexValue (c : Char) : ℕ := "0123456789abcdef".toList.idxOf c

/-- A number below `2 ^ 16` in four digits. -/
def hex4 (n : ℕ) : List Char :=
  [hexDigit (n / 4096 % 16), hexDigit (n / 256 % 16), hexDigit (n / 16 % 16), hexDigit (n % 16)]

def ofHex4 (a b c d : Char) : ℕ := hexValue a * 4096 + hexValue b * 256 + hexValue c * 16 + hexValue d

def codeUnit (n : ℕ) : List Char := '\\' :: 'u' :: hex4 n

/-- The escapes that have a letter of their own. -/
def shortEscapes : List (Char × Char) :=
  [('"', '"'), ('\\', '\\'), ('\n', 'n'), ('\r', 'r'), ('\t', 't'), ('\x08', 'b'), ('\x0c', 'f')]

def escape (c : Char) : List Char :=
  match shortEscapes.lookup c with
  | some letter => ['\\', letter]
  | none =>
      if 0x20 ≤ c.toNat ∧ c.toNat ≤ 0x7e then [c]
      else if c.toNat < 0x10000 then codeUnit c.toNat
      else codeUnit (0xd800 + (c.toNat - 0x10000) / 0x400) ++ codeUnit (0xdc00 + (c.toNat - 0x10000) % 0x400)

def quoted (t : List Char) : List Char := '"' :: t.flatMap escape ++ ['"']

/-! ### Reading back -/

/-- Read the second half of a pair of surrogates. -/
def lowHalf (high : ℕ) : List Char → Option (Char × List Char)
  | '\\' :: 'u' :: a :: b :: c :: d :: rest =>
      some (Char.ofNat (0x10000 + (high - 0xd800) * 0x400 + (ofHex4 a b c d - 0xdc00)), rest)
  | _ => none

/-- Read one character. -/
def next : List Char → Option (Char × List Char)
  | '\\' :: 'u' :: a :: b :: c :: d :: rest =>
      if 0xd800 ≤ ofHex4 a b c d ∧ ofHex4 a b c d < 0xdc00 then lowHalf (ofHex4 a b c d) rest
      else some (Char.ofNat (ofHex4 a b c d), rest)
  | '\\' :: letter :: rest => ((shortEscapes.find? (·.2 = letter)).map (·.1)).map fun c => (c, rest)
  | c :: rest => some (c, rest)
  | [] => none

theorem hexValue_hexDigit {n : ℕ} (h : n < 16) : hexValue (hexDigit n) = n := by
  have hall : ∀ n : Fin 16, hexValue (hexDigit n) = n := by decide
  exact hall ⟨n, h⟩

theorem ofHex4_hex4 {n : ℕ} (h : n < 0x10000) :
    ofHex4 (hexDigit (n / 4096 % 16)) (hexDigit (n / 256 % 16)) (hexDigit (n / 16 % 16)) (hexDigit (n % 16)) = n := by
  unfold ofHex4
  rw [hexValue_hexDigit (Nat.mod_lt _ (by decide)), hexValue_hexDigit (Nat.mod_lt _ (by decide)),
    hexValue_hexDigit (Nat.mod_lt _ (by decide)), hexValue_hexDigit (Nat.mod_lt _ (by decide))]
  omega

theorem toNat_lt (c : Char) : c.toNat < 0x110000 := by
  rcases c.valid with h | h
  · exact Nat.lt_trans h (by decide)
  · exact h.2

theorem not_surrogate (c : Char) : ¬ (0xd800 ≤ c.toNat ∧ c.toNat < 0xdc00) := by
  intro hc
  rcases c.valid with h | h
  · exact absurd h (Nat.not_lt.mpr hc.1)
  · have hlow : 0xdfff < c.toNat := h.1
    omega

/-- **An escape reads back as its character**, whatever follows. -/
theorem next_escape (c : Char) (rest : List Char) : next (escape c ++ rest) = some (c, rest) := by
  unfold escape
  split
  · rename_i letter hlookup
    have hall : ∀ e ∈ shortEscapes, next (['\\', e.2] ++ rest) = some (e.1, rest) := by
      intro e he
      simp only [shortEscapes, List.mem_cons, List.not_mem_nil, or_false] at he
      rcases he with rfl | rfl | rfl | rfl | rfl | rfl | rfl <;> rfl
    obtain ⟨before, after, heq, -⟩ := List.lookup_eq_some_iff.mp hlookup
    exact hall (c, letter) (by rw [heq]; simp)
  · rename_i hlookup
    split
    · -- A character that stands for itself is not the backslash.
      have hne : c ≠ '\\' := by
        rintro rfl
        cases hlookup
      rw [List.singleton_append]
      unfold next
      split <;> simp_all
    · split
      · rename_i hlt
        show next ('\\' :: 'u' :: hexDigit _ :: hexDigit _ :: hexDigit _ :: hexDigit _ :: rest) = _
        rw [next, ofHex4_hex4 hlt, if_neg (not_surrogate c), Char.ofNat_toNat]
      · rename_i hge
        have hlt := toNat_lt c
        show next ('\\' :: 'u' :: hexDigit _ :: hexDigit _ :: hexDigit _ :: hexDigit _ ::
          '\\' :: 'u' :: hexDigit _ :: hexDigit _ :: hexDigit _ :: hexDigit _ :: rest) = _
        have hhigh : 0xd800 + (c.toNat - 0x10000) / 0x400 < 0x10000 := by omega
        have hlow : 0xdc00 + (c.toNat - 0x10000) % 0x400 < 0x10000 := by omega
        rw [next, ofHex4_hex4 hhigh, if_pos (by omega), lowHalf, ofHex4_hex4 hlow]
        have hvalue : 0x10000 + (0xd800 + (c.toNat - 0x10000) / 0x400 - 0xd800) * 0x400 +
            (0xdc00 + (c.toNat - 0x10000) % 0x400 - 0xdc00) = c.toNat := by omega
        rw [hvalue, Char.ofNat_toNat]

theorem escape_ne_quote (c : Char) (rest rest' : List Char) : escape c ++ rest ≠ '"' :: rest' := by
  intro h
  have hquote : next ('"' :: rest') = some ('"', rest') := rfl
  rw [← h, next_escape, Option.some.injEq, Prod.mk.injEq] at hquote
  rw [hquote.1] at h
  cases h

theorem flatMap_escape_unique {t t' x y : List Char}
    (h : t.flatMap escape ++ '"' :: x = t'.flatMap escape ++ '"' :: y) : t = t' ∧ x = y := by
  induction t generalizing t' with
  | nil =>
      cases t' with
      | nil => exact ⟨rfl, (List.cons.inj h).2⟩
      | cons d ds =>
          rw [List.flatMap_cons, List.append_assoc] at h
          exact absurd h.symm (escape_ne_quote d _ _)
  | cons c cs ih =>
      cases t' with
      | nil =>
          rw [List.flatMap_cons, List.append_assoc] at h
          exact absurd h (escape_ne_quote c _ _)
      | cons d ds =>
          rw [List.flatMap_cons, List.flatMap_cons, List.append_assoc, List.append_assoc] at h
          have hnext := next_escape c (cs.flatMap escape ++ '"' :: x)
          rw [h, next_escape, Option.some.injEq, Prod.mk.injEq] at hnext
          obtain ⟨hcs, hxy⟩ := ih hnext.2.symm
          exact ⟨by rw [hnext.1, hcs], hxy⟩

/-- **A written string is read back in one way only**, whatever follows it. -/
theorem quoted_unique {t t' x y : List Char} (h : quoted t ++ x = quoted t' ++ y) : t = t' ∧ x = y := by
  refine flatMap_escape_unique ?_
  simpa [quoted] using h

end JsonText
