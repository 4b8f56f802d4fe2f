/-
Python strings as lists of characters.

The operations here are the `str` methods and slices the modelled code uses, each
defined on `List Char` so that it computes and so that the list library proves things
about it.  A Python string may hold a lone surrogate and a Lean character cannot; no
other string is left out.
-/
import Mathlib.Data.List.Basic
import Mathlib.Data.List.DropRight
import Mathlib.Data.List.Infix

namespace PyText

/-- What holds of the characters of a text is decided by going through the text, not through all
characters there are. -/
instance (priority := 2000) decidableText (p : Char → Prop) [DecidablePred p] (t : List Char) :
    Decidable (∀ c, c ∈ t → p c) :=
  List.decidableBAll p t

/-- Texts are equal when a comparison by characters says so. -/
instance lawfulText : LawfulBEq (List Char) := inferInstance

/-- `str.isspace` of one character. -/
def isSpace (c : Char) : Bool :=
  let n := c.toNat
  (9 ≤ n && n ≤ 13) || (28 ≤ n && n ≤ 32) || n == 0x85 || n == 0xA0 || n == 0x1680 ||
    (0x2000 ≤ n && n ≤ 0x200A) || n == 0x2028 || n == 0x2029 || n == 0x202F || n == 0x205F ||
    n == 0x3000

/-- Remove the characters satisfying `p` from the right end. -/
def rstripBy (p : Char → Bool) (t : List Char) : List Char := (t.reverse.dropWhile p).reverse

/-- Remove the characters satisfying `p` from both ends. -/
def stripBy (p : Char → Bool) (t : List Char) : List Char := rstripBy p (t.dropWhile p)

/-- `t.strip()`. -/
def strip (t : List Char) : List Char := stripBy isSpace t

/-- `p in t`. -/
def contains (p : List Char) : List Char → Bool
  | [] => p.isEmpty
  | c :: cs => p.isPrefixOf (c :: cs) || contains p cs

/-- `t.find(p)`: what stands before the first occurrence of `p`, and what follows it. -/
def splitAt? (p : List Char) : List Char → Option (List Char × List Char)
  | [] => if p.isEmpty then some ([], []) else none
  | c :: cs =>
      if p.isPrefixOf (c :: cs) then some ([], (c :: cs).drop p.length)
      else (splitAt? p cs).map fun (a, b) => (c :: a, b)

/-- `t.split()`. -/
def split (t : List Char) : List (List Char) := (t.splitOnP isSpace).filter (· ≠ [])

/-- `t.replace(p, q)` for a `p` that is not empty: the part still to skip belongs to the
occurrence just replaced. -/
def replaceFrom (p q : List Char) : ℕ → List Char → List Char
  | _, [] => []
  | skip + 1, _ :: cs => replaceFrom p q skip cs
  | 0, c :: cs =>
      if p.isPrefixOf (c :: cs) then q ++ replaceFrom p q (p.length - 1) cs
      else c :: replaceFrom p q 0 cs

def replace (p q t : List Char) : List Char := replaceFrom p q 0 t

/-- `t.encode("utf-8")`. -/
def encode (t : List Char) : List UInt8 := t.flatMap String.utf8EncodeChar

/-- `b.decode("utf-8")`, `none` where the bytes are no UTF-8. -/
def decode (b : List UInt8) : Option (List Char) := b.toByteArray.utf8Decode?.map Array.toList

/-- `re.match(r"^[A-Za-z0-9][A-Za-z0-9_.-]*$", t)`; a line break at the end passes the `$`. -/
def isSlug (t : List Char) : Bool :=
  match if ['\n'].isSuffixOf t then t.dropLast else t with
  | c :: cs => c.isAlphanum && cs.all fun c => c.isAlphanum || c = '_' || c = '.' || c = '-'
  | [] => false

theorem decode_encode (t : List Char) : decode (encode t) = some t := by
  have h := @List.utf8Decode?_utf8Encode t
  rw [List.utf8Encode] at h
  rw [decode, encode, h]
  simp

theorem encode_injective : Function.Injective encode := by
  intro t t' h
  rw [← Option.some.injEq, ← decode_encode t, h, decode_encode]

theorem contains_iff {p t : List Char} : contains p t = true ↔ p <:+: t := by
  induction t with
  | nil => simp [contains]
  | cons c cs ih =>
      rw [contains, Bool.or_eq_true, ih, List.isPrefixOf_iff_prefix, List.infix_cons_iff]

theorem splitAt?_eq {p t a b : List Char} (h : splitAt? p t = some (a, b)) :
    t = a ++ p ++ b := by
  induction t generalizing a b with
  | nil =>
      unfold splitAt? at h
      split at h
      · rename_i hp
        simp only [List.isEmpty_iff] at hp
        simp_all
      · simp at h
  | cons c cs ih =>
      unfold splitAt? at h
      split at h
      · rename_i hp
        obtain ⟨rest, hrest⟩ := List.isPrefixOf_iff_prefix.mp hp
        simp only [Option.some.injEq, Prod.mk.injEq] at h
        obtain ⟨rfl, rfl⟩ := h
        rw [← hrest, List.drop_left, List.nil_append]
      · simp only [Option.map_eq_some_iff, Prod.exists, Prod.mk.injEq] at h
        obtain ⟨a', b', hab, rfl, rfl⟩ := h
        rw [ih hab]
        simp

theorem length_splitAt?_lt {p t a b : List Char} (h : splitAt? p t = some (a, b))
    (hp : p ≠ []) : b.length < t.length := by
  have hlen : 0 < p.length := List.length_pos_iff.mpr hp
  rw [splitAt?_eq h]
  simp only [List.length_append]
  omega

theorem infix_intercalate {sep p : List Char} {ps : List (List Char)} (h : p ∈ ps) :
    p <:+: sep.intercalate ps := by
  induction ps with
  | nil => cases h
  | cons q qs ih =>
      cases qs with
      | nil =>
          rw [List.mem_singleton.mp h, List.intercalate_singleton]
      | cons r rs =>
          rw [List.intercalate_cons_cons]
          rcases List.mem_cons.mp h with rfl | h
          · exact ((List.prefix_append p sep).trans (List.prefix_append _ _)).isInfix
          · exact (ih h).trans (List.suffix_append _ _).isInfix

theorem mem_intercalate {sep : List Char} {ps : List (List Char)} {c : Char} (h : c ∈ sep.intercalate ps) :
    c ∈ sep ∨ ∃ p ∈ ps, c ∈ p := by
  induction ps with
  | nil => cases h
  | cons p ps ih =>
      cases ps with
      | nil => exact .inr ⟨p, List.mem_cons_self, by simpa using h⟩
      | cons q qs =>
          rw [List.intercalate_cons_cons] at h
          rcases List.mem_append.mp h with h | h
          · rcases List.mem_append.mp h with h | h
            · exact .inr ⟨p, List.mem_cons_self, h⟩
            · exact .inl h
          · rcases ih h with h | ⟨r, hr, hc⟩
            · exact .inl h
            · exact .inr ⟨r, List.mem_cons_of_mem p hr, hc⟩

/-- The pieces put together are the text without the separators. -/
theorem flatten_splitOnP (q : Char → Bool) (t : List Char) : (t.splitOnP q).flatten = t.filter fun c => !q c := by
  induction t with
  | nil => simp
  | cons c t ih =>
      rw [List.splitOnP_cons_eq_if_modifyHead, List.filter_cons]
      by_cases hc : q c = true
      · simpa [hc] using ih
      · cases hrest : t.splitOnP q with
        | nil => exact absurd hrest (List.splitOnP_ne_nil q t)
        | cons p ps =>
            rw [hrest] at ih
            simpa [hc] using ih

/-- A piece of a split is made of characters at which it is not split. -/
theorem mem_splitOnP {q : Char → Bool} {c : Char} {t p : List Char} (hp : p ∈ t.splitOnP q) (hc : c ∈ p) :
    c ∈ t ∧ q c = false := by
  induction t generalizing p with
  | nil =>
      rw [List.splitOnP_nil, List.mem_singleton] at hp
      rw [hp] at hc
      cases hc
  | cons d ds ih =>
      rw [List.splitOnP_cons_eq_if_modifyHead] at hp
      split at hp
      · rcases List.mem_cons.mp hp with rfl | hp
        · cases hc
        · exact ⟨List.mem_cons_of_mem d (ih hp hc).1, (ih hp hc).2⟩
      · rename_i hd
        -- The character joins the first piece of what follows.
        cases hrest : ds.splitOnP q with
        | nil =>
            rw [hrest, List.modifyHead_nil] at hp
            cases hp
        | cons r rs =>
            rw [hrest, List.modifyHead_cons] at hp
            rw [hrest] at ih
            rcases List.mem_cons.mp hp with rfl | hp
            · rcases List.mem_cons.mp hc with rfl | hc
              · exact ⟨List.mem_cons_self, by simpa using hd⟩
              · have hr := ih List.mem_cons_self hc
                exact ⟨List.mem_cons_of_mem d hr.1, hr.2⟩
            · have hr := ih (List.mem_cons_of_mem r hp) hc
              exact ⟨List.mem_cons_of_mem d hr.1, hr.2⟩

/-- A piece of a split is made of characters other than the separator. -/
theorem mem_splitOn {sep c : Char} {t p : List Char} (hp : p ∈ t.splitOn sep) (hc : c ∈ p) :
    c ∈ t ∧ c ≠ sep := by
  rw [List.splitOn_eq_splitOnP] at hp
  obtain ⟨hmem, hsep⟩ := mem_splitOnP hp hc
  exact ⟨hmem, by simpa using hsep⟩

theorem mem_split {t w : List Char} (h : w ∈ split t) : w ≠ [] ∧ ∀ c ∈ w, isSpace c = false := by
  obtain ⟨hmem, hne⟩ := List.mem_filter.mp h
  exact ⟨by simpa using hne, fun c hc => (mem_splitOnP hmem hc).2⟩

/-- `" ".join(ws).split()` -/
theorem split_intercalate {ws : List (List Char)} (h : ∀ w ∈ ws, w ≠ [] ∧ ∀ c ∈ w, isSpace c = false) :
    split ([' '].intercalate ws) = ws := by
  induction ws with
  | nil => rfl
  | cons w ws ih =>
      obtain ⟨hw, hspace⟩ := h w List.mem_cons_self
      have hws : ∀ w ∈ ws, w ≠ [] ∧ ∀ c ∈ w, isSpace c = false := fun w' hw' => h w' (List.mem_cons_of_mem w hw')
      cases ws with
      | nil =>
          rw [List.intercalate_singleton, split, List.splitOnP_eq_singleton hspace]
          simp [hw]
      | cons w' ws =>
          have hrest := ih hws
          rw [split] at hrest
          rw [List.intercalate_cons_cons, split, List.append_assoc, List.singleton_append,
            List.splitOnP_append_cons_of_forall_mem hspace ' ' rfl, List.filter_cons_of_pos (by simpa using hw), hrest]

theorem dropWhile_prefix_eq {p : Char → Bool} {t t' : List Char} (h : t.dropWhile p = t) (hp : t' <+: t) :
    t'.dropWhile p = t' := by
  obtain ⟨rest, rfl⟩ := hp
  cases t' with
  | nil => rfl
  | cons c cs =>
      have hc : ¬ p c = true := List.dropWhile_eq_self_iff.mp h (Nat.succ_pos _)
      rw [List.dropWhile_cons, if_neg hc]

theorem stripBy_stripBy (p : Char → Bool) (t : List Char) : stripBy p (stripBy p t) = stripBy p t := by
  show List.rdropWhile p ((List.rdropWhile p (t.dropWhile p)).dropWhile p) = List.rdropWhile p (t.dropWhile p)
  rw [dropWhile_prefix_eq (List.dropWhile_idempotent p t) (List.rdropWhile_prefix p _), List.rdropWhile_idempotent]

theorem mem_of_mem_rstripBy {p : Char → Bool} {t : List Char} {c : Char} (h : c ∈ rstripBy p t) : c ∈ t :=
  List.mem_reverse.mp ((List.dropWhile_suffix p).subset (List.mem_reverse.mp h))

theorem rstripBy_append (p : Char → Bool) (l r : List Char) :
    rstripBy p (l ++ r) = if rstripBy p r = [] then rstripBy p l else l ++ rstripBy p r := by
  unfold rstripBy
  rw [List.reverse_append, List.dropWhile_append]
  by_cases h : r.reverse.dropWhile p = []
  · rw [if_pos (List.isEmpty_iff.mpr h), if_pos (List.reverse_eq_nil_iff.mpr h)]
  · rw [if_neg (mt List.isEmpty_iff.mp h), if_neg (mt List.reverse_eq_nil_iff.mp h), List.reverse_append, List.reverse_reverse]

/-- Stripping from the right stops at a character that is kept. -/
theorem rstripBy_append_cons {p : Char → Bool} {c : Char} (hc : p c = false) (l r : List Char) :
    rstripBy p (l ++ c :: r) = l ++ c :: rstripBy p r := by
  have hlast : rstripBy p [c] = [c] := List.rdropWhile_singleton p c |>.trans (if_neg (by rw [hc]; exact Bool.false_ne_true))
  have hcut : rstripBy p (c :: r) = c :: rstripBy p r := by
    rw [← List.singleton_append, rstripBy_append]
    split
    · rename_i hr
      rw [hlast, hr]
    · rfl
  rw [rstripBy_append, hcut, if_neg (List.cons_ne_nil c _)]

theorem mem_of_mem_strip {t : List Char} {c : Char} (h : c ∈ strip t) : c ∈ t :=
  (List.dropWhile_suffix isSpace).subset (mem_of_mem_rstripBy h)

/-- Dropping from the left stops at a character that is kept. -/
theorem dropWhile_append_cons {p : Char → Bool} {c : Char} (hc : p c = false) (x y : List Char) :
    ∃ x', (x ++ c :: y).dropWhile p = x' ++ c :: y := by
  induction x with
  | nil => exact ⟨[], by simp [hc]⟩
  | cons b x ih =>
      rw [List.cons_append, List.dropWhile_cons]
      split
      · exact ih
      · exact ⟨b :: x, rfl⟩

/-- A part that begins and ends in characters that are no spaces is left by `strip`. -/
theorem strip_append {a c : Char} (ha : isSpace a = false) (hc : isSpace c = false) (x y z : List Char) :
    ∃ x' z', strip (x ++ (a :: (y ++ [c]) ++ z)) = x' ++ (a :: (y ++ [c]) ++ z') := by
  obtain ⟨x', hx'⟩ := dropWhile_append_cons ha x (y ++ [c] ++ z)
  obtain ⟨z', hz'⟩ := dropWhile_append_cons hc z.reverse (y.reverse ++ a :: x'.reverse)
  refine ⟨x', z'.reverse, ?_⟩
  have hrev : (x' ++ a :: (y ++ [c] ++ z)).reverse = z.reverse ++ c :: (y.reverse ++ a :: x'.reverse) := by simp
  rw [strip, stripBy, rstripBy, List.cons_append, hx', hrev, hz']
  simp

/-- A text is what `strip` leaves of it between what it takes. -/
theorem exists_strip (t : List Char) : ∃ x z, t = x ++ (strip t ++ z) := by
  obtain ⟨x, hx⟩ := List.dropWhile_suffix (l := t) isSpace
  obtain ⟨z, hz⟩ := List.dropWhile_suffix (l := (t.dropWhile isSpace).reverse) isSpace
  refine ⟨x, z.reverse, ?_⟩
  have hrev := congrArg List.reverse hz
  rw [List.reverse_append, List.reverse_reverse] at hrev
  rw [strip, stripBy, rstripBy, hrev, hx]

theorem isSpace_of_strip_eq_nil {t : List Char} (h : strip t = []) : ∀ c ∈ t, isSpace c = true := by
  intro c hc
  by_contra hspace
  rw [Bool.not_eq_true] at hspace
  obtain ⟨x, z, rfl⟩ := List.append_of_mem hc
  obtain ⟨x', hx'⟩ := dropWhile_append_cons hspace x z
  obtain ⟨z', hz'⟩ := dropWhile_append_cons hspace z.reverse x'.reverse
  have hrev : (x' ++ c :: z).reverse = z.reverse ++ c :: x'.reverse := by simp
  rw [strip, stripBy, rstripBy, hx', hrev, hz'] at h
  simp at h

@[simp] theorem strip_strip (t : List Char) : strip (strip t) = strip t := stripBy_stripBy isSpace t

/-- A text that neither begins nor ends with what is stripped. -/
theorem stripBy_eq_self {p : Char → Bool} {t : List Char} (hfirst : ∀ c, t.head? = some c → p c = false)
    (hlast : ∀ c, t.getLast? = some c → p c = false) : stripBy p t = t := by
  have hleft : t.dropWhile p = t := by
    cases t with
    | nil => rfl
    | cons c cs => rw [List.dropWhile_cons, hfirst c rfl, if_neg Bool.false_ne_true]
  show List.rdropWhile p (t.dropWhile p) = t
  rw [hleft]
  refine List.rdropWhile_eq_self_iff.mpr fun hne => ?_
  rw [hlast _ (List.getLast?_eq_some_getLast hne)]
  exact Bool.false_ne_true

theorem strip_eq_self {t : List Char} (hfirst : ∀ c, t.head? = some c → isSpace c = false)
    (hlast : ∀ c, t.getLast? = some c → isSpace c = false) : strip t = t :=
  stripBy_eq_self hfirst hlast

theorem strip_last {t : List Char} {c : Char} (h : (strip t).getLast? = some c) : isSpace c = false := by
  have hne : strip t ≠ [] := by
    intro hnil
    rw [hnil] at h
    cases h
  have hlast := List.rdropWhile_last_not isSpace (t.dropWhile isSpace) hne
  rw [List.getLast?_eq_some_getLast hne, Option.some.injEq] at h
  rw [← h]
  exact Bool.not_eq_true _ ▸ hlast

/-! ### ASCII letters and digits -/

theorem isUpper_iff {c : Char} : c.isUpper = true ↔ 65 ≤ c.toNat ∧ c.toNat ≤ 90 := by
  unfold Char.isUpper
  rw [decide_eq_true_eq, ge_iff_le, UInt32.le_iff_toNat_le, UInt32.le_iff_toNat_le]
  exact Iff.rfl

theorem isLower_iff {c : Char} : c.isLower = true ↔ 97 ≤ c.toNat ∧ c.toNat ≤ 122 := by
  unfold Char.isLower
  rw [Bool.and_eq_true, decide_eq_true_eq, decide_eq_true_eq, ge_iff_le, UInt32.le_iff_toNat_le, UInt32.le_iff_toNat_le]
  exact Iff.rfl

theorem isDigit_iff {c : Char} : c.isDigit = true ↔ 48 ≤ c.toNat ∧ c.toNat ≤ 57 := by
  unfold Char.isDigit
  rw [Bool.and_eq_true, decide_eq_true_eq, decide_eq_true_eq, ge_iff_le, UInt32.le_iff_toNat_le, UInt32.le_iff_toNat_le]
  exact Iff.rfl

theorem isAlpha_iff {c : Char} : c.isAlpha = true ↔ 65 ≤ c.toNat ∧ c.toNat ≤ 90 ∨ 97 ≤ c.toNat ∧ c.toNat ≤ 122 := by
  unfold Char.isAlpha
  rw [Bool.or_eq_true, isUpper_iff, isLower_iff]

theorem toNat_toLower (c : Char) : c.toLower.toNat = if 65 ≤ c.toNat ∧ c.toNat ≤ 90 then c.toNat + 32 else c.toNat := by
  unfold Char.toLower
  split
  · rename_i h
    rw [ge_iff_le, UInt32.le_iff_toNat_le, UInt32.le_iff_toNat_le] at h
    have hlast : c.toNat ≤ 90 := h.2
    rw [if_pos ⟨h.1, hlast⟩]
    show (c.val + ('a'.val - 'A'.val)).toNat = c.val.toNat + 32
    rw [UInt32.toNat_add]
    exact Nat.mod_eq_of_lt (by show c.toNat + 32 < 2 ^ 32; omega)
  · rename_i h
    rw [ge_iff_le, UInt32.le_iff_toNat_le, UInt32.le_iff_toNat_le] at h
    exact (if_neg h).symm

end PyText
