/-
`FsClient.fs_largest`: the largest files under a directory.

The directories are listed one after another until nothing is left on the stack or the cap of entries
is reached; the files found go through a heap of `top` tuples, and what is left there is sorted.  The
heap keeps the greater path of two files of one size, the sort puts the smaller one first: so the
answer is the promised one just when there is no tie at the cut (`fs_largest_exact_iff`).

What `list_dir` returns is left open, its order too.
-/
import CyClaw.Fsconnect.ScopedRoots
import CyClaw.Lib.PyValue
import CyClaw.Lib.TopK
import Mathlib.Data.Prod.Lex

namespace CyClaw.Fsconnect

open Repo (Text)

inductive LargestError where
  | opNotAllowed (op : Text) (allowed : List Text)
  | badTop (message : Text) (top : PyValue)
  | topExceeds (message : Text) (top : ℤ) (largestMaxEntries : ℕ)
  | badMinBytes (message : Text) (minBytes : PyValue)
  | jail (e : FsError)

/-- `FsClient`, what looking for the largest files takes of it. -/
structure FsClient where
  allowedFsOps : List Text
  largestMaxEntries : ℕ
  /-- `list_dir` of a root, with what macOS keeps for itself left out. -/
  listDir : Option Text → Text → Except FsError (List StatDict)

/-! ### The walk -/

/-- `(size, path, mtime)`. -/
structure Candidate where
  size : ℕ
  path : Text
  mtime : ℕ
deriving DecidableEq

/-- The comparison of tuples. -/
def Candidate.le (a b : Candidate) : Prop :=
  toLex (a.size, toLex (a.path, a.mtime)) ≤ toLex (b.size, toLex (b.path, b.mtime))

instance : DecidableRel Candidate.le := fun _ _ => inferInstanceAs (Decidable (_ ≤ _))

/-- The comparison of the keys `(-size, path)`. -/
def Candidate.rank (a b : Candidate) : Prop :=
  toLex (-(a.size : ℤ), a.path) ≤ toLex (-(b.size : ℤ), b.path)

instance : DecidableRel Candidate.rank := fun _ _ => inferInstanceAs (Decidable (_ ≤ _))

structure Scan where
  stack : List Text
  scannedEntries : ℕ
  truncated : Bool
  ranked : List Candidate

def childPath (rel name : Text) : Text := if rel = [] then name else rel ++ '/' :: name

/-- An entry of `rel` under its path. -/
def candidate (minBytes : ℕ) (found : Text × StatDict) : Option Candidate :=
  if found.2.type = "file".toList ∧ minBytes ≤ found.2.size then some ⟨found.2.size, found.1, found.2.mtime⟩
  else none

/-- What is done with an entry once it is counted. -/
def examine (top minBytes : ℕ) (found : Text × StatDict) (s : Scan) : Scan :=
  if found.2.type = "dir".toList then { s with stack := found.1 :: s.stack }
  else
    match candidate minBytes found with
    | none => s
    | some c => { s with ranked := TopK.offer Candidate.le top s.ranked c }

/-- The loop over the entries of a directory. -/
def scanEntries (cap top minBytes : ℕ) (rel : Text) : List StatDict → Scan → Scan
  | [], s => s
  | entry :: entries, s =>
      if cap ≤ s.scannedEntries then { s with truncated := true }
      else
        scanEntries cap top minBytes rel entries
          (examine top minBytes (childPath rel entry.name, entry) { s with scannedEntries := s.scannedEntries + 1 })

/-- Every directory taken off the stack is one that was counted when it was put there. -/
theorem scanEntries_measure (cap top minBytes : ℕ) (rel : Text) (entries : List StatDict) (s : Scan) :
    cap - (scanEntries cap top minBytes rel entries s).scannedEntries +
      (scanEntries cap top minBytes rel entries s).stack.length ≤ cap - s.scannedEntries + s.stack.length := by
  induction entries generalizing s with
  | nil => exact Nat.le_refl _
  | cons entry entries ih =>
    unfold scanEntries
    split
    · exact Nat.le_refl _
    · rename_i hroom
      refine (ih _).trans ?_
      unfold examine
      split
      · dsimp only [List.length_cons]
        omega
      · split
        · dsimp only
          omega
        · dsimp only
          omega

/-- `while stack and not truncated`. -/
def walk (listDir : Text → Except FsError (List StatDict)) (cap top minBytes : ℕ) (s : Scan) : Except FsError Scan :=
  match _hstack : s.stack with
  | [] => .ok s
  | rel :: stack =>
      if s.truncated then .ok s
      else
        match listDir rel with
        | .error e => .error e
        | .ok entries => walk listDir cap top minBytes (scanEntries cap top minBytes rel entries { s with stack })
termination_by cap - s.scannedEntries + s.stack.length
decreasing_by
  have hmeasure := scanEntries_measure cap top minBytes rel entries { s with stack }
  dsimp only at hmeasure
  rw [_hstack, List.length_cons]
  omega

structure LargestEntry where
  path : Text
  bytes : ℕ
  mtime : ℕ
deriving DecidableEq

def Candidate.entry (c : Candidate) : LargestEntry := ⟨c.path, c.size, c.mtime⟩

structure Largest where
  path : Text
  top : ℕ
  minBytes : ℕ
  scannedEntries : ℕ
  truncated : Bool
  entries : List LargestEntry

/-- What is returned of a scan. -/
def Scan.answer (s : Scan) (target : Text) (top minBytes : ℕ) : Largest where
  path := if target = [] then ['.'] else target
  top
  minBytes
  scannedEntries := s.scannedEntries
  truncated := s.truncated
  entries := (s.ranked.insertionSort Candidate.rank).map Candidate.entry

/-- `fs_largest` after its checks. -/
def largest (c : FsClient) (root : Option Text) (target : Text) (top minBytes : ℕ) : Except LargestError Largest :=
  match walk (c.listDir root) c.largestMaxEntries top minBytes ⟨[target], 0, false, []⟩ with
  | .error e => .error (.jail e)
  | .ok s => .ok (s.answer target top minBytes)

/-- `fs_largest`. -/
def fsLargest (c : FsClient) (root : Option Text) (target : Text) (top minBytes : PyValue) :
    Except LargestError Largest :=
  if "fs_largest".toList ∉ c.allowedFsOps then .error (.opNotAllowed "fs_largest".toList c.allowedFsOps)
  else
    match top with
    | .int n =>
        if n ≤ 0 then .error (.badTop "fs_largest top must be a positive integer".toList top)
        else if c.largestMaxEntries < n then
          .error (.topExceeds "fs_largest top exceeds largest_max_entries".toList n c.largestMaxEntries)
        else
          match minBytes with
          | .int m =>
              if m < 0 then .error (.badMinBytes "fs_largest min_bytes must be a non-negative integer".toList minBytes)
              else largest c root target n.toNat m.toNat
          | _ => .error (.badMinBytes "fs_largest min_bytes must be a non-negative integer".toList minBytes)
    | _ => .error (.badTop "fs_largest top must be a positive integer".toList top)

/-! ### What lies under a directory -/

/-- The names of a directory: no two alike, none empty, none with a separator in it. -/
def Named (entries : List StatDict) : Prop :=
  (entries.map StatDict.name).Nodup ∧ ∀ e ∈ entries, e.name ≠ [] ∧ '/' ∉ e.name

/-- What is found under the entries of a directory, each under its path, when every directory among it
can be listed. -/
inductive Below (listDir : Text → Except FsError (List StatDict)) : Text → List StatDict → List (Text × StatDict) → Prop
  | nil {rel : Text} : Below listDir rel [] []
  | dir {rel : Text} {e : StatDict} {entries inner : List StatDict} {below found : List (Text × StatDict)}
      (hdir : e.type = "dir".toList) (hlist : listDir (childPath rel e.name) = .ok inner) (hnamed : Named inner)
      (hinner : Below listDir (childPath rel e.name) inner below) (hrest : Below listDir rel entries found) :
      Below listDir rel (e :: entries) ((childPath rel e.name, e) :: (below ++ found))
  | leaf {rel : Text} {e : StatDict} {entries : List StatDict} {found : List (Text × StatDict)}
      (hdir : e.type ≠ "dir".toList) (hrest : Below listDir rel entries found) :
      Below listDir rel (e :: entries) ((childPath rel e.name, e) :: found)

/-- A tree of directories that can be listed, and all entries under its root. -/
def Lists (listDir : Text → Except FsError (List StatDict)) (rel : Text) (found : List (Text × StatDict)) : Prop :=
  ∃ entries, listDir rel = .ok entries ∧ Named entries ∧ Below listDir rel entries found

variable {listDir : Text → Except FsError (List StatDict)} {rel : Text} {entries : List StatDict}
  {found : List (Text × StatDict)} {cap top minBytes : ℕ} {s : Scan}

def placed (rel : Text) (entries : List StatDict) : List (Text × StatDict) :=
  entries.map fun e => (childPath rel e.name, e)

def childDirs (rel : Text) (entries : List StatDict) : List Text :=
  ((placed rel entries).filter fun f => f.2.type = "dir".toList).map Prod.fst

/-- The files that count, as tuples. -/
def candidates (minBytes : ℕ) (found : List (Text × StatDict)) : List Candidate := found.filterMap (candidate minBytes)

/-! ### Paths -/

theorem childPath_append (name tail : Text) (hname : name ≠ []) :
    childPath (childPath rel name) tail = childPath rel (name ++ '/' :: tail) := by
  unfold childPath
  split
  · rfl
  · rw [if_neg (by simp), List.append_assoc, List.cons_append]

theorem childPath_injective {name name' : Text} (h : childPath rel name = childPath rel name') : name = name' := by
  unfold childPath at h
  split at h
  · exact h
  · exact List.cons.inj (List.append_cancel_left h) |>.2

/-- A text from a name on, as far as the name goes. -/
theorem name_of_tail {name name' tail tail' : Text} (hname : '/' ∉ name) (hname' : '/' ∉ name')
    (htail : tail = [] ∨ tail.head? = some '/') (htail' : tail' = [] ∨ tail'.head? = some '/')
    (h : name ++ tail = name' ++ tail') : name = name' := by
  have hread : ∀ {n t : Text}, '/' ∉ n → (t = [] ∨ t.head? = some '/') → (n ++ t).takeWhile (· ≠ '/') = n := by
    intro n t hn ht
    have hall : ∀ c ∈ n, decide (c ≠ '/') = true := fun c hc => decide_eq_true fun heq => hn (heq ▸ hc)
    rw [List.takeWhile_append_of_pos hall]
    cases t with
    | nil => rw [List.takeWhile_nil, List.append_nil]
    | cons c t =>
      have hc : c = '/' := by simpa using ht
      rw [List.takeWhile_cons_of_neg (by simp [hc]), List.append_nil]
  rw [← hread hname htail, h, hread hname' htail']

theorem Named.tail {e : StatDict} (h : Named (e :: entries)) : Named entries :=
  ⟨(List.nodup_cons.mp h.1).2, fun e' he' => h.2 e' (List.mem_cons_of_mem e he')⟩

/-- Where what is found below entries lies. -/
theorem Below.path (h : Below listDir rel entries found) (hnamed : Named entries) :
    ∀ f ∈ found, ∃ e ∈ entries, ∃ tail, (tail = [] ∨ tail.head? = some '/') ∧
      f.1 = childPath rel (e.name ++ tail) := by
  have hself : ∀ {rel : Text} {e : StatDict} {entries : List StatDict}, ∃ e' ∈ e :: entries, ∃ tail : Text,
      (tail = [] ∨ tail.head? = some '/') ∧ childPath rel e.name = childPath rel (e'.name ++ tail) := by
    intro rel e entries
    refine ⟨e, List.mem_cons_self, [], Or.inl rfl, ?_⟩
    rw [List.append_nil]
  induction h with
  | nil => exact fun f hf => absurd hf List.not_mem_nil
  | @dir rel e entries inner below found hdir hlist hinner_named hinner hrest ihinner ihrest =>
    intro f hf
    rcases List.mem_cons.mp hf with rfl | hf
    · exact hself
    · rcases List.mem_append.mp hf with hf | hf
      · obtain ⟨e', -, tail, -, hpath⟩ := ihinner hinner_named f hf
        refine ⟨e, List.mem_cons_self, '/' :: (e'.name ++ tail), Or.inr rfl, ?_⟩
        rw [hpath, childPath_append _ _ (hnamed.2 e List.mem_cons_self).1]
      · obtain ⟨e', he', tail⟩ := ihrest hnamed.tail f hf
        exact ⟨e', List.mem_cons_of_mem e he', tail⟩
  | leaf hdir hrest ihrest =>
    intro f hf
    rcases List.mem_cons.mp hf with rfl | hf
    · exact hself
    · obtain ⟨e', he', tail⟩ := ihrest hnamed.tail f hf
      exact ⟨e', List.mem_cons_of_mem _ he', tail⟩

/-- What lies at an entry or below it is not among what is found under the entries after it. -/
theorem Below.apart {e : StatDict} (h : Below listDir rel entries found) (hnamed : Named (e :: entries)) {tail : Text}
    (htail : tail = [] ∨ tail.head? = some '/') : childPath rel (e.name ++ tail) ∉ found.map Prod.fst := by
  intro hmem
  obtain ⟨f, hf, hpath⟩ := List.mem_map.mp hmem
  obtain ⟨e', he', tail', htail', hpath'⟩ := h.path hnamed.tail f hf
  have hname : e.name = e'.name := by
    refine name_of_tail (hnamed.2 e List.mem_cons_self).2 (hnamed.2 e' (List.mem_cons_of_mem e he')).2 htail htail' ?_
    exact childPath_injective (hpath.symm.trans hpath')
  exact (List.nodup_cons.mp hnamed.1).1 (hname ▸ List.mem_map_of_mem he')

/-- No two entries under a directory have one path. -/
theorem Below.nodup (h : Below listDir rel entries found) (hnamed : Named entries) : (found.map Prod.fst).Nodup := by
  induction h with
  | nil => exact List.nodup_nil
  | @dir rel e entries inner below found hdir hlist hinner_named hinner hrest ihinner ihrest =>
    have hname : e.name ≠ [] := (hnamed.2 e List.mem_cons_self).1
    have hbelow : ∀ f ∈ below, ∃ tail, f.1 = childPath rel (e.name ++ '/' :: tail) := by
      intro f hf
      obtain ⟨e', -, tail, -, hpath⟩ := hinner.path hinner_named f hf
      exact ⟨e'.name ++ tail, by rw [hpath, childPath_append _ _ hname]⟩
    rw [List.map_cons, List.map_append, List.nodup_cons, List.mem_append, List.nodup_append]
    refine ⟨?_, ihinner hinner_named, ihrest hnamed.tail, ?_⟩
    · rintro (hmem | hmem)
      · obtain ⟨f, hf, hpath⟩ := List.mem_map.mp hmem
        obtain ⟨tail, htail⟩ := hbelow f hf
        have hlength := congrArg List.length (childPath_injective (htail.symm.trans hpath))
        rw [List.length_append, List.length_cons] at hlength
        omega
      · have hapart := hrest.apart hnamed (Or.inl (rfl : ([] : Text) = []))
        rw [List.append_nil] at hapart
        exact hapart hmem
    · rintro p hp q hq rfl
      obtain ⟨f, hf, rfl⟩ := List.mem_map.mp hp
      obtain ⟨tail, htail⟩ := hbelow f hf
      exact hrest.apart hnamed (Or.inr rfl) (htail ▸ hq)
  | leaf hdir hrest ihrest =>
    rw [List.map_cons, List.nodup_cons]
    refine ⟨?_, ihrest hnamed.tail⟩
    have hapart := hrest.apart hnamed (Or.inl (rfl : ([] : Text) = []))
    rw [List.append_nil] at hapart
    exact hapart

/-! ### What the walk comes to -/

theorem placed_cons (rel : Text) (e : StatDict) (entries : List StatDict) :
    placed rel (e :: entries) = (childPath rel e.name, e) :: placed rel entries := rfl

theorem childDirs_cons (rel : Text) (e : StatDict) (entries : List StatDict) :
    childDirs rel (e :: entries) =
      if e.type = "dir".toList then childPath rel e.name :: childDirs rel entries else childDirs rel entries := by
  unfold childDirs
  rw [placed_cons, List.filter_cons]
  split
  · rename_i hdir
    rw [if_pos (of_decide_eq_true hdir), List.map_cons]
  · rename_i hdir
    rw [if_neg fun h => hdir (decide_eq_true h)]

theorem candidates_cons (f : Text × StatDict) (found : List (Text × StatDict)) :
    candidates minBytes (f :: found) = (candidate minBytes f).toList ++ candidates minBytes found := by
  unfold candidates
  rw [List.filterMap_cons]
  cases candidate minBytes f <;> rfl

theorem candidate_dir {f : Text × StatDict} (h : f.2.type = "dir".toList) : candidate minBytes f = none := by
  unfold candidate
  rw [if_neg]
  rintro ⟨hfile, -⟩
  rw [h] at hfile
  exact absurd hfile (by decide)

theorem examine_eq (f : Text × StatDict) (s : Scan) :
    examine top minBytes f s =
      { s with
        stack := if f.2.type = "dir".toList then f.1 :: s.stack else s.stack
        ranked := (candidate minBytes f).toList.foldl (TopK.offer Candidate.le top) s.ranked } := by
  unfold examine
  split
  · rename_i hdir
    rw [candidate_dir hdir]
    rfl
  · cases candidate minBytes f <;> rfl

/-- The loop over a directory that the cap leaves room for. -/
theorem scanEntries_room (h : s.scannedEntries + entries.length ≤ cap) :
    scanEntries cap top minBytes rel entries s =
      { stack := (childDirs rel entries).reverse ++ s.stack
        scannedEntries := s.scannedEntries + entries.length
        truncated := s.truncated
        ranked := (candidates minBytes (placed rel entries)).foldl (TopK.offer Candidate.le top) s.ranked } := by
  induction entries generalizing s with
  | nil => rfl
  | cons e entries ih =>
    rw [List.length_cons] at h
    have hroom : ¬ cap ≤ s.scannedEntries := by omega
    have hrest : s.scannedEntries + 1 + entries.length ≤ cap := by omega
    rw [scanEntries, if_neg hroom, ih (by rw [examine_eq]; exact hrest), examine_eq, placed_cons, candidates_cons,
      List.foldl_append, childDirs_cons, List.length_cons]
    dsimp only
    rw [Nat.add_assoc, Nat.add_comm 1]
    split
    · rw [List.reverse_cons, List.append_assoc, List.singleton_append]
    · rfl

/-- The loop over a directory that the cap leaves no room for. -/
theorem scanEntries_full (hroom : s.scannedEntries ≤ cap) (h : cap < s.scannedEntries + entries.length) :
    (scanEntries cap top minBytes rel entries s).truncated = true ∧
      (scanEntries cap top minBytes rel entries s).scannedEntries = cap := by
  induction entries generalizing s with
  | nil =>
    rw [List.length_nil] at h
    omega
  | cons e entries ih =>
    rw [List.length_cons] at h
    unfold scanEntries
    split
    · rename_i hfull
      exact ⟨rfl, Nat.le_antisymm hroom hfull⟩
    · rename_i hfull
      refine ih ?_ ?_
      · rw [examine_eq]
        exact Nat.lt_of_not_le hfull
      · rw [examine_eq]
        dsimp only
        omega

/-- What is found under a directory: its entries, and what is found under its directories. -/
theorem Below.split (h : Below listDir rel entries found) :
    ∃ founds, List.Forall₂ (Lists listDir) (childDirs rel entries) founds ∧
      found.Perm (placed rel entries ++ founds.flatten) := by
  induction h with
  | nil => exact ⟨[], List.Forall₂.nil, List.Perm.nil⟩
  | @dir rel e entries inner below found hdir hlist hnamed hinner hrest ihinner ihrest =>
    obtain ⟨founds, hfounds, hperm⟩ := ihrest
    refine ⟨below :: founds, ?_, ?_⟩
    · rw [childDirs_cons, if_pos hdir]
      exact hfounds.cons ⟨inner, hlist, hnamed, hinner⟩
    · rw [placed_cons, List.flatten_cons, List.cons_append]
      exact ((hperm.append_left below).trans (List.perm_append_comm_assoc _ _ _)).cons _
  | @leaf rel e entries found hdir hrest ihrest =>
    obtain ⟨founds, hfounds, hperm⟩ := ihrest
    refine ⟨founds, ?_, ?_⟩
    · rw [childDirs_cons, if_neg hdir]
      exact hfounds
    · rw [placed_cons, List.cons_append]
      exact hperm.cons _

/-- The files of some entries as the heap has them. -/
def heaped (top minBytes : ℕ) (found : List (Text × StatDict)) : List Candidate :=
  (candidates minBytes found).foldl (TopK.offer Candidate.le top) []

theorem heaped_append (found found' : List (Text × StatDict)) :
    heaped top minBytes (found ++ found') =
      (candidates minBytes found').foldl (TopK.offer Candidate.le top) (heaped top minBytes found) := by
  unfold heaped candidates
  rw [List.filterMap_append, List.foldl_append]

/-- How a walk ends that has so many entries before it, counted or not. -/
structure Scanned (cap top minBytes : ℕ) (found : List (Text × StatDict)) (s : Scan) : Prop where
  truncated : s.truncated = true ↔ cap < found.length
  scanned : s.scannedEntries = min cap found.length
  ranked : found.length ≤ cap → ∃ all, all.Perm found ∧ s.ranked = heaped top minBytes all

theorem Scanned.of_perm {found' : List (Text × StatDict)} (h : Scanned cap top minBytes found s)
    (hperm : found.Perm found') : Scanned cap top minBytes found' s where
  truncated := by rw [h.truncated, hperm.length_eq]
  scanned := by rw [h.scanned, hperm.length_eq]
  ranked := by
    intro hle
    obtain ⟨all, hall, hranked⟩ := h.ranked (hperm.length_eq ▸ hle)
    exact ⟨all, hall.trans hperm, hranked⟩

theorem walk_truncated (h : s.truncated = true) : walk listDir cap top minBytes s = .ok s := by
  unfold walk
  split
  · rfl
  · rw [if_pos h]

/-- The walk, from a state that has seen some entries and has directories left to list. -/
theorem walk_spec {seen : List (Text × StatDict)} {founds : List (List (Text × StatDict))}
    (htruncated : s.truncated = false) (hseen : seen.length = s.scannedEntries) (hcap : s.scannedEntries ≤ cap)
    (hranked : s.ranked = heaped top minBytes seen) (hstack : List.Forall₂ (Lists listDir) s.stack founds) :
    ∃ s', walk listDir cap top minBytes s = .ok s' ∧ Scanned cap top minBytes (seen ++ founds.flatten) s' := by
  fun_induction walk listDir cap top minBytes s generalizing seen founds with
  | case1 s hnil =>
    rw [hnil] at hstack
    cases hstack
    rw [List.flatten_nil, List.append_nil]
    refine ⟨s, rfl, ?_, ?_, fun _ => ⟨seen, List.Perm.refl seen, hranked⟩⟩
    · rw [htruncated]
      exact ⟨fun h => absurd h Bool.false_ne_true, fun h => by omega⟩
    · omega
  | case2 s rel stack hcons htrue =>
    rw [htruncated] at htrue
    cases htrue
  | case3 s rel stack hcons hgo e herror =>
    rw [hcons] at hstack
    obtain ⟨found, rest, ⟨entries, hlist, -⟩, -, -⟩ := List.forall₂_cons_left_iff.mp hstack
    rw [herror] at hlist
    cases hlist
  | case4 s rel stack hcons hgo entries hok ih =>
    rw [hcons] at hstack
    obtain ⟨found, rest, ⟨entries', hlist, -, hbelow⟩, hrest, rfl⟩ := List.forall₂_cons_left_iff.mp hstack
    obtain rfl : entries = entries' := Except.ok.inj (hok.symm.trans hlist)
    obtain ⟨inner, hinner, hsplit⟩ := hbelow.split
    by_cases hroom : s.scannedEntries + entries.length ≤ cap
    · have hlength : (placed rel entries).length = entries.length := List.length_map _
      have hscan : scanEntries cap top minBytes rel entries { s with stack } = _ := scanEntries_room hroom
      rw [hscan] at ih ⊢
      have hseen' : (seen ++ placed rel entries).length = s.scannedEntries + entries.length := by
        rw [List.length_append, hlength, hseen]
      have hranked' : (candidates minBytes (placed rel entries)).foldl (TopK.offer Candidate.le top) s.ranked =
          heaped top minBytes (seen ++ placed rel entries) := by
        rw [heaped_append, hranked]
      obtain ⟨s', hwalk, hends⟩ := ih htruncated hseen' hroom hranked'
        (List.rel_append (List.forall₂_reverse_iff.mpr hinner) hrest)
      refine ⟨s', hwalk, hends.of_perm ?_⟩
      rw [List.flatten_cons, List.flatten_append, List.append_assoc]
      refine List.Perm.append_left seen ?_
      rw [← List.append_assoc]
      have hinnerPerm : (placed rel entries ++ inner.reverse.flatten).Perm found :=
        ((inner.reverse_perm.flatten).append_left _).trans hsplit.symm
      exact hinnerPerm.append_right rest.flatten
    · have hlong : cap < s.scannedEntries + entries.length := Nat.lt_of_not_le hroom
      obtain ⟨htrue, hscanned⟩ : (scanEntries cap top minBytes rel entries { s with stack }).truncated = true ∧
          (scanEntries cap top minBytes rel entries { s with stack }).scannedEntries = cap :=
        scanEntries_full hcap hlong
      have hlength := hsplit.length_eq
      have hplaced : (placed rel entries).length = entries.length := List.length_map _
      rw [List.length_append, hplaced] at hlength
      have hmore : cap < (seen ++ (found :: rest).flatten).length := by
        rw [List.length_append, List.flatten_cons, List.length_append]
        omega
      refine ⟨_, walk_truncated htrue, ?_, ?_, fun hle => absurd hmore (Nat.not_lt_of_le hle)⟩
      · exact ⟨fun _ => hmore, fun _ => htrue⟩
      · rw [hscanned]
        omega

/-! ### The answer -/

instance : Std.Total Candidate.le := ⟨fun _ _ => le_total _ _⟩

instance : IsTrans Candidate Candidate.le := ⟨fun _ _ _ => le_trans⟩

instance : Std.Total Candidate.rank := ⟨fun _ _ => le_total _ _⟩

instance : IsTrans Candidate Candidate.rank := ⟨fun _ _ _ => le_trans⟩

theorem Candidate.le_iff {a b : Candidate} :
    a.le b ↔ a.size < b.size ∨ a.size = b.size ∧ (a.path < b.path ∨ a.path = b.path ∧ a.mtime ≤ b.mtime) := by
  unfold Candidate.le
  rw [Prod.Lex.toLex_le_toLex, Prod.Lex.toLex_le_toLex]

theorem Candidate.rank_iff {a b : Candidate} :
    a.rank b ↔ b.size < a.size ∨ a.size = b.size ∧ a.path ≤ b.path := by
  unfold Candidate.rank
  rw [Prod.Lex.toLex_le_toLex]
  dsimp only
  constructor
  · rintro (h | ⟨h, hpath⟩)
    · exact Or.inl (by omega)
    · exact Or.inr ⟨by omega, hpath⟩
  · rintro (h | ⟨h, hpath⟩)
    · exact Or.inl (by omega)
    · exact Or.inr ⟨by omega, hpath⟩

theorem Candidate.entry_injective : Function.Injective Candidate.entry := by
  intro a b h
  cases a
  cases b
  cases h
  rfl

theorem path_candidate {f : Text × StatDict} {c : Candidate} (h : candidate minBytes f = some c) : f.1 = c.path := by
  unfold candidate at h
  split at h
  · cases h
    rfl
  · cases h

/-- No two files have one path. -/
theorem path_injective (hnodup : (found.map Prod.fst).Nodup) {a b : Candidate} (ha : a ∈ candidates minBytes found)
    (hb : b ∈ candidates minBytes found) (h : a.path = b.path) : a = b := by
  obtain ⟨f, hf, hfa⟩ := List.mem_filterMap.mp ha
  obtain ⟨g, hg, hgb⟩ := List.mem_filterMap.mp hb
  obtain rfl : f = g :=
    List.inj_on_of_nodup_map hnodup hf hg (by rw [path_candidate hfa, h, path_candidate hgb])
  exact Option.some.inj (hfa.symm.trans hgb)

theorem candidates_nodup (hnodup : (found.map Prod.fst).Nodup) : (candidates minBytes found).Nodup := by
  refine List.pairwise_filterMap.mpr ((List.pairwise_map.mp hnodup).imp ?_)
  rintro f g hne a hfa b hgb rfl
  exact hne ((path_candidate hfa).trans (path_candidate hgb).symm)

/-- What is promised of an answer, from all there is under the directory. -/
structure Promised (found : List (Text × StatDict)) (cap top minBytes : ℕ) (r : Largest) : Prop where
  entries : r.truncated = false →
    r.entries = (((candidates minBytes found).insertionSort Candidate.rank).take top).map Candidate.entry
  truncated : r.truncated = true ↔ r.scannedEntries < found.length
  examined : r.scannedEntries ≤ cap

/-- What the heap holds at the end is what comes first in the promised order, unless there is a tie. -/
theorem sorted_heaped_iff (hnodup : (found.map Prod.fst).Nodup) {all : List (Text × StatDict)} (hall : all.Perm found) :
    ((heaped top minBytes all).insertionSort Candidate.rank).map Candidate.entry =
        (((candidates minBytes found).insertionSort Candidate.rank).take top).map Candidate.entry ↔
      ¬ TopK.Tied Candidate.size top (candidates minBytes found) := by
  have hheap : ∃ dropped, TopK.Chosen (fun a b => Candidate.le b a) top (candidates minBytes all)
      (heaped top minBytes all) dropped := TopK.chosen_foldl_offer _
  obtain ⟨dropped, hheap⟩ := hheap
  have hkept := hheap.of_perm (hall.filterMap (candidate minBytes))
  have hsorted := List.pairwise_insertionSort Candidate.rank (candidates minBytes found)
  have hfirst := (TopK.chosen_take hsorted top).of_perm (List.perm_insertionSort Candidate.rank _)
  have hr₁ : ∀ a b : Candidate, b.le a → b.size ≤ a.size := by
    intro a b h
    rcases Candidate.le_iff.mp h with h | ⟨h, -⟩
    · exact h.le
    · exact h.le
  have hr₂ : ∀ a b : Candidate, a.rank b → b.size ≤ a.size := by
    intro a b h
    rcases Candidate.rank_iff.mp h with h | ⟨h, -⟩
    · exact h.le
    · exact h.ge
  have hopposite : ∀ a ∈ candidates minBytes found, ∀ b ∈ candidates minBytes found, a.size = b.size → b.le a →
      a.rank b → a = b := by
    intro a ha b hb hsize hle hrank
    have hge : b.path ≤ a.path := by
      rcases Candidate.le_iff.mp hle with h | ⟨-, h | ⟨h, -⟩⟩
      · omega
      · exact h.le
      · exact h.le
    have hab : a.path ≤ b.path := by
      rcases Candidate.rank_iff.mp hrank with h | ⟨-, h⟩
      · omega
      · exact h
    exact path_injective hnodup ha hb (le_antisymm hab hge)
  rw [Candidate.entry_injective.list_map.eq_iff,
    ← TopK.perm_iff_not_tied (candidates_nodup hnodup) hkept hfirst hr₁ hr₂ hopposite]
  constructor
  · intro heq
    rw [← heq]
    exact (List.perm_insertionSort Candidate.rank _).symm
  · intro hperm
    refine List.Perm.eq_of_pairwise ?_ (List.pairwise_insertionSort Candidate.rank _) hsorted.take
      ((List.perm_insertionSort Candidate.rank _).trans hperm)
    intro a b ha hb hab hba
    have hamem : a ∈ candidates minBytes found := hkept.mem_all.mpr (Or.inl ((List.mem_insertionSort _).mp ha))
    refine path_injective hnodup hamem (hfirst.mem_all.mpr (Or.inl hb)) ?_
    have hsize : a.size = b.size := le_antisymm (hr₂ b a hba) (hr₂ a b hab)
    rcases Candidate.rank_iff.mp hab with h | ⟨-, h⟩
    · omega
    · rcases Candidate.rank_iff.mp hba with h' | ⟨-, h'⟩
      · omega
      · exact le_antisymm h h'

theorem walk_target {target : Text} (htree : Lists listDir target found) (cap top minBytes : ℕ) :
    ∃ s, walk listDir cap top minBytes ⟨[target], 0, false, []⟩ = .ok s ∧ Scanned cap top minBytes found s := by
  obtain ⟨s, hwalk, hends⟩ :
      ∃ s, walk listDir cap top minBytes ⟨[target], 0, false, []⟩ = .ok s ∧
        Scanned cap top minBytes ([] ++ [found].flatten) s :=
    walk_spec rfl rfl (Nat.zero_le cap) rfl (List.Forall₂.nil.cons htree)
  rw [List.nil_append, List.flatten_singleton] at hends
  exact ⟨s, hwalk, hends⟩

section Answer

variable {c : FsClient} {root : Option Text} {target : Text}

theorem fsLargest_answer (hallowed : "fs_largest".toList ∈ c.allowedFsOps) (hpos : 0 < top)
    (hcap : top ≤ c.largestMaxEntries) (htree : Lists (c.listDir root) target found) :
    ∃ s, fsLargest c root target (.int top) (.int minBytes) = .ok (s.answer target top minBytes) ∧
      Scanned c.largestMaxEntries top minBytes found s := by
  obtain ⟨s, hwalk, hends⟩ := walk_target htree c.largestMaxEntries top minBytes
  refine ⟨s, ?_, hends⟩
  have htop : ¬ (top : ℤ) ≤ 0 := by omega
  have hbelowCap : ¬ (c.largestMaxEntries : ℤ) < top := by omega
  have hmin : ¬ (minBytes : ℤ) < 0 := by omega
  rw [fsLargest, if_neg (not_not.mpr hallowed), if_neg htop, if_neg hbelowCap, if_neg hmin, Int.toNat_natCast,
    Int.toNat_natCast, largest, hwalk]

/-- A walk that was cut off promises nothing of its entries; one that was not is as good as its order. -/
theorem promised_answer_iff (hnodup : (found.map Prod.fst).Nodup) {cap : ℕ} (hends : Scanned cap top minBytes found s) :
    Promised found cap top minBytes (s.answer target top minBytes) ↔
      cap < found.length ∨ ¬ TopK.Tied Candidate.size top (candidates minBytes found) := by
  have htruncated : (s.answer target top minBytes).truncated = true ↔
      (s.answer target top minBytes).scannedEntries < found.length := by
    change s.truncated = true ↔ s.scannedEntries < found.length
    rw [hends.truncated, hends.scanned]
    omega
  have hexamined : (s.answer target top minBytes).scannedEntries ≤ cap := by
    change s.scannedEntries ≤ cap
    rw [hends.scanned]
    exact Nat.min_le_left _ _
  by_cases hlong : cap < found.length
  · refine iff_of_true ⟨fun hfalse => ?_, htruncated, hexamined⟩ (Or.inl hlong)
    have htrue : (s.answer target top minBytes).truncated = true := hends.truncated.mpr hlong
    rw [htrue] at hfalse
    cases hfalse
  · obtain ⟨all, hall, hranked⟩ := hends.ranked (Nat.le_of_not_lt hlong)
    have hfalse : s.truncated = false := by
      rw [Bool.eq_false_iff]
      exact fun h => hlong (hends.truncated.mp h)
    rw [or_iff_right hlong, ← sorted_heaped_iff hnodup hall, ← hranked]
    exact ⟨fun hpromised => hpromised.entries hfalse, fun hentries => ⟨fun _ => hentries, htruncated, hexamined⟩⟩

/-- **The answer is the promised one** just when something was not examined, or no file that is left out
has the size of one that is not. -/
theorem fs_largest_exact_iff (hallowed : "fs_largest".toList ∈ c.allowedFsOps) (hpos : 0 < top)
    (hcap : top ≤ c.largestMaxEntries) (htree : Lists (c.listDir root) target found) :
    (∃ r, fsLargest c root target (.int top) (.int minBytes) = .ok r ∧
        Promised found c.largestMaxEntries top minBytes r) ↔
      c.largestMaxEntries < found.length ∨ ¬ TopK.Tied Candidate.size top (candidates minBytes found) := by
  obtain ⟨entries, -, hnamed, hbelow⟩ := id htree
  obtain ⟨s, hanswer, hends⟩ := fsLargest_answer hallowed hpos hcap htree
  rw [← promised_answer_iff (hbelow.nodup hnamed) hends, hanswer]
  constructor
  · rintro ⟨r, hr, hpromised⟩
    cases hr
    exact hpromised
  · exact fun hpromised => ⟨_, rfl, hpromised⟩

end Answer

/-! ### A tie -/

def sampleFile (name : Text) (size : ℕ) : StatDict := ⟨name, "file".toList, size, "-rw-r--r--".toList, 0⟩

/-- Three files, two of them of one size. -/
def sampleFiles : List StatDict := [sampleFile ['a'] 1, sampleFile ['b'] 1, sampleFile ['c'] 2]

def sampleClient : FsClient where
  allowedFsOps := ["fs_largest".toList]
  largestMaxEntries := 10
  listDir _ rel :=
    if rel = [] then .ok sampleFiles
    else .error (.path "cannot open directory".toList .none)

theorem named_sampleFiles : Named sampleFiles := by
  unfold Named
  decide

theorem below_sampleFiles : Below (sampleClient.listDir none) [] sampleFiles (placed [] sampleFiles) := by
  have hleaf : ∀ name size, (sampleFile name size).type ≠ "dir".toList := fun _ _ => by
    change "file".toList ≠ "dir".toList
    decide
  exact .leaf (hleaf _ _) (.leaf (hleaf _ _) (.leaf (hleaf _ _) .nil))

theorem lists_sample : Lists (sampleClient.listDir none) [] (placed [] sampleFiles) :=
  ⟨sampleFiles, rfl, named_sampleFiles, below_sampleFiles⟩

/-- Two files are asked for: the second returned is the one of the greater path. -/
theorem tie_keeps_greater :
    ¬ ∃ r, fsLargest sampleClient none [] (.int (2 : ℕ)) (.int (0 : ℕ)) = .ok r ∧
      Promised (placed [] sampleFiles) 10 2 0 r := by
  rintro ⟨r, hr, hpromised⟩
  obtain ⟨s, hanswer, hends⟩ : ∃ s, fsLargest sampleClient none [] (.int (2 : ℕ)) (.int (0 : ℕ)) = .ok (s.answer [] 2 0) ∧
      Scanned 10 2 0 (placed [] sampleFiles) s := fsLargest_answer (by decide) (by decide) (by decide) lists_sample
  rw [hanswer] at hr
  cases hr
  have htied : TopK.Tied Candidate.size 2 (candidates 0 (placed [] sampleFiles)) := ⟨1, by decide, by decide⟩
  rcases (promised_answer_iff (below_sampleFiles.nodup named_sampleFiles) hends).mp hpromised with h | h
  · exact absurd h (by decide)
  · exact h htied

/-- With all three files asked for there is no cut. -/
theorem fs_largest_exact_iff_all :
    (∃ r, fsLargest sampleClient none [] (.int (3 : ℕ)) (.int (0 : ℕ)) = .ok r ∧
        Promised (placed [] sampleFiles) 10 3 0 r) ↔
      10 < (placed [] sampleFiles).length ∨
        ¬ TopK.Tied Candidate.size 3 (candidates 0 (placed [] sampleFiles)) :=
  fs_largest_exact_iff (by decide) (by decide) (by decide) lists_sample

end CyClaw.Fsconnect
