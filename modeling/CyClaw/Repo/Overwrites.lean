/-
No file is replaced unseen.

The backstop refuses to replace a file the planner was not shown, and finds out whether there
is one through the jail.  The jail is stricter than the writer: it sees nothing behind a
linked directory and nothing under a name that ends in a dot or a space, and what it does not
see the backstop takes for a new file (`file_overwritten_unseen`).  It also exempts the names
the loop has written before, which may lead elsewhere by now.

Where no proposed path is of these kinds, every file from before the loop is replaced in full
view of the planner, or after the loop has written it already (`overwrites_seen`).
-/
import CyClaw.Repo.WriteScope

namespace CyClaw.Repo

open PyText

/-- The prompt of the iteration an event belongs to, and what was logged before it, from what
was logged before the event. -/
def iterationOf : List Event → Option (Text × List Event)
  | [] => none
  | .asked prompt _ :: earlier => some (prompt, earlier)
  | _ :: rest => iterationOf rest

theorem iterationOf_writes (writes : List Write) (prompt : Text) (response : Option Text) (log : List Event) :
    iterationOf (writes.map .wrote ++ .asked prompt response :: log) = some (prompt, log) := by
  induction writes with
  | nil => rfl
  | cons w writes ih => exact ih

/-- A write that replaces a file of `original` does so in view of the planner, or after an
earlier iteration has written that file. -/
def InView (original : Tree) (w : Write) (rest : List Event) : Prop :=
  original.fileAt w.landed ≠ none → ∀ old, w.replaced = some old →
    ∃ prompt earlier, iterationOf rest = some (prompt, earlier) ∧
      ((∃ path content, decode old = some content ∧ existingSection path content <:+: prompt) ∨
        ∃ x, .wrote x ∈ earlier ∧ x.landed = w.landed)

def AllInView (original : Tree) : List Event → Prop
  | [] => True
  | .wrote w :: rest => InView original w rest ∧ AllInView original rest
  | _ :: rest => AllInView original rest

theorem AllInView.inView {original : Tree} {log later rest : List Event} {w : Write}
    (h : AllInView original log) (hlog : log = later ++ .wrote w :: rest) : InView original w rest := by
  induction later generalizing log with
  | nil =>
      rw [hlog] at h
      exact h.1
  | cons e later ih =>
      rw [hlog] at h
      have hrest : AllInView original (later ++ .wrote w :: rest) := by
        cases e with
        | asked prompt response => exact h
        | verified report => exact h
        | wrote x => exact h.2
      exact ih hrest rfl

section Seen

variable {env : Env} {req : Request} {turn : Turn} {s s' : LoopState} {response : Text} {original : Tree}

def writtenAt (log : List Event) (location : Path) : Bool :=
  log.any fun
    | .wrote w => w.landed = location
    | _ => false

/-- A file from before the loop that the loop has not written yet, and that a proposed path
leading there may replace. -/
def atStake (env : Env) (original : Tree) (s : LoopState) (files : List (Text × Text)) (declared : Text)
    (location : Path) : Bool :=
  (original.fileAt location).isSome && !writtenAt s.log location &&
    ((s.tree.fileAt location).isSome ||
      files.any fun f => f.1 ≠ declared ∧ s.tree.resolve env.tools.linkLimit (parts f.1) = .ok location)

/-- The backstop looks where the writer will write: no link the jail does not see stands on
the way, no component ends in a dot or a space, and the name is not exempt. -/
def looksThere (env : Env) (req : Request) (s : LoopState) (declared : Text) (location : Path) : Bool :=
  (location = parts declared || (statFile s.tree declared).isSome) && (parts declared).all (!trails ·) &&
    (declared ∉ s.everWritten || declared ∈ shownPaths env req s)

def backstopLooks (env : Env) (req : Request) (original : Tree) (s : LoopState) (turn : Turn) : Bool :=
  match turn.response with
  | none => true
  | some response =>
      !(assess env req response).cleared || (assess env req response).files.all fun f =>
        match s.tree.resolve env.tools.linkLimit (parts f.1) with
        | .ok location =>
            !atStake env original s (assess env req response).files f.1 location ||
              looksThere env req s f.1 location
        | .error _ => true

theorem statFile_of_canonical {t : Tree} {declared : Text} (hcanonical : canonicalRepoPath declared = some declared)
    (htrails : (parts declared).all (!trails ·) = true) : statFile t declared = t.entry (parts declared) :=
  statFile_eq (splitComponents_of_canonical hcanonical htrails)

/-- A write the backstop looked at lands at its own place, and takes the place only of what
was shown. -/
theorem Lands.shown {earlier : List Write} {w : Write}
    (h : Lands env (shownPaths env req s) s.everWritten s.tree (assess env req response).files earlier w)
    (hlooks : looksThere env req s w.declared w.landed = true) :
    w.landed = parts w.declared ∧
      (s.tree.fileAt w.landed ≠ none → w.declared ∈ shownPaths env req s) := by
  simp only [looksThere, Bool.and_eq_true, Bool.or_eq_true, decide_eq_true_eq] at hlooks
  obtain ⟨⟨hplain, htrails⟩, hexempt⟩ := hlooks
  have hself : w.declared ∈ shownPaths env req s → w.landed = parts w.declared := by
    intro hshown
    obtain ⟨-, -, bytes, hfile, -⟩ := shown_in_prompt hshown
    exact Except.ok.inj (h.leads.symm.trans (FileTree.resolve_of_fileAt hfile env.tools.linkLimit))
  have hback : w.declared ∈ shownPaths env req s ∨ statFile s.tree w.declared = none := by
    rcases h.backstop with hshown | hever | hstat
    · exact .inl hshown
    · exact .inl (hexempt.resolve_left fun hnot => hnot hever)
    · exact .inr hstat
  rcases hback with hshown | hstat
  · exact ⟨hself hshown, fun _ => hshown⟩
  · have hlanded : w.landed = parts w.declared := by
      refine hplain.resolve_right ?_
      rw [hstat]
      nofun
    refine ⟨hlanded, ?_⟩
    intro hfile
    have hcanonical := h.canonical
    rw [h.join_parts] at hcanonical
    rw [statFile_of_canonical hcanonical htrails, ← hlanded] at hstat
    rw [FileTree.fileAt, hstat] at hfile
    exact absurd rfl hfile

/-- What an admitted iteration is known to satisfy. -/
def Looked (env : Env) (req : Request) (original : Tree) (s : LoopState) (files : List (Text × Text)) : Prop :=
  ∀ f ∈ files, ∀ location, s.tree.resolve env.tools.linkLimit (parts f.1) = .ok location →
    atStake env original s files f.1 location = true → looksThere env req s f.1 location = true

theorem looked_of_backstopLooks (hallow : backstopLooks env req original s turn = true)
    (hresponse : turn.response = some response) (hcleared : (assess env req response).cleared = true) :
    Looked env req original s (assess env req response).files := by
  intro f hf location hleads hstake
  rw [backstopLooks, hresponse] at hallow
  simp only [hcleared, Bool.not_true, Bool.false_or, List.all_eq_true] at hallow
  have hthis := hallow f hf
  simp only [hleads, hstake, Bool.not_true, Bool.false_or] at hthis
  exact hthis

/-- **One write.**  Two proposed paths that lead to one such file would both lead there by
their own names, and be one. -/
theorem Lands.inView {earlier : List Write} {w : Write}
    (hlooked : Looked env req original s (assess env req response).files)
    (hlands : Landings env (shownPaths env req s) s.everWritten s.tree (assess env req response).files
      (w :: earlier))
    (hnodup : ((w :: earlier).map (·.declared)).Nodup) :
    InView original w (earlier.map .wrote ++ .asked (prompt env req s) (some response) :: s.log) := by
  obtain ⟨hw, hearlier⟩ := hlands
  intro horiginal old hold
  refine ⟨_, _, iterationOf_writes _ _ _ _, ?_⟩
  cases hwritten : writtenAt s.log w.landed with
  | true =>
      obtain ⟨e, he, hlanded⟩ := List.any_eq_true.mp hwritten
      cases e with
      | asked prompt response => cases hlanded
      | verified report => cases hlanded
      | wrote x => exact .inr ⟨x, he, of_decide_eq_true hlanded⟩
  | false =>
      have hstake : ∀ x : Write, x.landed = w.landed → ((s.tree.fileAt w.landed).isSome = true ∨
          ∃ f ∈ (assess env req response).files, f.1 ≠ x.declared ∧
            s.tree.resolve env.tools.linkLimit (parts f.1) = .ok w.landed) →
          atStake env original s (assess env req response).files x.declared x.landed = true := by
        intro x hx hthere
        rw [atStake, hx, Option.isSome_iff_ne_none.mpr horiginal, hwritten]
        simp only [Bool.not_false, Bool.and_true, Bool.true_and, Bool.or_eq_true, List.any_eq_true,
          decide_eq_true_eq]
        exact hthere
      rcases hw.replaced with hsame | ⟨x, hx, hlanded⟩
      · -- The file stood there when the iteration began.
        rw [hold] at hsame
        have hlooks := hlooked _ hw.proposed _ hw.leads
          (hstake w rfl (.inl (by rw [← hsame, Option.isSome_some])))
        obtain ⟨hself, hshown⟩ := hw.shown hlooks
        obtain ⟨path, content, bytes, hfile, hdecode, hinfix⟩ :=
          shown_in_prompt (hshown (by rw [← hsame]; nofun))
        rw [← hself, ← hsame, Option.some.injEq] at hfile
        exact .inl ⟨path, content, hfile ▸ hdecode, hinfix⟩
      · -- Another proposed path led there before, in the same iteration.
        obtain ⟨before, -, hxlands⟩ := hearlier.lands hx
        have hne : x.declared ≠ w.declared := by
          intro heq
          rw [List.map_cons, List.nodup_cons] at hnodup
          exact hnodup.1 (heq ▸ List.mem_map_of_mem hx)
        have hxleads := hlanded ▸ hxlands.leads
        have hwlooks := hlooked _ hw.proposed _ hw.leads
          (hstake w rfl (.inr ⟨_, hxlands.proposed, hne, hxleads⟩))
        have hxlooks := hlooked _ hxlands.proposed _ hxlands.leads
          (hstake x hlanded (.inr ⟨_, hw.proposed, hne.symm, hw.leads⟩))
        have hparts : parts x.declared = parts w.declared := by
          rw [← (hw.shown hwlooks).1, ← (hxlands.shown hxlooks).1, hlanded]
        refine absurd ?_ hne
        rw [← hxlands.join_parts, hparts]
        exact hw.join_parts

theorem allInView_writes {writes : List Write} (hlog : AllInView original s.log)
    (hlooked : writes ≠ [] → Looked env req original s (assess env req response).files)
    (hlands : Landings env (shownPaths env req s) s.everWritten s.tree (assess env req response).files writes)
    (hnodup : (writes.map (·.declared)).Nodup) :
    AllInView original (writes.map .wrote ++ .asked (prompt env req s) (some response) :: s.log) := by
  induction writes with
  | nil => exact hlog
  | cons w earlier ih =>
      have hlooked := hlooked (List.cons_ne_nil _ _)
      rw [List.map_cons, List.nodup_cons] at hnodup
      exact ⟨Lands.inView hlooked hlands (List.nodup_cons.mpr hnodup), ih (fun _ => hlooked) hlands.2 hnodup.2⟩

theorem allInView_step (hs : AllInView original s.log) (hallow : backstopLooks env req original s turn = true)
    (h : iterate env req turn s = some s') : AllInView original s'.log := by
  obtain ⟨hlog, -⟩ | ⟨response, done, writes, x, reports, hresponse, hpatched, hnodup, hquarantine, hlog, -⟩ :=
    iterate_log h
  · rw [hlog]
    exact hs
  · have hlooked : writes ≠ [] → Looked env req original s (assess env req response).files := by
      intro hne
      refine looked_of_backstopLooks hallow hresponse ?_
      rw [← Bool.not_eq_false]
      exact fun hcleared => hne (hquarantine hcleared)
    have hwrites := allInView_writes hs hlooked hpatched.landings hnodup
    rw [hlog]
    clear hlog
    induction reports with
    | nil => exact hwrites
    | cons report reports ih => exact ih

/-- **Every file from before the loop is replaced in view of the planner**, or after an
earlier iteration has written it. -/
theorem overwrites_seen {first : LoopState} (hstart : start env req original = .ok first)
    (h : Runs.Later (iterate env req) (backstopLooks env req original) first s) {later rest : List Event}
    {w : Write} (hlog : s.log = later ++ .wrote w :: rest) (horiginal : original.fileAt w.landed ≠ none)
    {old : Bytes} (hold : w.replaced = some old) :
    ∃ prompt earlier, iterationOf rest = some (prompt, earlier) ∧
      ((∃ path content, decode old = some content ∧ existingSection path content <:+: prompt) ∨
        ∃ x, .wrote x ∈ earlier ∧ x.landed = w.landed) := by
  have hall : AllInView original s.log := by
    refine h.invariant (I := fun s => AllInView original s.log) ?_ allInView_step
    rw [(start_eq hstart).1]
    trivial
  exact hall.inView hlog horiginal old hold

end Seen

/-! ### A file in view, and one that is not -/

def sourceFile : Path := ["src".toList, "a.py".toList]

def sourceClone : Tree :=
  FileTree.ofEntries [(["src".toList], .dir), (sourceFile, .file (encode "x = 0".toList))] (by decide)

def sourceStart : LoopState := ⟨sourceClone, [], [], [], .running, []⟩

def shownRequest : Request := { sampleRequest with readPaths := ["src/a.py".toList] }

/-- The newest write of a log that ends in one, and what was logged before it. -/
def lastWrite : List Event → Option (Write × List Event)
  | .wrote w :: rest => some (w, rest)
  | .verified _ :: .wrote w :: rest => some (w, rest)
  | _ => none

theorem lastWrite_eq {log rest : List Event} {w : Write} (h : lastWrite log = some (w, rest)) :
    ∃ later, log = later ++ .wrote w :: rest := by
  unfold lastWrite at h
  split at h
  · cases h
    exact ⟨[], rfl⟩
  · cases h
    exact ⟨[_], rfl⟩
  · cases h

/-- A file that was declared for reading is replaced. -/
theorem overwrites_seen_declared :
    ∃ s later w rest, Runs.Later (iterate sampleEnv shownRequest) (backstopLooks sampleEnv shownRequest sourceClone)
        sourceStart s ∧ s.log = later ++ .wrote w :: rest ∧ w.replaced = some (encode "x = 0".toList) ∧
      ∃ prompt earlier, iterationOf rest = some (prompt, earlier) ∧
        ((∃ path content, decode (encode "x = 0".toList) = some content ∧
            existingSection path content <:+: prompt) ∨
          ∃ x, .wrote x ∈ earlier ∧ x.landed = w.landed) := by
  obtain ⟨s, hrun, hs⟩ := (Option.any_eq_true _ _).mp (by decide +kernel :
    (Runs.run (iterate sampleEnv shownRequest) (backstopLooks sampleEnv shownRequest sourceClone)
      [proposing "./src/a.py" "x = 1"] sourceStart).any
        (fun s => (lastWrite s.log).any fun p =>
          p.1.landed = sourceFile ∧ p.1.replaced = some (encode "x = 0".toList)) = true)
  obtain ⟨⟨w, rest⟩, hlast, hw⟩ := (Option.any_eq_true _ _).mp hs
  obtain ⟨hlanded, hreplaced⟩ := of_decide_eq_true hw
  obtain ⟨later, hlog⟩ := lastWrite_eq hlast
  refine ⟨s, later, w, rest, .of_run hrun, hlog, hreplaced, ?_⟩
  refine overwrites_seen (rfl : start sampleEnv shownRequest sourceClone = .ok sourceStart) (.of_run hrun) hlog ?_
    hreplaced
  rw [hlanded]
  decide +kernel

/-- **A file is overwritten unseen**, under the name of a link to its directory: no path was
declared for reading, and nothing was written before. -/
theorem file_overwritten_unseen :
    start sampleEnv sampleRequest linkedClone = .ok linkedStart ∧
      ∃ s later w rest old, Runs.Later (iterate sampleEnv sampleRequest) (fun _ _ => true) linkedStart s ∧
        s.log = later ++ .wrote w :: rest ∧ linkedClone.fileAt w.landed ≠ none ∧ w.replaced = some old ∧
        ¬ ∃ prompt earlier, iterationOf rest = some (prompt, earlier) ∧
          ((∃ path content, decode old = some content ∧ existingSection path content <:+: prompt) ∨
            ∃ x, .wrote x ∈ earlier ∧ x.landed = w.landed) := by
  obtain ⟨s, hrun, hs⟩ := (Option.any_eq_true _ _).mp (by decide +kernel :
    (Runs.run (iterate sampleEnv sampleRequest) (fun _ _ => true)
      [proposing "docs/linkdir/test_x.py" "assert True"] linkedStart).any
        (fun s => (lastWrite s.log).any fun p =>
          p.1.landed = testFile ∧ p.1.replaced = some (encode "assert False".toList) ∧
            (iterationOf p.2).any fun q =>
              !contains "--- EXISTING FILE: ".toList q.1 && (landings q.2).isEmpty) = true)
  obtain ⟨⟨w, rest⟩, hlast, hw⟩ := (Option.any_eq_true _ _).mp hs
  obtain ⟨hlanded, hreplaced, hrest⟩ := of_decide_eq_true hw
  obtain ⟨later, hlog⟩ := lastWrite_eq hlast
  refine ⟨rfl, s, later, w, rest, _, .of_run hrun, hlog, ?_, hreplaced, ?_⟩
  · rw [hlanded]
    decide +kernel
  · rintro ⟨prompt, earlier, hiteration, hseen⟩
    rw [hiteration, Option.any_some, Bool.and_eq_true, Bool.not_eq_true', List.isEmpty_iff] at hrest
    rcases hseen with ⟨path, content, -, hinfix⟩ | ⟨x, hx, -⟩
    · have hhead : "--- EXISTING FILE: ".toList <:+: prompt := by
        refine List.IsInfix.trans ?_ hinfix
        unfold existingSection
        simp only [List.append_assoc]
        exact (List.prefix_append _ _).isInfix
      rw [contains_iff.mpr hhead] at hrest
      cases hrest.1
    · have hmem : (x.landed, x.replaced) ∈ landings earlier := List.mem_filterMap.mpr ⟨_, hx, rfl⟩
      rw [hrest.2] at hmem
      cases hmem

end CyClaw.Repo
