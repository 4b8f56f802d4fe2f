/-
Calls that load a file, edit what they have read and replace the file, without a lock.

`edit` says what a call makes of the file, `none` where it leaves it alone.  A call is over
with its replacement, or with its reading where it replaces nothing, or it raises and changes
nothing.

Where every call reads the file as it is, and replaces it while it still is as it was read
(`undisturbed`), the file is what the calls make of it one at a time, in the order in which
they end (`file_eq_run`); that order has all the calls there are (`begun_perm_ended`) and
respects that one ends before another begins (`before_of_ended`).
-/
import CyClaw.Lib.Threads
import Mathlib.Data.List.Nodup
import Mathlib.Data.List.Perm.Basic
import Mathlib.Data.Nat.Notation

namespace LoadSave

open Threads

structure Call (α : Type*) where
  body : α
  /-- When it began; no two calls begin at one time. -/
  began : ℕ

/-- A call that is over. -/
structure Ended (α : Type*) where
  call : Call α
  ended : ℕ
  raised : Bool

structure Store (α δ : Type*) where
  file : δ
  clock : ℕ
  begun : List (Call α)
  /-- The first one first. -/
  ended : List (Ended α)

inductive Job (α δ : Type*) where
  | waiting
  | begun (c : Call α)
  /-- With what it has read, and what is to replace it. -/
  | loaded (c : Call α) (seen new : δ)
  | over

inductive Turn (α δ : Type*) where
  | start (body : α)
  /-- What is read need not be what is there. -/
  | load (seen : δ)
  | save
  | fails

variable {α δ : Type*}

def Store.start (s : Store α δ) (body : α) : Store α δ :=
  { s with clock := s.clock + 1, begun := s.begun ++ [⟨body, s.clock⟩] }

def Store.finish (s : Store α δ) (c : Call α) (raised : Bool) : Store α δ :=
  { s with clock := s.clock + 1, ended := s.ended ++ [⟨c, s.clock, raised⟩] }

def act (edit : α → δ → Option δ) : Turn α δ → Job α δ → Store α δ → Option (Job α δ × Store α δ)
  | .start body, .waiting, s => some (.begun ⟨body, s.clock⟩, s.start body)
  | .load seen, .begun c, s =>
      match edit c.body seen with
      | some new => some (.loaded c seen new, s)
      | none => some (.over, s.finish c false)
  | .save, .loaded c _ new, s => some (.over, { s.finish c false with file := new })
  | .fails, .begun c, s => some (.over, s.finish c true)
  | .fails, .loaded c _ _, s => some (.over, s.finish c true)
  | _, _, _ => none

abbrev Calls (α δ : Type*) := World ℕ (Job α δ) (Store α δ)

def Calls.initial (file : δ) : Calls α δ where
  job := fun _ => .waiting
  store := { file := file, clock := 0, begun := [], ended := [] }

/-- A call that has begun and is not over. -/
def Job.pending : Job α δ → Option (Call α)
  | .begun c => some c
  | .loaded c _ _ => some c
  | _ => none

/-- The file is read as it is, and is replaced while it still is as it was read. -/
def undisturbed [DecidableEq δ] (w : Calls α δ) : ℕ × Turn α δ → Bool
  | (_, .load seen) => seen = w.store.file
  | (k, .save) =>
      match w.job k with
      | .loaded _ seen _ => w.store.file = seen
      | _ => true
  | _ => true

/-- The calls one at a time. -/
def run (edit : α → δ → Option δ) (file : δ) (bodies : List α) : δ :=
  bodies.foldl (fun file body => (edit body file).getD file) file

/-- The calls that are over and did not raise, in their order. -/
def Store.order (s : Store α δ) : List (Ended α) := s.ended.filter fun e => !e.raised

def Store.bodies (s : Store α δ) : List α := s.order.map fun e => e.call.body

@[simp] theorem run_concat (edit : α → δ → Option δ) (file : δ) (bodies : List α) (body : α) :
    run edit file (bodies ++ [body]) = (edit body (run edit file bodies)).getD (run edit file bodies) := by
  unfold run
  rw [List.foldl_append, List.foldl_cons, List.foldl_nil]

/-! ### What a step does -/

section Step

variable {edit : α → δ → Option δ} {c : Turn α δ} {b b' j : Job α δ} {s s' : Store α δ} {file : δ}

/-- A turn of an undisturbed run. -/
structure Calm (c : Turn α δ) (b : Job α δ) (s : Store α δ) : Prop where
  load : ∀ seen, c = .load seen → seen = s.file
  save : c = .save → ∀ call seen new, b = .loaded call seen new → s.file = seen

/-- A call that is to replace the file has edited what it has read. -/
def Job.Edited (edit : α → δ → Option δ) : Job α δ → Prop
  | .loaded c seen new => edit c.body seen = some new
  | _ => True

/-- **What a step makes of the store.** -/
inductive Moves (edit : α → δ → Option δ) (s : Store α δ) : Job α δ → Job α δ → Store α δ → Prop where
  | starts {body} : Moves edit s .waiting (.begun ⟨body, s.clock⟩) (s.start body)
  | loads {call new} (hedit : edit call.body s.file = some new) :
      Moves edit s (.begun call) (.loaded call s.file new) s
  | leaves {call} (hedit : edit call.body s.file = none) : Moves edit s (.begun call) .over (s.finish call false)
  | saves {call new} (hedit : edit call.body s.file = some new) :
      Moves edit s (.loaded call s.file new) .over { s.finish call false with file := new }
  | fails {call b} (hb : b.pending = some call) : Moves edit s b .over (s.finish call true)

theorem moves_of_act (hcalm : Calm c b s) (hb : b.Edited edit) (h : act edit c b s = some (b', s')) :
    Moves edit s b b' s' := by
  unfold act at h
  split at h
  · obtain ⟨rfl, rfl⟩ := Prod.mk.inj (Option.some.inj h)
    exact .starts
  · rename_i seen call
    obtain rfl := hcalm.load seen rfl
    split at h
    · rename_i new hedit
      obtain ⟨rfl, rfl⟩ := Prod.mk.inj (Option.some.inj h)
      exact .loads hedit
    · rename_i hedit
      obtain ⟨rfl, rfl⟩ := Prod.mk.inj (Option.some.inj h)
      exact .leaves hedit
  · rename_i call seen new
    obtain rfl := hcalm.save rfl _ _ _ rfl
    obtain ⟨rfl, rfl⟩ := Prod.mk.inj (Option.some.inj h)
    exact .saves hb
  · obtain ⟨rfl, rfl⟩ := Prod.mk.inj (Option.some.inj h)
    exact .fails rfl
  · obtain ⟨rfl, rfl⟩ := Prod.mk.inj (Option.some.inj h)
    exact .fails rfl
  · cases h

theorem edited_of_moves (hb : b.Edited edit) (h : Moves edit s b b' s') : b'.Edited edit := by
  cases h with
  | loads hedit => exact hedit
  | _ => trivial

/-! ### The file is what the calls make of it -/

/-- The file is what the calls that are over have made of it. -/
def Store.Serial (edit : α → δ → Option δ) (file : δ) (s : Store α δ) : Prop := s.file = run edit file s.bodies

theorem bodies_finish (s : Store α δ) (call : Call α) : (s.finish call false).bodies = s.bodies ++ [call.body] := by
  unfold Store.bodies Store.order Store.finish
  simp

theorem bodies_raise (s : Store α δ) (call : Call α) : (s.finish call true).bodies = s.bodies := by
  unfold Store.bodies Store.order Store.finish
  simp

theorem serial_of_moves (hs : s.Serial edit file) (h : Moves edit s b b' s') : s'.Serial edit file := by
  unfold Store.Serial at hs ⊢
  cases h with
  | starts => exact hs
  | loads => exact hs
  | leaves hedit =>
    rw [bodies_finish, run_concat, ← hs, hedit]
    rfl
  | saves hedit =>
    rename_i call new
    show new = run edit file (s.finish call false).bodies
    rw [bodies_finish, run_concat, ← hs, hedit]
    rfl
  | fails =>
    rw [bodies_raise]
    exact hs

/-! ### Times -/

structure Store.Timed (s : Store α δ) : Prop where
  begun : s.begun.Pairwise fun c c' => c.began < c'.began
  began_lt : ∀ c ∈ s.begun, c.began < s.clock
  ended : s.ended.Pairwise fun e e' => e.ended < e'.ended
  ended_lt : ∀ e ∈ s.ended, e.ended < s.clock
  began : ∀ e ∈ s.ended, e.call.began < e.ended
  mem_begun : ∀ e ∈ s.ended, e.call ∈ s.begun
  nodup : (s.ended.map Ended.call).Nodup

/-- What is known of a call that is not over. -/
def Job.Open (b : Job α δ) (s : Store α δ) : Prop :=
  ∀ call, b.pending = some call → call ∈ s.begun ∧ call ∉ s.ended.map Ended.call

/-- Two threads with calls of their own. -/
def Job.Apart (b b' : Job α δ) : Prop := ∀ call, b.pending = some call → b'.pending ≠ some call

theorem Job.Apart.symm (h : b.Apart b') : b'.Apart b := fun call hb' hb => h call hb hb'

theorem timed_start {body : α} (hs : s.Timed) : (s.start body).Timed where
  begun := by
    refine List.pairwise_append.mpr ⟨hs.begun, List.pairwise_singleton _ _, ?_⟩
    intro c hc c' hc'
    rw [List.mem_singleton.mp hc']
    exact hs.began_lt c hc
  began_lt := by
    intro c hc
    rcases List.mem_append.mp hc with hc | hc
    · exact Nat.lt_succ_of_lt (hs.began_lt c hc)
    · rw [List.mem_singleton.mp hc]
      exact Nat.lt_succ_self _
  ended := hs.ended
  ended_lt := fun e he => Nat.lt_succ_of_lt (hs.ended_lt e he)
  began := hs.began
  mem_begun := fun e he => List.mem_append_left _ (hs.mem_begun e he)
  nodup := hs.nodup

theorem timed_finish {call : Call α} {raised : Bool} (hs : s.Timed) (hmem : call ∈ s.begun)
    (hnot : call ∉ s.ended.map Ended.call) : (s.finish call raised).Timed where
  begun := hs.begun
  began_lt := fun c hc => Nat.lt_succ_of_lt (hs.began_lt c hc)
  ended := by
    refine List.pairwise_append.mpr ⟨hs.ended, List.pairwise_singleton _ _, ?_⟩
    intro e he e' he'
    rw [List.mem_singleton.mp he']
    exact hs.ended_lt e he
  ended_lt := by
    intro e he
    rcases List.mem_append.mp he with he | he
    · exact Nat.lt_succ_of_lt (hs.ended_lt e he)
    · rw [List.mem_singleton.mp he]
      exact Nat.lt_succ_self _
  began := by
    intro e he
    rcases List.mem_append.mp he with he | he
    · exact hs.began e he
    · rw [List.mem_singleton.mp he]
      exact hs.began_lt call hmem
  mem_begun := by
    intro e he
    rcases List.mem_append.mp he with he | he
    · exact hs.mem_begun e he
    · rw [List.mem_singleton.mp he]
      exact hmem
  nodup := by
    unfold Store.finish
    rw [List.map_append, List.map_singleton]
    have hconcat := hs.nodup.concat hnot
    rwa [List.concat_eq_append] at hconcat

theorem mem_ended_finish {call call' : Call α} {raised : Bool} (h : call' ∈ (s.finish call raised).ended.map Ended.call) :
    call' ∈ s.ended.map Ended.call ∨ call' = call := by
  unfold Store.finish at h
  rw [List.map_append, List.mem_append] at h
  exact h.imp_right fun h => by simpa using h

theorem timed_own (hs : s.Timed) (hb : b.Open s) (h : Moves edit s b b' s') : s'.Timed ∧ b'.Open s' := by
  have hover : ∀ s : Store α δ, Job.Open (.over : Job α δ) s := fun _ _ h => (by cases h)
  cases h with
  | starts =>
    rename_i body
    refine ⟨timed_start hs, ?_⟩
    rintro call ⟨⟩
    refine ⟨List.mem_append_right _ (List.mem_singleton_self _), fun hmem => ?_⟩
    obtain ⟨e, he, hcall⟩ := List.mem_map.mp hmem
    have hlt := hs.began_lt _ (hs.mem_begun e he)
    rw [hcall] at hlt
    exact Nat.lt_irrefl _ hlt
  | loads => exact ⟨hs, hb⟩
  | leaves =>
    obtain ⟨hmem, hnot⟩ := hb _ rfl
    exact ⟨timed_finish hs hmem hnot, hover _⟩
  | saves =>
    obtain ⟨hmem, hnot⟩ := hb _ rfl
    have hfinish : (s.finish _ false).Timed := timed_finish hs hmem hnot
    exact ⟨⟨hfinish.begun, hfinish.began_lt, hfinish.ended, hfinish.ended_lt, hfinish.began, hfinish.mem_begun,
      hfinish.nodup⟩, hover _⟩
  | fails hpending =>
    obtain ⟨hmem, hnot⟩ := hb _ hpending
    exact ⟨timed_finish hs hmem hnot, hover _⟩

/-- A call stays open while another ends. -/
theorem open_finish {call : Call α} {raised : Bool} (hj : j.Open s) (hne : j.pending ≠ some call) :
    j.Open (s.finish call raised) := by
  intro call' hcall'
  obtain ⟨hmem, hnot⟩ := hj call' hcall'
  refine ⟨hmem, fun hended => ?_⟩
  rcases mem_ended_finish hended with h | rfl
  · exact hnot h
  · exact hne hcall'

/-- A step beside another thread. -/
theorem timed_other (hs : s.Timed) (hj : j.Open s) (hapart : b.Apart j) (h : Moves edit s b b' s') :
    j.Open s' ∧ b'.Apart j := by
  have hover : Job.Apart (.over : Job α δ) j := fun _ h => (by cases h)
  cases h with
  | starts =>
    rename_i body
    refine ⟨?_, ?_⟩
    · intro call hcall
      obtain ⟨hmem, hnot⟩ := hj call hcall
      exact ⟨List.mem_append_left _ hmem, hnot⟩
    · rintro call ⟨⟩ hcall
      exact Nat.lt_irrefl _ (hs.began_lt _ (hj _ hcall).1)
  | loads => exact ⟨hj, hapart⟩
  | leaves => exact ⟨open_finish hj (hapart _ rfl), hover⟩
  | saves => exact ⟨open_finish hj (hapart _ rfl), hover⟩
  | fails hpending => exact ⟨open_finish hj (hapart _ hpending), hover⟩

/-- A call that has begun is over, or some thread is at it. -/
theorem someone_of_moves {call : Call α} (h : Moves edit s b b' s') :
    (call ∈ s'.begun → call ∈ s'.ended.map Ended.call) ∨ b'.pending = some call ∨ ¬ b.pending = some call ∧
      ((call ∈ s.begun → call ∈ s.ended.map Ended.call) → call ∈ s'.begun → call ∈ s'.ended.map Ended.call) := by
  have hfinish : ∀ (call' : Call α) (raised : Bool) (b : Job α δ), b.pending = some call' →
      (call ∈ s.begun → call ∈ (s.finish call' raised).ended.map Ended.call) ∨ Job.pending (.over : Job α δ) = some call ∨
        ¬ b.pending = some call ∧ ((call ∈ s.begun → call ∈ s.ended.map Ended.call) → call ∈ s.begun →
          call ∈ (s.finish call' raised).ended.map Ended.call) := by
    intro call' raised b hb
    have hmem : (s.finish call' raised).ended.map Ended.call = s.ended.map Ended.call ++ [call'] := by
      simp [Store.finish]
    rw [hmem]
    by_cases hcall : call = call'
    · exact Or.inl fun _ => List.mem_append_right _ (List.mem_singleton.mpr hcall)
    · refine Or.inr (Or.inr ⟨fun h => hcall (Option.some.inj (h.symm.trans hb)), fun h hbegun => ?_⟩)
      exact List.mem_append_left _ (h hbegun)
  cases h with
  | starts =>
    rename_i body
    by_cases hcall : call = ⟨body, s.clock⟩
    · exact Or.inr (Or.inl (congrArg some hcall.symm))
    · refine Or.inr (Or.inr ⟨fun h => (by cases h), fun h hbegun => h ?_⟩)
      exact (List.mem_append.mp hbegun).resolve_right fun h => hcall (List.mem_singleton.mp h)
  | loads => exact still id id
  | leaves => exact hfinish _ _ _ rfl
  | saves => exact hfinish _ _ _ rfl
  | fails hpending => exact hfinish _ _ _ hpending

end Step

/-! ### Runs -/

section Runs

/-- Where every thread that took a turn is done, no call is pending. -/
theorem idle_of_run {edit : α → δ → Option δ} {allow : Calls α δ → ℕ × Turn α δ → Bool} {w : Calls α δ} {file : δ}
    {turns : List (ℕ × Turn α δ)} (hrun : Runs.run (step (act edit)) allow turns (Calls.initial file) = some w)
    (hdone : (turns.all fun turn => (w.job turn.1).pending.isNone) = true) (k : ℕ) : (w.job k).pending = none := by
  refine jobs_of_run (P := fun b => b.pending = none) hrun (fun _ => rfl) (fun turn hturn => ?_) k
  exact Option.isNone_iff_eq_none.mp (List.all_eq_true.mp hdone turn hturn)

variable [DecidableEq δ] {edit : α → δ → Option δ} {allow : Calls α δ → ℕ × Turn α δ → Bool} {w : Calls α δ} {file : δ}

theorem calm_of_undisturbed {k : ℕ} {c : Turn α δ} (h : undisturbed w (k, c) = true) : Calm c (w.job k) w.store where
  load := by
    rintro seen rfl
    exact of_decide_eq_true h
  save := by
    rintro rfl call seen new hjob
    rw [undisturbed, hjob] at h
    exact of_decide_eq_true h

/-- What is kept of the store. -/
def Store.Wf (edit : α → δ → Option δ) (file : δ) (s : Store α δ) : Prop := s.Timed ∧ s.Serial edit file

/-- What is kept of a thread. -/
def Job.Sound (edit : α → δ → Option δ) (b : Job α δ) (s : Store α δ) : Prop := b.Edited edit ∧ b.Open s

variable (hallow : ∀ w e, allow w e = true → undisturbed w e = true)

include hallow

theorem calls_keep : Keeps (act edit) allow (Store.Wf edit file) (Job.Sound edit) Job.Apart where
  own := by
    intro w k c b s hw ha h
    have hmove := moves_of_act (calm_of_undisturbed (hallow _ _ ha)) (hw.each k).1 h
    obtain ⟨htimed, hopen⟩ := timed_own hw.store.1 (hw.each k).2 hmove
    exact ⟨⟨htimed, serial_of_moves hw.store.2 hmove⟩, edited_of_moves (hw.each k).1 hmove, hopen⟩
  other := by
    intro w k c b s hw ha h k' hk'
    have hmove := moves_of_act (calm_of_undisturbed (hallow _ _ ha)) (hw.each k).1 h
    obtain ⟨hopen, hapart⟩ := timed_other hw.store.1 (hw.each k').2 (hw.pair k k' hk'.symm) hmove
    exact ⟨⟨(hw.each k').1, hopen⟩, hapart, hapart.symm⟩

theorem calls_hold (h : Runs.Later (step (act edit)) allow (Calls.initial file) w) :
    Holds (Store.Wf edit file) (Job.Sound edit) Job.Apart w := by
  have hstart : Holds (Store.Wf edit file) (Job.Sound edit) Job.Apart (Calls.initial file : Calls α δ) := by
    refine ⟨⟨⟨.nil, ?_, .nil, ?_, ?_, ?_, List.nodup_nil⟩, rfl⟩, fun _ => ⟨trivial, fun _ h => ?_⟩, fun _ _ _ _ h => ?_⟩
    all_goals first | exact fun _ h => (by cases h) | cases h
  exact hstart.later (calls_keep hallow) h

/-- **The file is what the calls make of it one at a time.** -/
theorem file_eq_run (h : Runs.Later (step (act edit)) allow (Calls.initial file) w) :
    w.store.file = run edit file w.store.bodies := (calls_hold hallow h).store.2

/-- Once no call is pending, those that are over are all there are. -/
theorem begun_perm_ended (h : Runs.Later (step (act edit)) allow (Calls.initial file) w)
    (hidle : ∀ k, (w.job k).pending = none) : w.store.begun.Perm (w.store.ended.map Ended.call) := by
  have hw := (calls_hold hallow h).store.1
  have hnodup : w.store.begun.Pairwise (· ≠ ·) := hw.begun.imp fun {c c'} hlt heq => by
    rw [heq] at hlt
    exact Nat.lt_irrefl _ hlt
  refine (List.perm_ext_iff_of_nodup hnodup hw.nodup).mpr fun call => ⟨?_, ?_⟩
  · have hsomeone : Someone (fun s : Store α δ => call ∈ s.begun → call ∈ s.ended.map Ended.call)
        (fun b : Job α δ => b.pending = some call) w := by
      refine (h.invariant (I := fun w => Holds (Store.Wf edit file) (Job.Sound edit) Job.Apart w ∧
        Someone (fun s : Store α δ => call ∈ s.begun → call ∈ s.ended.map Ended.call)
          (fun b : Job α δ => b.pending = some call) w) ⟨calls_hold hallow .refl, Or.inl fun h => (by cases h)⟩ ?_).2
      rintro w w' ⟨k, c⟩ ⟨hw, hsome⟩ ha hstep
      refine ⟨hw.step (calls_keep hallow) ha hstep, hsome.step hstep fun hact => ?_⟩
      exact someone_of_moves (moves_of_act (calm_of_undisturbed (hallow _ _ ha)) (hw.each k).1 hact)
    refine hsomeone.resolve_right ?_
    rintro ⟨k, hk⟩
    rw [hidle k] at hk
    cases hk
  · intro hmem
    obtain ⟨e, he, rfl⟩ := List.mem_map.mp hmem
    exact hw.mem_begun e he

/-- A call that is over before another begins comes before it. -/
theorem before_of_ended (h : Runs.Later (step (act edit)) allow (Calls.initial file) w) {e e' : Ended α}
    {before after : List (Ended α)} (horder : w.store.ended = before ++ e' :: after) (he : e ∈ w.store.ended)
    (hlt : e.ended < e'.call.began) : e ∈ before := by
  have hw := (calls_hold hallow h).store.1
  have hmem : e' ∈ w.store.ended := by
    rw [horder]
    exact List.mem_append_right _ List.mem_cons_self
  have hlt' : e.ended < e'.ended := Nat.lt_trans hlt (hw.began e' hmem)
  rw [horder] at he
  rcases List.mem_append.mp he with he | he
  · exact he
  · have hsorted := hw.ended
    rw [horder, List.pairwise_append, List.pairwise_cons] at hsorted
    rcases List.mem_cons.mp he with rfl | he
    · exact absurd hlt' (Nat.lt_irrefl _)
    · exact absurd hlt' (Nat.lt_asymm (hsorted.2.1.1 e he))

omit [DecidableEq δ] hallow in
/-- What holds of every call that may begin. -/
theorem begun_of_start {P : α → Prop} (hstart : ∀ w k body, allow w (k, .start body) = true → P body)
    (h : Runs.Later (step (act edit)) allow (Calls.initial file) w) : ∀ call ∈ w.store.begun, P call.body := by
  refine h.invariant (I := fun w => ∀ call ∈ w.store.begun, P call.body) (fun _ h => (by cases h)) ?_
  rintro w w' ⟨k, c⟩ hw ha hstep
  obtain ⟨b, s, hact, rfl⟩ := step_ok hstep
  rw [World.set_store]
  unfold act at hact
  split at hact
  · rename_i body _
    obtain ⟨-, rfl⟩ := Prod.mk.inj (Option.some.inj hact)
    intro call hcall
    rcases List.mem_append.mp hcall with hcall | hcall
    · exact hw call hcall
    · rw [List.mem_singleton.mp hcall]
      exact hstart w k body ha
  · split at hact
    · obtain ⟨-, rfl⟩ := Prod.mk.inj (Option.some.inj hact)
      exact hw
    · obtain ⟨-, rfl⟩ := Prod.mk.inj (Option.some.inj hact)
      exact hw
  · obtain ⟨-, rfl⟩ := Prod.mk.inj (Option.some.inj hact)
    exact hw
  · obtain ⟨-, rfl⟩ := Prod.mk.inj (Option.some.inj hact)
    exact hw
  · obtain ⟨-, rfl⟩ := Prod.mk.inj (Option.some.inj hact)
    exact hw
  · cases hact

theorem bodies_of_start {P : α → Prop} (hstart : ∀ w k body, allow w (k, .start body) = true → P body)
    (h : Runs.Later (step (act edit)) allow (Calls.initial file) w) : ∀ body ∈ w.store.bodies, P body := by
  intro body hbody
  obtain ⟨e, he, rfl⟩ := List.mem_map.mp hbody
  exact begun_of_start hstart h _ ((calls_hold hallow h).store.1.mem_begun e (List.mem_filter.mp he).1)

/-- What a replacement makes of the file. -/
theorem edit_of_save (h : Runs.Later (step (act edit)) allow (Calls.initial file) w) {k : ℕ} {b : Job α δ} {s : Store α δ}
    {call : Call α} {seen new : δ} (ha : allow w (k, .save) = true) (hjob : w.job k = .loaded call seen new)
    (hact : act edit .save (w.job k) w.store = some (b, s)) : edit call.body w.store.file = some s.file := by
  have hedited := ((calls_hold hallow h).each k).1
  have hseen := (calm_of_undisturbed (hallow _ _ ha)).save rfl call seen new hjob
  rw [hjob] at hedited hact
  obtain ⟨-, rfl⟩ := Prod.mk.inj (Option.some.inj hact)
  rw [hseen]
  exact hedited

end Runs

end LoadSave
