/-
The console's chat client, `HarnessChatClient`.

Cancelling replaces the client and the event its connections watch, and retires the old ones,
all by single assignments that other threads may come between.  Clients and events go by the
order in which they are made.

Where no call of `abort_in_flight` reads the attributes while another is replacing them, what
is published stays usable and what was replaced gets closed (`chat_client_usable`).  Two calls
that overlap may publish the client of one with the event of the other
(`overlapping_cancels_poison`).
-/
import CyClaw.Lib.Threads
import Mathlib.Data.Nat.Notation

namespace CyClaw.Harness

open Threads

/-- The attributes, and the objects they have named. -/
structure ChatClient where
  /-- `self._client`. -/
  client : ℕ
  /-- `self._cancel`. -/
  cancel : ℕ
  clients : ℕ
  events : ℕ
  /-- The event that a client's connections are armed with. -/
  armed : ℕ → Option ℕ
  severed : ℕ → Bool
  closed : ℕ → Bool
  isSet : ℕ → Bool
  /-- All that `self._client` has been. -/
  published : List ℕ
  /-- The calls that have read `self._client` and not published another yet. -/
  switching : ℕ

/-- `__init__`. -/
def ChatClient.initial : ChatClient where
  client := 0
  cancel := 0
  clients := 1
  events := 1
  armed := fun c => if c = 0 then some 0 else none
  severed := fun _ => false
  closed := fun _ => false
  isSet := fun _ => false
  published := [0]
  switching := 0

/-- A post by this client may be cut off. -/
def ChatClient.cuts (s : ChatClient) (c : ℕ) : Bool := s.closed c || s.severed c || (s.armed c).any s.isSet

/-- Where a thread is: in `chat` with the client it posts by, or in `abort_in_flight` behind
the statement that is named. -/
inductive ChatJob where
  | idle
  | posting (client : ℕ)
  | readClient (old : ℕ)
  | readCancel (old oldCancel : ℕ)
  | renewed (old oldCancel : ℕ)
  | built (old oldCancel new : ℕ)
  | armed (old oldCancel new : ℕ)
  | published (old oldCancel : ℕ)
  | woken (old : ℕ)
  | shutDown (old : ℕ)

inductive ChatTurn where
  | chat
  | answered
  | aborted
  | abort
  | next

def chatAct : ChatTurn → ChatJob → ChatClient → Option (ChatJob × ChatClient)
  | .chat, .idle, s => some (.posting s.client, s)
  | .answered, .posting _, s => some (.idle, s)
  | .aborted, .posting c, s => if s.cuts c then some (.idle, s) else none
  | .abort, .idle, s => some (.readClient s.client, { s with switching := s.switching + 1 })
  | .next, .readClient old, s => some (.readCancel old s.cancel, s)
  | .next, .readCancel old oldCancel, s =>
      some (.renewed old oldCancel, { s with cancel := s.events, events := s.events + 1 })
  -- `_build_client` makes a client and arms it with what `self._cancel` is by then.
  | .next, .renewed old oldCancel, s => some (.built old oldCancel s.clients, { s with clients := s.clients + 1 })
  | .next, .built old oldCancel new, s =>
      some (.armed old oldCancel new, { s with armed := Function.update s.armed new (some s.cancel) })
  | .next, .armed old oldCancel new, s =>
      some (.published old oldCancel,
        { s with client := new, published := new :: s.published, switching := s.switching - 1 })
  | .next, .published old oldCancel, s => some (.woken old, { s with isSet := Function.update s.isSet oldCancel true })
  | .next, .woken old, s => some (.shutDown old, { s with severed := Function.update s.severed old true })
  | .next, .shutDown old, s => some (.idle, { s with closed := Function.update s.closed old true })
  | _, _, _ => none

/-- A thread that has not returned from `abort_in_flight`. -/
def ChatJob.aborting : ChatJob → Bool
  | .idle => false
  | .posting _ => false
  | _ => true

abbrev ChatWorld := World ℕ ChatJob ChatClient

def ChatWorld.initial : ChatWorld := { job := fun _ => .idle, store := .initial }

/-- No call reads the attributes while another is replacing them. -/
def cancelsApart (w : ChatWorld) : ℕ × ChatTurn → Bool
  | (_, .abort) => w.store.switching = 0
  | _ => true

/-! ### What is published -/

/-- The published client can be posted by and be cancelled. -/
structure ChatClient.Usable (s : ChatClient) : Prop where
  notCut : s.closed s.client = false ∧ s.severed s.client = false
  unset : s.isSet s.cancel = false
  armed : s.armed s.client = some s.cancel

structure ChatClient.Wf (s : ChatClient) : Prop where
  client_mem : s.client ∈ s.published
  made : ∀ c ∈ s.published, c < s.clients
  cancel_lt : s.cancel < s.events
  newEvents : ∀ e, s.events ≤ e → s.isSet e = false
  newClients : ∀ c, s.clients ≤ c → s.closed c = false ∧ s.severed c = false
  usable : s.switching = 0 → s.Usable

theorem ChatClient.initial_wf : ChatClient.initial.Wf where
  client_mem := List.mem_singleton_self 0
  made := fun c hc => by simp [initial] at hc ⊢; exact hc
  cancel_lt := Nat.zero_lt_one
  newEvents := fun _ _ => rfl
  newClients := fun _ _ => ⟨rfl, rfl⟩
  usable := fun _ => ⟨⟨rfl, rfl⟩, rfl, rfl⟩

/-- A client that has been replaced. -/
def ChatClient.Retired (s : ChatClient) (c : ℕ) : Prop := c ∈ s.published ∧ c ≠ s.client

/-- A call on its way to another client: it is the only one, and the event is already new. -/
def ChatClient.Renewed (s : ChatClient) (old oldCancel : ℕ) : Prop :=
  s.switching = 1 ∧ old = s.client ∧ oldCancel < s.events ∧ oldCancel ≠ s.cancel ∧ s.isSet s.cancel = false

/-- A client made and not published yet. -/
def ChatClient.Spare (s : ChatClient) (new : ℕ) : Prop :=
  new < s.clients ∧ new ∉ s.published ∧ s.closed new = false ∧ s.severed new = false

def ChatJob.Sound : ChatJob → ChatClient → Prop
  | .idle, _ => True
  | .posting _, _ => True
  | .readClient old, s => s.switching = 1 ∧ old = s.client ∧ s.Usable
  | .readCancel old oldCancel, s => s.switching = 1 ∧ old = s.client ∧ oldCancel = s.cancel ∧ s.Usable
  | .renewed old oldCancel, s => s.Renewed old oldCancel
  | .built old oldCancel new, s => s.Renewed old oldCancel ∧ s.Spare new
  | .armed old oldCancel new, s => s.Renewed old oldCancel ∧ s.Spare new ∧ s.armed new = some s.cancel
  | .published old oldCancel, s => oldCancel < s.events ∧ oldCancel ≠ s.cancel ∧ s.Retired old
  | .woken old, s => s.Retired old
  | .shutDown old, s => s.Retired old

/-- A thread that is replacing the attributes. -/
def ChatJob.switches : ChatJob → Bool
  | .readClient _ => true
  | .readCancel _ _ => true
  | .renewed _ _ => true
  | .built _ _ _ => true
  | .armed _ _ _ => true
  | _ => false

def ChatJob.Apart (b b' : ChatJob) : Prop := b.switches = true → b'.switches = false

/-- What a turn of a thread does. -/
inductive ChatMoves (s : ChatClient) : ChatTurn → ChatJob → ChatJob → ChatClient → Prop where
  | chat : ChatMoves s .chat .idle (.posting s.client) s
  | answered {c} : ChatMoves s .answered (.posting c) .idle s
  | aborted {c} (hcut : s.cuts c = true) : ChatMoves s .aborted (.posting c) .idle s
  | abort : ChatMoves s .abort .idle (.readClient s.client) { s with switching := s.switching + 1 }
  | readClient {old} : ChatMoves s .next (.readClient old) (.readCancel old s.cancel) s
  | readCancel {old oldCancel} : ChatMoves s .next (.readCancel old oldCancel) (.renewed old oldCancel)
      { s with cancel := s.events, events := s.events + 1 }
  | renewed {old oldCancel} : ChatMoves s .next (.renewed old oldCancel) (.built old oldCancel s.clients)
      { s with clients := s.clients + 1 }
  | built {old oldCancel new} : ChatMoves s .next (.built old oldCancel new) (.armed old oldCancel new)
      { s with armed := Function.update s.armed new (some s.cancel) }
  | armed {old oldCancel new} : ChatMoves s .next (.armed old oldCancel new) (.published old oldCancel)
      { s with client := new, published := new :: s.published, switching := s.switching - 1 }
  | published {old oldCancel} : ChatMoves s .next (.published old oldCancel) (.woken old)
      { s with isSet := Function.update s.isSet oldCancel true }
  | woken {old} : ChatMoves s .next (.woken old) (.shutDown old)
      { s with severed := Function.update s.severed old true }
  | shutDown {old} : ChatMoves s .next (.shutDown old) .idle { s with closed := Function.update s.closed old true }

section Steps

variable {c : ChatTurn} {b b' b'' : ChatJob} {s s' : ChatClient}

theorem chat_moves (h : chatAct c b s = some (b', s')) : ChatMoves s c b b' s' := by
  unfold chatAct at h
  split at h
  case h_3 =>
    split at h
    · rename_i hcut
      obtain ⟨rfl, rfl⟩ := Prod.mk.inj (Option.some.inj h)
      exact .aborted hcut
    · cases h
  case h_13 => cases h
  all_goals
    obtain ⟨rfl, rfl⟩ := Prod.mk.inj (Option.some.inj h)
    constructor

theorem switching_of_switches (h : b.Sound s) (hb : b.switches = true) : s.switching = 1 := by
  cases b with
  | idle => cases hb
  | posting => cases hb
  | readClient => exact h.1
  | readCancel => exact h.1
  | renewed => exact h.1
  | built => exact h.1.1
  | armed => exact h.1.1
  | published => cases hb
  | woken => cases hb
  | shutDown => cases hb

/-- A step by itself. -/
theorem chat_own (hs : s.Wf) (hb : b.Sound s) (hallow : c = .abort → s.switching = 0)
    (h : chatAct c b s = some (b', s')) : s'.Wf ∧ b'.Sound s' := by
  cases chat_moves h with
  | chat =>
    exact ⟨hs, trivial⟩
  | answered =>
    exact ⟨hs, trivial⟩
  | aborted =>
    exact ⟨hs, trivial⟩
  | abort =>
    have hzero := hallow rfl
    have husable := hs.usable hzero
    refine ⟨{ hs with usable := fun h => absurd h (Nat.succ_ne_zero _) }, ?_, rfl, ⟨husable.notCut, husable.unset, husable.armed⟩⟩
    show s.switching + 1 = 1
    rw [hzero]
  | readClient =>
    exact ⟨hs, hb.1, hb.2.1, rfl, hb.2.2⟩
  | readCancel =>
    obtain ⟨hone, hold, rfl, husable⟩ := hb
    refine ⟨⟨hs.client_mem, hs.made, Nat.lt_succ_self _, ?_, hs.newClients, ?_⟩, hone, hold, ?_, ?_, ?_⟩
    · intro e he
      exact hs.newEvents e (Nat.le_of_succ_le he)
    · intro hzero
      rw [show s.switching = 0 from hzero] at hone
      cases hone
    · exact Nat.lt_succ_of_lt hs.cancel_lt
    · exact Nat.ne_of_lt hs.cancel_lt
    · exact hs.newEvents _ (Nat.le_refl _)
  | renewed =>
    refine ⟨⟨hs.client_mem, fun c hc => Nat.lt_succ_of_lt (hs.made c hc), hs.cancel_lt, hs.newEvents, ?_, ?_⟩, hb,
      Nat.lt_succ_self _, ?_, hs.newClients _ (Nat.le_refl _)⟩
    · intro c hc
      exact hs.newClients c (Nat.le_of_succ_le hc)
    · intro hzero
      have hone := hb.1
      rw [show s.switching = 0 from hzero] at hone
      cases hone
    · intro hmem
      exact Nat.lt_irrefl _ (hs.made _ hmem)
  | built =>
    obtain ⟨hrenewed, hspare⟩ := hb
    refine ⟨⟨hs.client_mem, hs.made, hs.cancel_lt, hs.newEvents, hs.newClients, ?_⟩, hrenewed, hspare, ?_⟩
    · intro hzero
      have hone := hrenewed.1
      rw [show s.switching = 0 from hzero] at hone
      cases hone
    · exact Function.update_self _ _ _
  | armed =>
    obtain ⟨⟨hone, hold, hlt, hne, hunset⟩, ⟨hmade, hnew, hclosed, hsevered⟩, harmed⟩ := hb
    refine ⟨⟨List.mem_cons_self, ?_, hs.cancel_lt, hs.newEvents, hs.newClients, ?_⟩, hlt, hne, ?_, ?_⟩
    · exact List.forall_mem_cons.mpr ⟨hmade, hs.made⟩
    · exact fun _ => ⟨⟨hclosed, hsevered⟩, hunset, harmed⟩
    · rw [hold]
      exact List.mem_cons_of_mem _ hs.client_mem
    · rw [hold]
      rintro rfl
      exact hnew hs.client_mem
  | published =>
    obtain ⟨hlt, hne, hretired⟩ := hb
    refine ⟨⟨hs.client_mem, hs.made, hs.cancel_lt, ?_, hs.newClients, ?_⟩, hretired⟩
    · intro e he
      exact (Function.update_of_ne (Nat.ne_of_gt (Nat.lt_of_lt_of_le hlt he)) _ _).trans (hs.newEvents e he)
    · intro hzero
      have husable := hs.usable hzero
      exact ⟨husable.notCut, (Function.update_of_ne hne.symm _ _).trans husable.unset, husable.armed⟩
  | woken =>
    refine ⟨⟨hs.client_mem, hs.made, hs.cancel_lt, hs.newEvents, ?_, ?_⟩, hb⟩
    · intro c hc
      have hne := Nat.ne_of_gt (Nat.lt_of_lt_of_le (hs.made _ hb.1) hc)
      exact ⟨(hs.newClients c hc).1, (Function.update_of_ne hne _ _).trans (hs.newClients c hc).2⟩
    · intro hzero
      have husable := hs.usable hzero
      exact ⟨⟨husable.notCut.1, (Function.update_of_ne hb.2.symm _ _).trans husable.notCut.2⟩, husable.unset,
        husable.armed⟩
  | shutDown =>
    refine ⟨⟨hs.client_mem, hs.made, hs.cancel_lt, hs.newEvents, ?_, ?_⟩, trivial⟩
    · intro c hc
      have hne := Nat.ne_of_gt (Nat.lt_of_lt_of_le (hs.made _ hb.1) hc)
      exact ⟨(Function.update_of_ne hne _ _).trans (hs.newClients c hc).1, (hs.newClients c hc).2⟩
    · intro hzero
      have husable := hs.usable hzero
      exact ⟨⟨(Function.update_of_ne hb.2.symm _ _).trans husable.notCut.1, husable.notCut.2⟩, husable.unset,
        husable.armed⟩

theorem retired_step {r : ℕ} (hb : b.Sound s) (hr : s.Retired r) (h : chatAct c b s = some (b', s')) : s'.Retired r := by
  cases chat_moves h with
  | armed =>
    refine ⟨List.mem_cons_of_mem _ hr.1, ?_⟩
    rintro rfl
    exact hb.2.1.2.1 hr.1
  | _ =>
    exact hr

theorem event_step {e : ℕ} (hlt : e < s.events) (hne : e ≠ s.cancel) (h : chatAct c b s = some (b', s')) :
    e < s'.events ∧ e ≠ s'.cancel := by
  cases chat_moves h with
  | readCancel =>
    exact ⟨Nat.lt_succ_of_lt hlt, Nat.ne_of_lt hlt⟩
  | _ =>
    exact ⟨hlt, hne⟩

/-- What becomes of retired clients, and of events but the current one, leaves a call alone that
is replacing the attributes. -/
theorem sound_retiring {isSet severed closed : ℕ → Bool} (hset : isSet s.cancel = s.isSet s.cancel)
    (hclients : ∀ r, ¬ s.Retired r → severed r = s.severed r ∧ closed r = s.closed r) (hb : b.Sound s)
    (hswitches : b.switches = true) : b.Sound { s with isSet := isSet, severed := severed, closed := closed } := by
  have husable : s.Usable → ChatClient.Usable { s with isSet := isSet, severed := severed, closed := closed } := by
    intro h
    obtain ⟨hsevered, hclosed⟩ := hclients s.client fun hr => hr.2 rfl
    exact ⟨⟨hclosed.trans h.notCut.1, hsevered.trans h.notCut.2⟩, hset.trans h.unset, h.armed⟩
  have hrenewed : ∀ {old e}, s.Renewed old e →
      ChatClient.Renewed { s with isSet := isSet, severed := severed, closed := closed } old e :=
    fun h => ⟨h.1, h.2.1, h.2.2.1, h.2.2.2.1, hset.trans h.2.2.2.2⟩
  have hspare : ∀ {new}, s.Spare new →
      ChatClient.Spare { s with isSet := isSet, severed := severed, closed := closed } new := by
    intro new h
    obtain ⟨hsevered, hclosed⟩ := hclients new fun hr => h.2.1 hr.1
    exact ⟨h.1, h.2.1, hclosed.trans h.2.2.1, hsevered.trans h.2.2.2⟩
  cases b with
  | readClient => exact ⟨hb.1, hb.2.1, husable hb.2.2⟩
  | readCancel => exact ⟨hb.1, hb.2.1, hb.2.2.1, husable hb.2.2.2⟩
  | renewed => exact hrenewed hb
  | built => exact ⟨hrenewed hb.1, hspare hb.2⟩
  | armed => exact ⟨hrenewed hb.1, hspare hb.2.1, hb.2.2⟩
  | _ => cases hswitches

/-- A step beside a call that is replacing the attributes. -/
theorem switching_step (hb : b.Sound s) (hb'' : b''.Sound s) (hswitches : b''.switches = true)
    (hnot : b.switches = false) (hallow : c = .abort → s.switching = 0) (h : chatAct c b s = some (b', s')) :
    b''.Sound s' ∧ b'.switches = false := by
  cases chat_moves h with
  | chat =>
    exact ⟨hb'', rfl⟩
  | answered =>
    exact ⟨hb'', rfl⟩
  | aborted =>
    exact ⟨hb'', rfl⟩
  | abort =>
    have hone := switching_of_switches hb'' hswitches
    rw [hallow rfl] at hone
    cases hone
  | published =>
    refine ⟨sound_retiring ?_ (fun _ _ => ⟨rfl, rfl⟩) hb'' hswitches, rfl⟩
    exact Function.update_of_ne hb.2.1.symm _ _
  | woken =>
    refine ⟨sound_retiring rfl (fun r hr => ⟨?_, rfl⟩) hb'' hswitches, rfl⟩
    exact Function.update_of_ne (by rintro rfl; exact hr hb) _ _
  | shutDown =>
    refine ⟨sound_retiring rfl (fun r hr => ⟨rfl, ?_⟩) hb'' hswitches, rfl⟩
    exact Function.update_of_ne (by rintro rfl; exact hr hb) _ _
  | _ =>
    cases hnot

theorem chat_other (hb : b.Sound s) (hb'' : b''.Sound s) (hapart : b.Apart b'') (hallow : c = .abort → s.switching = 0)
    (h : chatAct c b s = some (b', s')) : b''.Sound s' ∧ (b''.switches = true → b'.switches = false) := by
  by_cases hswitches : b''.switches = true
  · have hnot : b.switches = false := by
      by_contra hb'
      rw [hapart (Bool.not_eq_false _ ▸ hb')] at hswitches
      cases hswitches
    obtain ⟨hsound, hb'⟩ := switching_step hb hb'' hswitches hnot hallow h
    exact ⟨hsound, fun _ => hb'⟩
  · refine ⟨?_, fun h => absurd h hswitches⟩
    cases b'' with
    | idle => trivial
    | posting => trivial
    | published => exact ⟨(event_step hb''.1 hb''.2.1 h).1, (event_step hb''.1 hb''.2.1 h).2, retired_step hb hb''.2.2 h⟩
    | woken => exact retired_step hb hb'' h
    | shutDown => exact retired_step hb hb'' h
    | _ => exact absurd rfl hswitches

end Steps

theorem chat_keeps : Keeps (κ := ℕ) chatAct cancelsApart ChatClient.Wf ChatJob.Sound ChatJob.Apart where
  own := by
    intro w k c b s hw hallow h
    refine chat_own hw.store (hw.each k) ?_ h
    rintro rfl
    exact of_decide_eq_true hallow
  other := by
    intro w k c b s hw hallow h k' hk'
    have hallow' : c = .abort → w.store.switching = 0 := by
      rintro rfl
      exact of_decide_eq_true hallow
    obtain ⟨hsound, hnot⟩ := chat_other (hw.each k) (hw.each k') (hw.pair k k' hk'.symm) hallow' h
    refine ⟨hsound, ?_, hnot⟩
    intro hb
    by_contra hb'
    rw [hnot (Bool.not_eq_false _ ▸ hb')] at hb
    cases hb

theorem chat_holds {w : ChatWorld} (h : Runs.Later (step chatAct) cancelsApart ChatWorld.initial w) :
    Holds ChatClient.Wf ChatJob.Sound ChatJob.Apart w := by
  have hstart : Holds ChatClient.Wf ChatJob.Sound ChatJob.Apart ChatWorld.initial :=
    ⟨ChatClient.initial_wf, fun _ => trivial, fun _ _ _ h => (by cases h)⟩
  exact hstart.later chat_keeps h

/-! ### What was replaced -/

/-- A call that has still to close a client. -/
def ChatJob.retires : ChatJob → ℕ → Prop
  | .published old _, r => old = r
  | .woken old, r => old = r
  | .shutDown old, r => old = r
  | _, _ => False

/-- A client that was published is current or closed. -/
def ChatClient.Settled (r : ℕ) (s : ChatClient) : Prop := r ∈ s.published → r = s.client ∨ s.closed r = true

section Owed

variable {c : ChatTurn} {b b' : ChatJob} {s s' : ChatClient}

theorem owed_act (hb : b.Sound s) (h : chatAct c b s = some (b', s')) (r : ℕ) :
    s'.Settled r ∨ b'.retires r ∨ ¬ b.retires r ∧ (s.Settled r → s'.Settled r) := by
  cases chat_moves h with
  | armed =>
    obtain ⟨⟨-, hold, -⟩, -⟩ := hb
    by_cases heq : r = s.client
    · exact Or.inr (Or.inl (hold.trans heq.symm))
    · refine Or.inr (Or.inr ⟨id, fun hsettled hr => ?_⟩)
      rcases List.mem_cons.mp hr with hnew | hr
      · exact Or.inl hnew
      · exact Or.inr ((hsettled hr).resolve_left heq)
  | @published old =>
    by_cases hretires : old = r
    · exact Or.inr (Or.inl hretires)
    · exact Or.inr (Or.inr ⟨hretires, id⟩)
  | @woken old =>
    by_cases hretires : old = r
    · exact Or.inr (Or.inl hretires)
    · exact Or.inr (Or.inr ⟨hretires, id⟩)
  | @shutDown old =>
    by_cases hretires : old = r
    · refine Or.inl fun _ => Or.inr ?_
      rw [← hretires]
      exact Function.update_self _ _ _
    · refine Or.inr (Or.inr ⟨hretires, fun hsettled hr => (hsettled hr).imp_right fun hclosed => ?_⟩)
      exact (Function.update_of_ne (Ne.symm hretires) _ _).trans hclosed
  | _ =>
    exact Or.inr (Or.inr ⟨id, id⟩)

theorem switching_act (hb : b.Sound s) (h : chatAct c b s = some (b', s')) :
    s'.switching = 0 ∨ b'.switches = true ∨ ¬ b.switches = true ∧ (s.switching = 0 → s'.switching = 0) := by
  cases chat_moves h with
  | abort =>
    exact Or.inr (Or.inl rfl)
  | readClient =>
    exact Or.inr (Or.inl rfl)
  | readCancel =>
    exact Or.inr (Or.inl rfl)
  | renewed =>
    exact Or.inr (Or.inl rfl)
  | built =>
    exact Or.inr (Or.inl rfl)
  | armed =>
    refine Or.inl ?_
    show s.switching - 1 = 0
    rw [hb.1.1]
  | _ =>
    exact Or.inr (Or.inr ⟨Bool.false_ne_true, id⟩)

end Owed

/-- **Cancelling keeps the client usable**, and closes what it has replaced. -/
theorem chat_client_usable {w : ChatWorld} (h : Runs.Later (step chatAct) cancelsApart ChatWorld.initial w)
    (hreturned : ∀ k, (w.job k).aborting = false) :
    w.store.Usable ∧ ∀ r ∈ w.store.published, r ≠ w.store.client → w.store.closed r = true := by
  let I := fun w : ChatWorld => Holds ChatClient.Wf ChatJob.Sound ChatJob.Apart w ∧
    (∀ r, Someone (ChatClient.Settled r) (ChatJob.retires · r) w) ∧
      Someone (fun s : ChatClient => s.switching = 0) (·.switches = true) w
  have hall : I w := by
    refine h.invariant (I := I) ⟨chat_holds .refl, ?_, Or.inl rfl⟩ ?_
    · exact fun r => Or.inl fun hr => Or.inl (List.mem_singleton.mp hr)
    · rintro w w' ⟨k, c⟩ hw hallow hstep
      have hb := hw.1.each k
      exact ⟨hw.1.step chat_keeps hallow hstep, fun r => (hw.2.1 r).step hstep fun hact => owed_act hb hact r,
        hw.2.2.step hstep fun hact => switching_act hb hact⟩
  obtain ⟨hholds, howed, hswitching⟩ := hall
  refine ⟨hholds.store.usable ?_, ?_⟩
  · rcases hswitching with hzero | ⟨k, hk⟩
    · exact hzero
    · have hidle := hreturned k
      cases hjob : w.job k with
      | idle =>
        rw [hjob] at hk
        cases hk
      | posting =>
        rw [hjob] at hk
        cases hk
      | _ =>
        rw [hjob] at hidle
        cases hidle
  · intro r hr hne
    rcases howed r with hsettled | ⟨k, hk⟩
    · exact (hsettled hr).resolve_left hne
    · have hidle := hreturned k
      cases hjob : w.job k with
      | idle =>
        rw [hjob] at hk
        cases hk
      | posting =>
        rw [hjob] at hk
        cases hk
      | _ =>
        rw [hjob] at hidle
        cases hidle

/-- A turn of each of two calls, the second cancelling while the first arms its client. -/
def overlappingCancels : List (ℕ × ChatTurn) :=
  [(0, .abort), (0, .next), (0, .next), (0, .next), (0, .next), (1, .abort), (1, .next), (1, .next), (1, .next),
    (1, .next), (1, .next), (0, .next), (1, .next), (1, .next), (1, .next), (0, .next), (0, .next), (0, .next)]

/-- **Overlapping cancels may publish a client whose event is set.** -/
theorem overlapping_cancels_poison :
    ¬ ∀ w : ChatWorld, Runs.Later (step chatAct) (fun _ _ => true) ChatWorld.initial w →
      (∀ k, (w.job k).aborting = false) →
      w.store.Usable ∧ ∀ r ∈ w.store.published, r ≠ w.store.client → w.store.closed r = true := by
  intro h
  obtain ⟨w, hrun, hw⟩ := (Option.any_eq_true _ _).mp (show (Runs.run (step chatAct) (fun _ _ => true) overlappingCancels
    ChatWorld.initial).any (fun w => !(w.job 0).aborting && !(w.job 1).aborting &&
      w.store.armed w.store.client ≠ some w.store.cancel) = true by decide +kernel)
  simp only [Bool.and_eq_true, Bool.not_eq_true', ne_eq, decide_not, decide_eq_false_iff_not] at hw
  have hreturned : ∀ k, (w.job k).aborting = false :=
    jobs_of_run (P := fun b => b.aborting = false) hrun (fun _ => rfl) (by simp [overlappingCancels, hw.1.1, hw.1.2])
  exact hw.2 (h w (Runs.Later.of_run hrun) hreturned).1.armed

/-- A cancel by itself, and a chat. -/
theorem chat_client_usable_once :
    ∃ w : ChatWorld, w.store.Usable ∧ w.store.client = 1 := by
  obtain ⟨w, hrun, hw⟩ := (Option.any_eq_true _ _).mp (show (Runs.run (step chatAct) cancelsApart
    [(0, .chat), (1, .abort), (1, .next), (1, .next), (1, .next), (1, .next), (1, .next), (1, .next), (1, .next), (1, .next),
      (0, .aborted)] ChatWorld.initial).any (fun w => !(w.job 0).aborting && !(w.job 1).aborting &&
      w.store.client = 1) = true by decide +kernel)
  simp only [Bool.and_eq_true, Bool.not_eq_true', decide_eq_true_eq] at hw
  refine ⟨w, (chat_client_usable (Runs.Later.of_run hrun) ?_).1, hw.2⟩
  exact jobs_of_run (P := fun b => b.aborting = false) hrun (fun _ => rfl) (by simp [hw.1.1, hw.1.2])

end CyClaw.Harness
