/-
The files of the Telegram poller (`telegram/state.py`).

A consent to go online is a file of its chat: `/online` writes it and the next plain
message deletes it before it asks.  The offset file holds what has been acknowledged.

Chats are named by the text of their id: an allowed chat has a canonical one, which is
also the name of its file.  Every call into the file system may fail, before or after it
has done its work, and which it is comes from outside.
-/
import CyClaw.Lib.PyText
import Mathlib.Data.Rat.Floor
import Mathlib.Logic.Function.Basic

namespace CyClaw.Telegram

abbrev Text := List Char

/-- The gates that a `TelegramRefused` names. -/
inductive Gate where
  | enabled
  | mode
  | allowlist
  | rateLimit
  | maxMessageChars
  | updateId
  | mediaConfirm
  | other
deriving DecidableEq

/-- What a step of a handler can raise. -/
inductive Failure where
  /-- `TelegramRefused` -/
  | refused (gate : Gate)
  /-- `TelegramRuntimeError`, with what its details say. -/
  | runtime (retryable : Option Bool) (fatal : Bool)
  /-- Anything else. -/
  | other
deriving DecidableEq

/-- How a call into the file system goes. -/
inductive FileOp where
  | ok
  | fails (applied : Bool)
deriving DecidableEq

/-! ### The consent of a chat -/

/-- `_ONLINE_PROVIDERS` -/
inductive Provider where
  | grok
  | claude
deriving DecidableEq

inductive SessionFile where
  | missing
  /-- Text that `_load_hybrid_session` does not take. -/
  | invalid
  | holds (confirmUntil : ℤ) (provider : Provider)
deriving DecidableEq

abbrev Sessions := Text → SessionFile

/-- `_load_hybrid_session` -/
def loadHybridSession : SessionFile → Option (ℤ × Provider)
  | .holds confirmUntil provider => if confirmUntil < 0 then none else some (confirmUntil, provider)
  | _ => none

/-- `int` of a number, towards zero. -/
def truncate (q : ℚ) : ℤ := if 0 ≤ q then ⌊q⌋ else ⌈q⌉

def stateUnavailable : Failure := .runtime (some true) false

/-- Whether the file is written. -/
def FileOp.applied : FileOp → Bool
  | .ok => true
  | .fails applied => applied

/-- `grant_hybrid_confirm` -/
def grantHybridConfirm (chat : Text) (provider : Provider) (ttlSec : ℕ) (now : ℚ) (io : FileOp)
    (S : Sessions) : Sessions × Except Failure ℤ :=
  let confirmUntil := truncate (now + ttlSec)
  (if io.applied then Function.update S chat (.holds confirmUntil provider) else S,
    if io = .ok then .ok confirmUntil else .error stateUnavailable)

/-- `claim_hybrid_confirm`.  A file that cannot be read is taken for none. -/
def claimHybridConfirm (chat : Text) (now : ℚ) (readable : Bool) (io : FileOp) (S : Sessions) :
    Sessions × Except Failure (Option Provider) :=
  match if readable then loadHybridSession (S chat) else none with
  | none => (S, if io = .ok then .ok none else .error stateUnavailable)
  | some (confirmUntil, provider) =>
      (if io.applied then Function.update S chat .missing else S,
        if io = .ok then .ok (if (confirmUntil : ℚ) ≤ now then none else some provider)
        else .error stateUnavailable)

/-- A file that a claim would find a consent in. -/
def Armed (S : Sessions) (chat : Text) : Prop := (loadHybridSession (S chat)).isSome = true

theorem not_armed_of_missing (S : Sessions) (chat : Text) :
    ¬ Armed (Function.update S chat .missing) chat := by
  simp [Armed, loadHybridSession]

theorem armed_update_of_ne {S : Sessions} {chat chat' : Text} {file : SessionFile}
    (h : chat' ≠ chat) : Armed (Function.update S chat file) chat' ↔ Armed S chat' := by
  rw [Armed, Armed, Function.update_of_ne h]

/-- **What a claim does**: nothing, or it deletes a consent, which it gives out at most then. -/
theorem claimHybridConfirm_cases (chat : Text) (now : ℚ) (readable : Bool) (io : FileOp) (S : Sessions) :
    ((claimHybridConfirm chat now readable io S).1 = S ∧
      ∀ p, (claimHybridConfirm chat now readable io S).2 ≠ .ok (some p)) ∨
    ((claimHybridConfirm chat now readable io S).1 = Function.update S chat .missing ∧ Armed S chat) := by
  rw [claimHybridConfirm]
  split
  · refine Or.inl ⟨rfl, ?_⟩
    intro p
    by_cases hio : io = .ok
    · rw [if_pos hio]
      nofun
    · rw [if_neg hio]
      nofun
  · rename_i confirmUntil provider hload
    have harmed : Armed S chat := by
      rw [Armed]
      by_cases hread : readable = true
      · rw [if_pos hread] at hload
        rw [hload]
        rfl
      · rw [if_neg hread] at hload
        cases hload
    cases io with
    | ok => exact Or.inr ⟨rfl, harmed⟩
    | fails applied =>
        cases applied with
        | true => exact Or.inr ⟨rfl, harmed⟩
        | false => exact Or.inl ⟨rfl, by nofun⟩

end CyClaw.Telegram
