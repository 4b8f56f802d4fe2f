/-
What a program adds to a history.

A program leaves records of what it does.  `History` says which records lead from one state to
another, and a rule says of each record what must have gone before it.  `Traces` says that a
program keeps to a rule, and what has gone before where it returns.  Where the rule asks nothing of what
has gone before, it is enough that a program adds records of one kind (`Does`).
-/
import CyClaw.Lib.Effects
import Mathlib.Data.List.Infix

namespace Effects

/-- Which records lead from one state to another. -/
structure History (σ ρ : Type) where
  adds : σ → List ρ → σ → Prop
  nil : ∀ s, adds s [] s
  append : ∀ {s l s' l' s''}, adds s l s' → adds s' l' s'' → adds s (l ++ l') s''

variable {σ ε ρ α β : Type}

/-- Every record obeys a rule over what has gone before it. -/
def Obeys (G : List ρ → ρ → Prop) : List ρ → List ρ → Prop
  | _, [] => True
  | past, r :: l => G past r ∧ Obeys G (past ++ [r]) l

theorem Obeys.append {G : List ρ → ρ → Prop} :
    ∀ {l l' past : List ρ}, Obeys G past l → Obeys G (past ++ l) l' → Obeys G past (l ++ l')
  | [], l', past, _, h' => by rwa [List.append_nil] at h'
  | r :: l, l', past, h, h' => ⟨h.1, h.2.append (by rwa [List.append_assoc, List.singleton_append])⟩

theorem Obeys.mono {G G' : List ρ → ρ → Prop} :
    ∀ {l past : List ρ}, Obeys G past l → (∀ known r, past <+: known → G known r → G' known r) → Obeys G' past l
  | [], _, _, _ => trivial
  | r :: _, past, h, hG =>
      ⟨hG past r (List.prefix_refl past) h.1,
        h.2.mono fun known x hknown => hG known x ((List.prefix_append past [r]).trans hknown)⟩

theorem obeys_of_forall {R : ρ → Prop} : ∀ {l past : List ρ}, (∀ r ∈ l, R r) → Obeys (fun _ => R) past l
  | [], _, _ => trivial
  | r :: _, _, h => ⟨h r List.mem_cons_self, obeys_of_forall fun x hx => h x (List.mem_cons_of_mem r hx)⟩

/-- A program keeps to a rule, whatever state it starts in, and returns knowing `Q`. -/
def Traces (H : History σ ρ) (G : List ρ → ρ → Prop) (past : List ρ) (m : Eff σ ε α) (Q : List ρ → α → Prop) : Prop :=
  ∀ s, ∃ l, H.adds s l (m s).2 ∧ Obeys G past l ∧ ∀ a, (m s).1 = .ok a → Q (past ++ l) a

/-- From here on, a rule allows what is `R`. -/
def Allows (G : List ρ → ρ → Prop) (past : List ρ) (R : ρ → Prop) : Prop := ∀ known r, past <+: known → R r → G known r

section Rules

variable {H : History σ ρ} {G : List ρ → ρ → Prop} {past : List ρ} {Q : List ρ → β → Prop}

theorem traces_pure {b : β} (h : Q past b) : Traces H G past (pure b : Eff σ ε β) Q := by
  refine fun s => ⟨[], H.nil s, trivial, fun b' hb => ?_⟩
  rwa [List.append_nil, ← Except.ok.inj hb]

theorem traces_raise {e : ε} : Traces H G past (Eff.raise e : Eff σ ε β) Q :=
  fun s => ⟨[], H.nil s, trivial, fun _ hb => by cases hb⟩

/-- One step after the other. -/
theorem traces_bind {m : Eff σ ε α} {f : α → Eff σ ε β} {R : List ρ → α → Prop} (hm : Traces H G past m R)
    (hf : ∀ known a, past <+: known → R known a → Traces H G known (f a) Q) : Traces H G past (m >>= f) Q := by
  intro s
  obtain ⟨l, hadds, hobeys, hR⟩ := hm s
  rw [Eff.bind_apply]
  split
  · rename_i a s' hs
    rw [hs] at hadds hR
    obtain ⟨l', hadds', hobeys', hQ⟩ := hf _ a (List.prefix_append past l) (hR a rfl) s'
    refine ⟨l ++ l', H.append hadds hadds', hobeys.append hobeys', ?_⟩
    rwa [← List.append_assoc]
  · rename_i e s' hs
    rw [hs] at hadds
    exact ⟨l, hadds, hobeys, fun _ hb => by cases hb⟩

/-- The loop rule. -/
theorem traces_fold {f : β → α → Eff σ ε β} :
    ∀ {as : List α} {past : List ρ} {b : β},
      (∀ known b, ∀ a ∈ as, past <+: known → Traces H G known (f b a) fun _ _ => True) →
      Traces H G past (Eff.fold f as b) fun _ _ => True
  | [], _, _, _ => traces_pure trivial
  | a :: as, past, b, h => by
      refine traces_bind (h past b a List.mem_cons_self (List.prefix_refl past)) ?_
      intro known b' hknown _
      exact traces_fold fun later b'' x hx hlater => h later b'' x (List.mem_cons_of_mem a hx) (hknown.trans hlater)

end Rules

section Does

variable {H : History σ ρ} {R : ρ → Prop}

/-- A program adds only records that are `R`. -/
def Does (H : History σ ρ) (R : ρ → Prop) (m : Eff σ ε α) : Prop := ∀ past, Traces H (fun _ => R) past m fun _ _ => True

theorem does_pure {a : α} : Does H R (pure a : Eff σ ε α) := fun _ => traces_pure trivial

theorem does_raise {e : ε} : Does H R (Eff.raise e : Eff σ ε α) := fun _ => traces_raise

theorem does_bind {m : Eff σ ε α} {f : α → Eff σ ε β} (hm : Does H R m) (hf : ∀ a, Does H R (f a)) :
    Does H R (m >>= f) :=
  fun past => traces_bind (hm past) fun known a _ _ => hf a known

theorem does_attempt {m : Eff σ ε α} (h : Does H R m) : Does H R (Eff.attempt m) := by
  intro past s
  obtain ⟨l, hadds, hobeys, -⟩ := h past s
  exact ⟨l, hadds, hobeys, fun _ _ => trivial⟩

theorem does_fold {f : β → α → Eff σ ε β} (as : List α) (b : β) (h : ∀ b, ∀ a ∈ as, Does H R (f b a)) :
    Does H R (Eff.fold f as b) :=
  fun _ => traces_fold fun known b a ha _ => h b a ha known

/-- What a rule allows may be done. -/
theorem Does.traces {m : Eff σ ε α} {G : List ρ → ρ → Prop} {past : List ρ} (h : Does H R m) (hG : Allows G past R) :
    Traces H G past m fun _ _ => True := by
  intro s
  obtain ⟨l, hadds, hobeys, hl⟩ := h past s
  exact ⟨l, hadds, hobeys.mono hG, hl⟩

end Does

end Effects
