/-
The cost guard of the external prompt.

`_external_fallback_node` assembles the prompt up to three times: with the whole context, with
one that fits what the framing leaves of the cap, and with none where the framing alone is
too long.  The reported sources are those of the version that is sent, so a source has always
contributed to the prompt (`external_prompt_guarded`).
-/
import CyClaw.Graph.Citations
import CyClaw.Guardrails.Generations

namespace CyClaw.Graph

variable {R : Type} {env : Env R} {s : GraphState R} {p : Provider}

/-- A cited document has text in the prompt, under its header. -/
def Contributed (env : Env R) (prompt : String) (d : RetrievedDoc R) : Prop :=
  ∃ shown : String, shown ≠ "" ∧ shown.toList <+: d.text.toList ∧
    (header env d ++ shown).toList <:+: prompt.toList

theorem Run.contributed {charCap budget : Option Int} {docs : List (RetrievedDoc R)} {acc : Chunks R}
    (h : Run env charCap budget [] docs acc) {d : RetrievedDoc R} (hd : d ∈ acc.included) :
    Contributed env (sectionSep.intercalate acc.parts) d := by
  have hpart : ∀ shown : String, header env d ++ shown ∈ acc.parts →
      (header env d ++ shown).toList <:+: (sectionSep.intercalate acc.parts).toList := by
    intro shown hmem
    rw [String.toList_intercalate]
    exact PyText.infix_intercalate (List.mem_map_of_mem hmem)
  obtain ⟨whole, rest, cut, hsplit, hparts, hincluded, -, -, -, hend⟩ := h.ends
  rw [List.nil_append] at hparts hincluded
  rw [hincluded, List.mem_append] at hd
  obtain hd | hd := hd
  · have hmem : d ∈ visible charCap docs := hsplit ▸ List.mem_append_left rest hd
    have hinked : capped charCap d ≠ "" := by simpa [visible] using (List.mem_filter.mp hmem).2
    refine ⟨capped charCap d, hinked, capped_start charCap d, hpart _ ?_⟩
    rw [hparts]
    exact List.mem_append_left _ (List.mem_map_of_mem hd)
  · obtain rfl | ⟨d₀, d', -, rfl, hcut⟩ := hend
    · cases hd
    · obtain rfl := List.mem_singleton.mp hd
      refine ⟨d.text, hcut.inked, List.prefix_rfl, hpart _ ?_⟩
      rw [hparts]
      exact List.mem_append_right _ (List.mem_singleton.mpr rfl)

/-! ### The assembled prompt -/

theorem length_assemble (hsend : env.cfg.fallback.sendLocalContext p = true) (ctx : String) :
    (assemble env s p ctx).length = (assemble env s p "").length + ctx.length := by
  rw [assemble, assemble, if_pos hsend, if_pos hsend]
  simp only [String.length_append, String.length_empty]
  omega

theorem infix_assemble (hsend : env.cfg.fallback.sendLocalContext p = true) (ctx : String) :
    ctx.toList <:+: (assemble env s p ctx).toList := by
  rw [assemble, if_pos hsend]
  simp only [String.toList_append]
  -- Four texts stand behind the context.
  exact (List.suffix_append _ _).isInfix.trans ((List.prefix_append _ _).trans ((List.prefix_append _ _).trans
    ((List.prefix_append _ _).trans (List.prefix_append _ _)))).isInfix

theorem Contributed.assemble (hsend : env.cfg.fallback.sendLocalContext p = true) {ctx : String} {d : RetrievedDoc R}
    (h : Contributed env ctx d) : Contributed env (Graph.assemble env s p ctx) d := by
  obtain ⟨shown, hinked, hprefix, hinfix⟩ := h
  exact ⟨shown, hinked, hprefix, hinfix.trans (infix_assemble hsend ctx)⟩

/-- A prompt made of a context block that was formatted within what the framing leaves. -/
theorem formatted_contributed (env : Env R) (docs : List (RetrievedDoc R)) (limit : Nat) (charCap budget : Option Int)
    {d : RetrievedDoc R} (hd : d ∈ (formatContextChunks env docs limit charCap budget).2) :
    Contributed env (formatContextChunks env docs limit charCap budget).1 d :=
  (formatContextChunks_run env docs limit charCap budget).contributed hd

theorem formatted_length (env : Env R) (docs : List (RetrievedDoc R)) (limit : Nat) (charCap : Option Int) {total : Int}
    (htotal : 0 ≤ total) : ((formatContextChunks env docs limit charCap (some total)).1.length : Int) ≤ total :=
  (formatContextChunks_run env docs limit charCap (some total)).bounded htotal

/-- What the prompt that is sent is like. -/
structure Guarded (env : Env R) (s : GraphState R) (p : Provider) (prompt : String)
    (sources : List (RetrievedDoc R)) : Prop where
  length_le : (prompt.length : Int) ≤ env.cfg.fallback.maxPromptChars p
  /-- The closing tag and the instruction survive where the framing fits. -/
  framed : env.cfg.fallback.sendLocalContext p = true →
    ((assemble env s p "").length : Int) < env.cfg.fallback.maxPromptChars p → ∃ ctx, prompt = assemble env s p ctx
  contributed : ∀ d ∈ sources, Contributed env prompt d
  /-- Nothing is listed where no context is sent. -/
  dropped : env.cfg.fallback.sendLocalContext p = false ∨ overCap env s p = true ∧
    env.cfg.fallback.maxPromptChars p ≤ (assemble env s p "").length → sources = []

theorem externalPrompt_guarded (hmax : 0 < env.cfg.fallback.maxPromptChars p) :
    Guarded env s p (externalPrompt env s p).1 (externalPrompt env s p).2 := by
  rw [externalPrompt]
  by_cases hover : overCap env s p = true
  · rw [if_pos hover, cappedPrompt]
    split
    · rename_i hsend
      dsimp only
      by_cases hbudget : 0 < env.cfg.fallback.maxPromptChars p - (assemble env s p "").length
      · -- The context fits what the framing leaves, so nothing is cut off the end.
        rw [if_pos hbudget]
        have hlength := formatted_length env (s.retrievedDocs.getD []) 3 (some 200) (Int.le_of_lt hbudget)
        have hwhole := length_assemble (s := s) hsend (formatContextChunks env (s.retrievedDocs.getD []) 3 (some 200)
          (some (env.cfg.fallback.maxPromptChars p - (assemble env s p "").length))).1
        rw [if_neg (by dsimp only; omega)]
        refine ⟨by dsimp only; omega, fun _ _ => ⟨_, rfl⟩, ?_, ?_⟩
        · intro d hd
          exact (formatted_contributed env _ 3 _ _ hd).assemble hsend
        · rintro (hoff | ⟨-, hframing⟩)
          · rw [hsend] at hoff
            cases hoff
          · omega
      · rw [if_neg hbudget]
        refine ⟨?_, fun _ hframing => absurd hframing (by omega), by simp, fun _ => rfl⟩
        dsimp only
        split
        · have := clip_length ("USER QUERY: " ++ s.query) (Int.le_of_lt hmax)
          omega
        · omega
    · rename_i hsend
      have hcut := clip_length (uncappedPrompt env s p).1 (Int.le_of_lt hmax)
      have hnone : (uncappedPrompt env s p).2 = [] := by
        rw [uncappedPrompt, if_neg hsend]
      refine ⟨by dsimp only; omega, fun h => absurd h hsend, ?_, fun _ => hnone⟩
      dsimp only
      rw [hnone]
      simp
  · rw [if_neg hover]
    have hle : ((uncappedPrompt env s p).1.length : Int) ≤ env.cfg.fallback.maxPromptChars p := by
      rw [overCap] at hover
      simp only [Bool.and_eq_true, decide_eq_true_eq, not_and] at hover
      have := hover hmax
      omega
    by_cases hsend : env.cfg.fallback.sendLocalContext p = true
    · rw [uncappedPrompt, if_pos hsend] at hle ⊢
      refine ⟨hle, fun _ _ => ⟨_, rfl⟩, ?_, ?_⟩
      · intro d hd
        exact (formatted_contributed env _ 3 _ _ hd).assemble hsend
      · rintro (hoff | ⟨hover', -⟩)
        · rw [hsend] at hoff
          cases hoff
        · exact absurd hover' hover
    · rw [uncappedPrompt, if_neg hsend] at hle ⊢
      exact ⟨hle, fun h => absurd h hsend, by simp, fun _ => rfl⟩

/-! ### The node -/

/-- The guard, if there is one, was built over a layer. -/
def GuardBuilt (env : Env R) : Prop :=
  ∀ guard, env.generateGuard = some guard → ∃ l, guard = Guardrails.builtGuard l env

theorem builtGuard_prompts (l : Guardrails.Layer) (env : Env R) (target : Target) (prompt query label : String)
    (spend : Option SpendContext) :
    ∀ x ∈ (Guardrails.builtGuard l env target prompt query label spend).prompts, x = prompt := by
  rw [Guardrails.builtGuard]
  split
  · exact Guardrails.guardedRun_prompts l _ prompt query label spend
  · simp

theorem generateOrError_prompts (h : GuardBuilt env) (target : Target) (client : Client)
    (prompt label query : String) (spend : Option SpendContext) :
    ∀ x ∈ (generateOrError env target client prompt label query spend).prompts, x = prompt := by
  have hplain : ∀ before : List String, (∀ x ∈ before, x = prompt) →
      ∀ x ∈ (generateUnguarded client prompt label spend before).prompts, x = prompt := by
    intro before hbefore x hx
    have hmem : x ∈ before ++ [prompt] := by
      rw [generateUnguarded] at hx
      split at hx <;> exact hx
    rw [List.mem_append, List.mem_singleton] at hmem
    obtain hx | hx := hmem
    · exact hbefore x hx
    · exact hx
  rw [generateOrError]
  split
  · exact hplain [] (by simp)
  · rename_i guard hguard
    obtain ⟨l, rfl⟩ := h guard hguard
    have hrun := builtGuard_prompts l env target prompt query label spend
    dsimp only
    split
    · exact hrun
    · exact hplain _ hrun

/-- The sample environment, with a guard. -/
def guardedEnv : Env ℚ :=
  { sampleEnv with generateGuard := some (Guardrails.builtGuard Guardrails.failingLayer sampleEnv) }

end CyClaw.Graph
