/-
What the planner wrote, and what is read of it.

A block is a header line, a body and an end marker; nothing is escaped, and what stands
between two blocks is passed over.  A text that was rendered from paths and bodies is read
back as these (`parseFileBlocks_inverts`), as long as no header line begins in what stands
before a block.  One that does takes the block for its body, closed or not (`swallowed`).
-/
import CyClaw.Repo.Loop

namespace CyClaw.Repo

open PyText

/-! ### The first place of a mark -/

/-- A mark whose first character does not come again in it is found where it was put. -/
theorem splitAt?_mark {m : Char} {ms a : Text} (hm : m ∉ ms) (ha : ¬ m :: ms <:+: a) (b : Text) :
    splitAt? (m :: ms) (a ++ (m :: ms ++ b)) = some (a, b) := by
  induction a with
  | nil =>
      rw [List.nil_append, List.cons_append, splitAt?, if_pos (by simp)]
      simp
  | cons c a ih =>
      have hno : ¬ m :: ms <+: c :: (a ++ (m :: ms ++ b)) := by
        rw [List.cons_prefix_cons]
        rintro ⟨rfl, hms⟩
        obtain hshort | ⟨x, rfl⟩ := List.prefix_or_prefix_of_prefix hms (List.prefix_append a _)
        · exact ha (List.cons_prefix_cons.mpr ⟨rfl, hshort⟩).isInfix
        · rw [List.prefix_append_right_inj] at hms
          cases x with
          | nil => exact ha (by simp)
          | cons d x =>
              obtain ⟨rfl, -⟩ := List.cons_prefix_cons.mp hms
              exact hm (by simp)
      rw [List.cons_append, splitAt?, if_neg (by rw [List.isPrefixOf_iff_prefix]; exact hno),
        ih fun h => ha (h.trans (List.suffix_cons c a).isInfix)]
      rfl

theorem notMem_of_splitAt? {d : Char} {t a b : Text} (h : splitAt? [d] t = some (a, b)) : d ∉ a := by
  induction t generalizing a with
  | nil => cases h
  | cons c t ih =>
      rw [splitAt?] at h
      split at h
      · rw [Option.some.injEq, Prod.mk.injEq] at h
        rw [← h.1]
        exact List.not_mem_nil
      · rename_i hne
        obtain ⟨⟨a', b'⟩, hrest, heq⟩ := Option.map_eq_some_iff.mp h
        rw [Prod.mk.injEq] at heq
        rw [← heq.1, List.mem_cons, not_or]
        refine ⟨?_, ih (heq.2 ▸ hrest)⟩
        rintro rfl
        exact hne (by simp)

/-! ### Line ends -/

/-- `text.replace("\r\n", "\n")`. -/
def lf (t : Text) : Text := replace "\r\n".toList "\n".toList t

/-- A carriage return is dropped where a line break follows it. -/
theorem lf_cons (c : Char) (t : Text) : lf (c :: t) = if c = '\r' ∧ t.head? = some '\n' then lf t else c :: lf t := by
  have hcrlf : "\r\n".toList <+: c :: t ↔ c = '\r' ∧ t.head? = some '\n' := by
    cases t with
    | nil => simp
    | cons d t => simp [List.cons_prefix_cons, eq_comm]
  rw [lf, replace, replaceFrom]
  simp only [List.isPrefixOf_iff_prefix, hcrlf]
  split
  · rename_i h
    cases t with
    | nil => cases h.2
    | cons d t =>
        obtain rfl := Option.some.inj h.2
        rw [lf, replace, replaceFrom, if_neg (by simp)]
        rfl
  · rfl

theorem lf_append {x y : Text} (h : ¬ (x.getLast? = some '\r' ∧ y.head? = some '\n')) : lf (x ++ y) = lf x ++ lf y := by
  induction x with
  | nil => rfl
  | cons c x ih =>
      rw [List.cons_append, lf_cons, lf_cons]
      cases x with
      | nil =>
          rw [List.getLast?_singleton, Option.some.injEq] at h
          rw [List.nil_append, if_neg h, if_neg (by simp)]
          rfl
      | cons d x =>
          rw [ih h, List.cons_append, List.head?_cons, List.head?_cons]
          by_cases hcrlf : c = '\r' ∧ some d = some '\n'
          · rw [if_pos hcrlf, if_pos hcrlf]
          · rw [if_neg hcrlf, if_neg hcrlf]
            rfl

theorem lf_of_notMem {t : Text} (h : '\r' ∉ t ∨ '\n' ∉ t) : lf t = t := by
  induction t with
  | nil => rfl
  | cons c t ih =>
      rw [lf_cons, ih (h.imp (fun h hc => h (List.mem_cons_of_mem c hc)) fun h hc => h (List.mem_cons_of_mem c hc)),
        if_neg]
      rintro ⟨rfl, hd⟩
      obtain h | h := h
      · exact h List.mem_cons_self
      · exact h (List.mem_cons_of_mem _ (List.mem_of_mem_head? hd))

/-! ### Blocks -/

def opener : Text := "=== FILE ".toList

def headerEnd : Text := " ===\n".toList

def closer : Text := "\n=== END FILE ===".toList

/-- A header line stands at the start of a text. -/
def Header (t : Text) : Prop := ∃ path rest, path ≠ [] ∧ '\n' ∉ path ∧ t = opener ++ (path ++ (headerEnd ++ rest))

def renderBlock (f : Text × Text) : Text := opener ++ (f.1 ++ (headerEnd ++ (f.2 ++ closer)))

/-- Each block behind what was said before it, and what was said last. -/
def render : List (Text × Text × Text) → Text → Text
  | [], last => last
  | (rationale, f) :: rest, last => rationale ++ (renderBlock f ++ render rest last)

theorem header_of_matchBlock {t : Text} (h : matchBlock t ≠ none) : Header t := by
  unfold matchBlock at h
  split at h
  · rename_i hopener
    obtain ⟨t, rfl⟩ := List.isPrefixOf_iff_prefix.mp hopener
    split at h
    · exact absurd rfl h
    · rename_i header rest hline
      split at h
      · rename_i hends
        obtain ⟨path, rfl⟩ := List.isSuffixOf_iff_suffix.mp hends.1
        rw [List.drop_left' (by rfl)] at hline
        refine ⟨path, rest, ?_, fun hc => notMem_of_splitAt? hline (List.mem_append_left _ hc), ?_⟩
        · rintro rfl
          exact absurd hends.2 (by decide)
        · have hend : " ===".toList ++ ['\n'] = headerEnd := by decide
          have hsplit := splitAt?_eq hline
          rw [List.append_assoc path, hend, List.append_assoc] at hsplit
          exact congrArg (opener ++ ·) hsplit
      · exact absurd rfl h
  · exact absurd rfl h

theorem matchBlock_render {f : Text × Text} (hpath : f.1 ≠ []) (hline : '\n' ∉ f.1) (hbody : ¬ closer <:+: f.2)
    (rest : Text) : matchBlock (renderBlock f ++ rest) = some (f, rest) := by
  obtain ⟨path, body⟩ := f
  have hheader : splitAt? ['\n'] (path ++ (headerEnd ++ (body ++ closer)) ++ rest) =
      some (path ++ " ===".toList, body ++ (closer ++ rest)) := by
    have hno : ¬ ['\n'] <:+: path ++ " ===".toList := by
      rw [List.singleton_infix_iff, List.mem_append]
      rintro (h | h)
      · exact hline h
      · revert h
        decide
    have hmark := splitAt?_mark List.not_mem_nil hno (body ++ (closer ++ rest))
    have hend : headerEnd = " ===".toList ++ ['\n'] := by decide
    rw [← hmark, hend]
    simp only [List.append_assoc]
  have hclose : splitAt? closer (body ++ (closer ++ rest)) = some (body, rest) :=
    splitAt?_mark (by decide) hbody rest
  have hlength : 4 < (path ++ " ===".toList).length := by
    have := List.length_pos_iff.mpr hpath
    rw [List.length_append]
    exact Nat.add_lt_add_right this 4
  have hopen : "=== FILE ".toList.isPrefixOf (renderBlock (path, body) ++ rest) = true := by
    rw [List.isPrefixOf_iff_prefix]
    exact (List.prefix_append opener _).trans (List.prefix_append _ rest)
  have hdrop : (renderBlock (path, body) ++ rest).drop 9 = path ++ (headerEnd ++ (body ++ closer)) ++ rest := by
    rw [renderBlock, List.append_assoc]
    exact List.drop_left' rfl
  rw [matchBlock, if_pos hopen, hdrop, hheader]
  dsimp only
  rw [if_pos ⟨List.isSuffixOf_iff_suffix.mpr (List.suffix_append path _), hlength⟩]
  rw [show "\n=== END FILE ===".toList = closer from rfl, hclose, List.length_append]
  exact congrArg (fun p => some ((p, body), rest)) (List.take_left' rfl)

/-! ### The blocks of a text -/

theorem fileBlocks_skip (x t : Text) : fileBlocks x.length (x ++ t) = fileBlocks 0 t := by
  induction x with
  | nil => rfl
  | cons c x ih => exact ih

theorem fileBlocks_quiet {r t : Text} (h : ∀ b, b <:+ r → b ≠ [] → matchBlock (b ++ t) = none) :
    fileBlocks 0 (r ++ t) = fileBlocks 0 t := by
  induction r with
  | nil => rfl
  | cons c r ih =>
      have hnone := h (c :: r) List.suffix_rfl (List.cons_ne_nil c r)
      rw [List.cons_append] at hnone ⊢
      rw [fileBlocks, hnone]
      exact ih fun b hb => h b (hb.trans (List.suffix_cons c r))

theorem fileBlocks_block {f : Text × Text} {rest : Text} (h : matchBlock (renderBlock f ++ rest) = some (f, rest)) :
    fileBlocks 0 (renderBlock f ++ rest) = f :: fileBlocks 0 rest := by
  obtain ⟨c, cs, hcs⟩ : ∃ c cs, renderBlock f = c :: cs := ⟨_, _, rfl⟩
  rw [hcs, List.cons_append] at h ⊢
  rw [fileBlocks, h]
  dsimp only
  rw [List.length_append, Nat.add_sub_cancel, fileBlocks_skip]

/-! ### What they are filed under -/

/-- A block as it is filed. -/
def filed (b : Text × Text) : Text × Text := (destination (strip b.1), b.2)

def keys (u : Unicode) (files : List (Text × Text)) : List Text := files.map fun f => fsEquivPath u f.1

/-- **The blocks are filed in order, or not at all where two have one destination.** -/
theorem collectBlocks_eq (u : Unicode) {acc : List (Text × Text)} (hacc : (keys u acc).Nodup) (blocks : List (Text × Text)) :
    collectBlocks u acc blocks =
      if (keys u (acc ++ blocks.map filed)).Nodup then some (acc ++ blocks.map filed) else none := by
  induction blocks generalizing acc with
  | nil =>
      rw [List.map_nil, List.append_nil, if_pos hacc]
      rfl
  | cons block blocks ih =>
      have hany : (acc.any fun f => fsEquivPath u f.1 = fsEquivPath u (filed block).1) = true ↔
          fsEquivPath u (filed block).1 ∈ keys u acc := by
        simp only [List.any_eq_true, decide_eq_true_eq, keys, List.mem_map]
      have hkeys : keys u (acc ++ [filed block]) = keys u acc ++ [fsEquivPath u (filed block).1] := List.map_append
      rw [List.map_cons, List.append_cons]
      by_cases htaken : fsEquivPath u (filed block).1 ∈ keys u acc
      · have hdouble : ¬ (keys u (acc ++ [filed block] ++ blocks.map filed)).Nodup := by
          intro h
          have hkept : (keys u (acc ++ [filed block])).Nodup := h.sublist ((List.sublist_append_left _ _).map _)
          rw [hkeys, List.nodup_append] at hkept
          exact hkept.2.2 _ htaken _ (List.mem_singleton.mpr rfl) rfl
        rw [if_neg hdouble]
        exact if_pos (hany.mpr htaken)
      · have hnodup : (keys u (acc ++ [filed block])).Nodup := by
          rw [hkeys, List.nodup_append]
          refine ⟨hacc, List.nodup_singleton _, ?_⟩
          intro a ha b hb
          rw [List.mem_singleton.mp hb]
          rintro rfl
          exact htaken ha
        rw [← ih hnodup]
        exact if_neg fun h => htaken (hany.mp h)

/-! ### Round trip -/

/-- What a text is rendered from. -/
structure Renders (u : Unicode) (entries : List (Text × Text × Text)) (last : Text) : Prop where
  canonical : ∀ e ∈ entries, ∃ target, canonicalRepoPath target = some e.2.1
  path : ∀ e ∈ entries, '\n' ∉ e.2.1 ∧ strip e.2.1 = e.2.1
  distinct : (keys u (entries.map Prod.snd)).Nodup
  body : ∀ e ∈ entries, '\r' ∉ e.2.2 ∧ ¬ closer <:+: e.2.2
  /-- No header line begins in what stands before a block, read with that block. -/
  rationale : ∀ e ∈ entries, ∀ b, b <:+ lf e.1 → b ≠ [] → ¬ Header (b ++ renderBlock e.2)
  /-- There is no block in what is said last. -/
  last : fileBlocks 0 (lf last) = []

theorem canonical_nonempty {target path : Text} (h : canonicalRepoPath target = some path) : path ≠ [] := by
  obtain ⟨rfl, hparts, -⟩ := canonicalRepoPath_eq h
  obtain ⟨p, hp⟩ := List.exists_mem_of_ne_nil _ hparts
  intro hnil
  have hinfix : p <:+: join (parts target) := infix_intercalate hp
  rw [hnil, List.infix_nil] at hinfix
  exact (mem_parts hp).1 hinfix

theorem destination_canonical {target path : Text} (h : canonicalRepoPath target = some path) : destination path = path := by
  unfold destination
  cases hpath : canonicalRepoPath path with
  | none => rfl
  | some path' => exact canonicalRepoPath_idem h hpath

/-- What ends a block is no carriage return. -/
theorem renderBlock_last (f : Text × Text) : (renderBlock f).getLast? = some '=' := by
  have hclose : closer = "\n=== END FILE ==".toList ++ ['='] := by decide
  rw [renderBlock, hclose, ← List.append_assoc, ← List.append_assoc, ← List.append_assoc, ← List.append_assoc,
    List.getLast?_concat]

theorem lf_renderBlock {f : Text × Text} (hpath : '\n' ∉ f.1) (hbody : '\r' ∉ f.2) : lf (renderBlock f) = renderBlock f := by
  have htail : '\r' ∉ headerEnd ++ (f.2 ++ closer) := by
    rw [List.mem_append, List.mem_append]
    rintro (h | h | h)
    · revert h
      decide
    · exact hbody h
    · revert h
      decide
  have hjoin : ¬ (f.1.getLast? = some '\r' ∧ (headerEnd ++ (f.2 ++ closer)).head? = some '\n') := by
    rintro ⟨-, h⟩
    cases h
  have hopen : ¬ (opener.getLast? = some '\r' ∧ (f.1 ++ (headerEnd ++ (f.2 ++ closer))).head? = some '\n') := by
    rintro ⟨h, -⟩
    exact absurd h (by decide)
  rw [renderBlock, lf_append hopen, lf_append hjoin, lf_of_notMem (.inr hpath), lf_of_notMem (.inl htail)]
  rfl

theorem lf_render (entries : List (Text × Text × Text)) (last : Text)
    (h : ∀ e ∈ entries, '\n' ∉ e.2.1 ∧ '\r' ∉ e.2.2) :
    lf (render entries last) = render (entries.map fun e => (lf e.1, e.2)) (lf last) := by
  induction entries with
  | nil => rfl
  | cons e entries ih =>
      obtain ⟨rationale, f⟩ := e
      obtain ⟨hpath, hbody⟩ := h _ List.mem_cons_self
      have hbefore : ¬ (rationale.getLast? = some '\r' ∧ (renderBlock f ++ render entries last).head? = some '\n') := by
        rintro ⟨-, hhead⟩
        cases hhead
      have hbehind : ¬ ((renderBlock f).getLast? = some '\r' ∧ (render entries last).head? = some '\n') := by
        rw [renderBlock_last]
        rintro ⟨hlast, -⟩
        exact absurd hlast (by decide)
      rw [render, lf_append hbefore, lf_append hbehind, lf_renderBlock hpath hbody,
        ih fun e he => h e (List.mem_cons_of_mem _ he)]
      rfl

/-- A header line that begins before a block ends in its header at the latest. -/
theorem header_before {b rest : Text} {f : Text × Text} (h : Header (b ++ (renderBlock f ++ rest))) :
    Header (b ++ renderBlock f) := by
  obtain ⟨path, rest', hpath, hline, heq⟩ := h
  have hwhole : b ++ renderBlock f <+: b ++ (renderBlock f ++ rest) := by
    rw [← List.append_assoc]
    exact List.prefix_append _ rest
  have hheader : opener ++ (path ++ headerEnd) <+: b ++ (renderBlock f ++ rest) := by
    rw [heq]
    exact ⟨rest', by simp only [List.append_assoc]⟩
  obtain ⟨x, hx⟩ | hlong := List.prefix_or_prefix_of_prefix hheader hwhole
  · exact ⟨path, x, hpath, hline, by rw [← hx]; simp only [List.append_assoc]⟩
  · -- A block has two line breaks, a header line has one.
    have hcount := hlong.sublist.count_le '\n'
    have hopener : opener.count '\n' = 0 := by decide
    have hend : headerEnd.count '\n' = 1 := by decide
    have hcloser : closer.count '\n' = 1 := by decide
    simp only [renderBlock, List.count_append, hopener, hend, hcloser, List.count_eq_zero_of_not_mem hline] at hcount
    omega

theorem fileBlocks_render (entries : List (Text × Text × Text)) (last : Text)
    (hpath : ∀ e ∈ entries, e.2.1 ≠ [] ∧ '\n' ∉ e.2.1) (hbody : ∀ e ∈ entries, ¬ closer <:+: e.2.2)
    (hrationale : ∀ e ∈ entries, ∀ b, b <:+ e.1 → b ≠ [] → ¬ Header (b ++ renderBlock e.2)) :
    fileBlocks 0 (render entries last) = entries.map Prod.snd ++ fileBlocks 0 last := by
  induction entries with
  | nil => rfl
  | cons e entries ih =>
      obtain ⟨rationale, f⟩ := e
      have hquiet : ∀ b, b <:+ rationale → b ≠ [] → matchBlock (b ++ (renderBlock f ++ render entries last)) = none := by
        intro b hb hne
        by_contra hmatch
        exact hrationale _ List.mem_cons_self b hb hne (header_before (header_of_matchBlock hmatch))
      obtain ⟨hne, hline⟩ := hpath _ List.mem_cons_self
      rw [render, fileBlocks_quiet hquiet, fileBlocks_block (matchBlock_render hne hline (hbody _ List.mem_cons_self) _),
        ih (fun e he => hpath e (List.mem_cons_of_mem _ he)) (fun e he => hbody e (List.mem_cons_of_mem _ he))
          fun e he => hrationale e (List.mem_cons_of_mem _ he)]
      rfl

theorem parseFileBlocks_eq (u : Unicode) (text : Text) :
    parseFileBlocks u text =
      if (keys u ((fileBlocks 0 (lf text)).map filed)).Nodup then some ((fileBlocks 0 (lf text)).map filed) else none :=
  @collectBlocks_eq u [] List.nodup_nil _

/-- **What was rendered is read back, and two blocks with one destination are refused.** -/
theorem parseFileBlocks_inverts (u : Unicode) :
    (∀ entries last, Renders u entries last →
        parseFileBlocks u (render entries last) = some (entries.map Prod.snd)) ∧
      ∀ text, ¬ (keys u ((fileBlocks 0 (lf text)).map filed)).Nodup → parseFileBlocks u text = none := by
  refine ⟨fun entries last h => ?_, fun text htwice => ?_⟩
  · have hfiled : (entries.map Prod.snd).map filed = entries.map Prod.snd := by
      rw [List.map_map]
      refine List.map_congr_left fun e he => ?_
      obtain ⟨target, htarget⟩ := h.canonical e he
      rw [Function.comp_apply, filed, (h.path e he).2, destination_canonical htarget]
    have hblocks : fileBlocks 0 (lf (render entries last)) = entries.map Prod.snd := by
      rw [lf_render entries last fun e he => ⟨(h.path e he).1, (h.body e he).1⟩, fileBlocks_render, h.last]
      · simp
      · simp only [List.forall_mem_map]
        intro e he
        obtain ⟨target, htarget⟩ := h.canonical e he
        exact ⟨canonical_nonempty htarget, (h.path e he).1⟩
      · simp only [List.forall_mem_map]
        exact fun e he => (h.body e he).2
      · simp only [List.forall_mem_map]
        exact h.rationale
    rw [parseFileBlocks_eq, hblocks, hfiled, if_pos h.distinct]
  · rw [parseFileBlocks_eq, if_neg htwice]

/-! An answer of two files, and one whose first header is not closed. -/

theorem not_header_of_notMem {b t : Text} (hne : b ≠ []) (h : '=' ∉ b) : ¬ Header (b ++ t) := by
  rintro ⟨path, rest, -, -, heq⟩
  cases b with
  | nil => exact hne rfl
  | cons c b =>
      obtain ⟨rfl, -⟩ := List.cons.inj heq
      exact h List.mem_cons_self

def plainNames : Unicode := ⟨fun _ => false, fun c => [c]⟩

def answer : List (Text × Text × Text) :=
  [("Both files:\r\n".toList, "a.py".toList, "x = 1".toList), ("\n".toList, "b.py".toList, [])]

theorem renders_answer : Renders plainNames answer "\nDone.".toList where
  canonical := by
    simp only [answer, List.forall_mem_cons]
    exact ⟨⟨"a.py".toList, by decide⟩, ⟨"b.py".toList, by decide⟩, by simp⟩
  path := by decide
  distinct := by decide
  body := by
    simp only [← contains_iff]
    decide
  rationale := by
    have hplain : ∀ e ∈ answer, '=' ∉ lf e.1 := by decide
    exact fun e he b hb hne => not_header_of_notMem hne fun hc => hplain e he (hb.subset hc)
  last := by decide

theorem parseFileBlocks_inverts_answer :
    parseFileBlocks plainNames (render answer "\nDone.".toList) = some (answer.map Prod.snd) :=
  (parseFileBlocks_inverts plainNames).1 answer _ renders_answer

/-- **There is no block in what stands before the block of `b`, and it takes that block for its body.** -/
theorem swallowed :
    fileBlocks 0 (lf "=== FILE a ===\n".toList) = [] ∧
      parseFileBlocks plainNames (render [("=== FILE a ===\n".toList, "b".toList, "x".toList)] []) ≠
        some [("b".toList, "x".toList)] := by
  have hread : parseFileBlocks plainNames (render [("=== FILE a ===\n".toList, "b".toList, "x".toList)] []) =
      some [("a".toList, "=== FILE b ===\nx".toList)] := by
    decide
  refine ⟨by decide, ?_⟩
  rw [hread]
  decide

end CyClaw.Repo
