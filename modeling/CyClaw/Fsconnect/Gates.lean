/-
What the writer may change, and what it has said before.

Every call keeps to one rule (`Rule`), whatever the machine answers and wherever it stops.  The
tree changes only once writes are enabled; but for the ledger it changes only when every gate of
the call has been passed, and in the entries that an intent already in the log names; and what
is reported as done has its intent.  One thing is done without an intent: emptying the trash
also sweeps up temporary files.

The log has every change with the tree it made, so what the rule says of a record is said of
every point where a call may be cut off.
-/
import CyClaw.Fsconnect.Changes
import CyClaw.Fsconnect.Writer
import CyClaw.Lib.Histories

namespace CyClaw.Fsconnect

open Posix PathTree Effects
open Repo (Text splitComponents parts)

/-! ### Logs -/

/-- The changes a log has. -/
def changes (l : List Record) : Past :=
  l.filterMap fun
    | .mutated m t => some (m, t)
    | _ => none

/-- What is logged leads from one tree to the other. -/
def logged : History World Record where
  adds s l s' := s'.log = s.log ++ l ∧ Chain s.tree (changes l) s'.tree
  nil s := ⟨(List.append_nil _).symm, .nil⟩
  append h h' := by
    refine ⟨by rw [h'.1, h.1, List.append_assoc], ?_⟩
    rw [changes, List.filterMap_append]
    exact h.2.append h'.2

/-- A record of a step that changes no entry but those that are `S`, and reports nothing. -/
def Changing (S : Path → Prop) : Record → Prop
  | .mutated m _ => Among S m
  | .intent .. => False
  | .applied .. => False
  | _ => True

/-- A step changes no entry but those that are `S`, and reports nothing. -/
abbrev Only {α : Type} (S : Path → Prop) (m : Fs α) : Prop := Does logged (Changing S) m

/-- The ledger and its temporary file. -/
abbrev Ledger (w : FsWriter) : Path → Prop := Rewritten w.interp.toPlatform quotaFile

/-! ### What the steps change -/

section Steps

variable {w : FsWriter} {h : Host} {S : Path → Prop} {op : OpName} {α : Type} {target : Text}

theorem traces_note {G : List Record → Record → Prop} {past : List Record} {r : Record} (hr : changes [r] = [])
    (hG : G past r) : Traces logged G past (note r) fun known _ => r ∈ known :=
  fun _ => ⟨[r], ⟨rfl, hr ▸ .nil⟩, ⟨hG, trivial⟩, fun _ _ => by simp⟩

theorem does_note {r : Record} (hr : changes [r] = []) (hS : Changing S r) : Only S (note r) :=
  fun _ _ => ⟨[r], ⟨rfl, hr ▸ .nil⟩, ⟨hS, trivial⟩, fun _ _ => trivial⟩

theorem does_draw {β : Type} {f : ℕ → β} : Only S (draw f) :=
  fun _ _ => ⟨[], ⟨(List.append_nil _).symm, .nil⟩, trivial, fun _ _ => trivial⟩

theorem does_get : Only S (Eff.get : Fs World) := fun _ _ => ⟨[], logged.nil _, trivial, fun _ _ => trivial⟩

/-- **An operation of the jail changes what it makes.** -/
theorem does_jail {o : Op Path α} (ho : o.Makes (Among S)) : Only S (jail h o) := by
  intro _ s
  obtain ⟨ms, hpast, hchain, hms⟩ := exec_makes h.toMachine o { tree := s.tree, tick := s.tick, past := [] } ho
  have hchanges : changes (mutations ms) = ms := by
    rw [changes, mutations, List.filterMap_map]
    exact List.filterMap_some
  refine ⟨mutations ms, ⟨?_, hchanges.symm ▸ hchain⟩, obeys_of_forall ?_, fun _ _ => trivial⟩
  · show s.log ++ mutations _ = s.log ++ mutations ms
    rw [hpast, List.nil_append]
  · intro r hr
    obtain ⟨e, he, rfl⟩ := List.mem_map.mp hr
    exact hms e he

theorem does_ite {c : Prop} [Decidable c] {m m' : Fs α} (hm : Only S m)
    (hm' : Only S m') : Only S (if c then m else m') := by
  split
  · exact hm
  · exact hm'

/-- Going on after a failure as well as after a success. -/
theorem does_try {β : Type} {m : Fs β} {k : Except FsError β → Fs α} (hm : Only S m)
    (herror : ∀ e, Only S (k (.error e))) (hok : ∀ a, Only S (k (.ok a))) :
    Only S (do k (← Eff.attempt m)) := by
  refine does_bind (does_attempt hm) fun r => ?_
  cases r with
  | error e => exact herror e
  | ok a => exact hok a

theorem does_refuse {gate : Gate} {message rule : Text} {extra : List (Text × Value)} :
    Only S (refuse op gate message rule extra : Fs α) :=
  does_bind (does_note rfl trivial) fun _ => does_raise

theorem does_dryrun {reason : Text} {extra : List (Text × Value)} : Only S (dryrun op reason extra) :=
  does_bind (does_note rfl trivial) fun _ => does_pure

theorem does_preSize : Only S (preSize w h target) :=
  does_try (does_jail makes_stat) (fun _ => does_ite does_pure does_raise) fun _ => does_pure

/-! ### The ledger -/

theorem does_load : Only S (load w h) :=
  does_try (does_jail makes_readBytes) (fun _ => does_pure) fun _ => does_pure

/-- Saving changes the ledger only. -/
theorem does_trySave {l : QuotaLedger} : Only (Ledger w) (trySave w h l) :=
  does_bind (does_attempt (does_bind (does_jail (makes_writeBytes fun _ => id)) fun _ => does_pure)) fun _ => does_pure

theorem does_recompute {now : ℕ} {generation : ℤ} : Only S (recompute w h now generation) := by
  refine does_bind does_get fun s => does_bind does_draw fun unseen => ?_
  split
  · exact does_raise
  · exact does_pure

theorem does_quotaLedger : Only (Ledger w) (quotaLedger w h op) := by
  refine does_bind does_draw fun now => does_bind does_load fun ledger => ?_
  split
  · exact does_pure
  · exact does_try does_recompute (fun _ => does_refuse) fun _ => does_bind does_trySave fun _ => does_pure

theorem does_updateLedger {deltaBytes deltaFiles : ℤ} {ledger : Option QuotaLedger} :
    Only (Ledger w) (updateLedger w h deltaBytes deltaFiles ledger) := by
  unfold updateLedger
  split
  · exact does_pure
  · refine does_bind does_draw fun now => ?_
    cases ledger
    on_goal 1 => refine does_bind does_load fun found => ?_
    on_goal 2 => refine does_bind does_pure fun found => ?_
    all_goals
      dsimp only
      split
      · exact does_try does_recompute (fun _ => does_pure) fun _ => does_trySave
      · exact does_trySave

/-! ### The trash -/

theorem does_listEntries : Only S (listEntries w h) := by
  refine does_try (does_jail makes_listDir) (fun _ => does_pure) fun items => ?_
  refine does_bind (does_fold _ [] fun out item _ => does_ite ?_ does_pure) fun _ => does_pure
  exact does_try (does_jail makes_readBytes) (fun _ => does_pure) fun _ => does_pure

theorem does_findEntry {i : Interp} {entries : List TrashEntry} {name : Text} :
    Only S (findEntry i entries name) := by
  unfold findEntry
  cases entries.find? fun e => e.name = name
  · exact does_raise
  · exact does_pure

theorem does_contentSha {kind : Option Text} {size : ℕ} : Only S (contentSha w h target kind size) :=
  does_ite does_pure (does_try (does_jail makes_readBytes) (fun _ => does_ite does_pure does_raise) fun _ => does_pure)

theorem does_suppressConnect {m : Fs Unit} (hm : Only S m) :
    Only S (suppressConnect m) :=
  does_try hm (fun _ => does_ite does_pure does_raise) fun _ => does_pure

theorem does_dropSidecar {name : Text} (hS : S (parts (inTrash name ++ metaSuffix))) : Only S (dropSidecar w h name) :=
  does_suppressConnect (does_bind (does_jail (makes_unlink hS)) fun _ => does_pure)

theorem does_purge {kind : Option Text} (hS : S (parts target)) : Only S (purge w h target kind) := by
  refine does_ite (does_bind (does_attempt (does_jail (makes_rmdir hS))) fun r => ?_)
    (does_bind (does_jail (makes_unlink hS)) fun _ => does_pure)
  split
  · exact does_pure
  · exact does_refuse
  · exact does_raise

/-- The trash, what lies in it, and the temporary files there. -/
def InTrash (p : Platform) (q : Path) : Prop := ∃ name, Rewritten p (inTrash name) q

theorem does_toTrash {kind : Option Text} {size : ℕ} {reason : Text} {now : ℕ} (htarget : S (parts target))
    (htrash : ∀ q, InTrash w.interp.toPlatform q → S q) : Only S (toTrash w h target kind size reason now) := by
  have hplace : ∀ name, S (parts (inTrash name)) := by
    intro name
    have hne : parts (inTrash name) ≠ [] := by
      rw [inTrash, Repo.parts_under, show parts trashDir = [trashDir] by decide]
      exact List.cons_ne_nil _ _
    have hlast := (List.dropLast_append_getLast hne).symm
    exact htrash _ ⟨name, _, _, hlast, .inl hlast⟩
  have hsidecar : ∀ name, inTrash name ++ metaSuffix = inTrash (name ++ metaSuffix) := fun _ => List.append_assoc ..
  have hensure : Only S (ensureTrash w h) := by
    refine does_bind (does_attempt (does_jail (makes_mkdir (hplace [])))) fun r => ?_
    split
    · exact does_pure
    · exact does_pure
    · exact does_raise
  refine does_bind hensure fun _ => does_bind does_contentSha fun sha => does_bind does_draw fun token => ?_
  refine does_bind (does_jail (makes_writeBytes fun q hq => htrash q ⟨_, hsidecar _ ▸ hq⟩)) fun _ => ?_
  refine does_try (does_jail (makes_move htarget (hplace _))) (fun _ => ?_) fun _ => does_pure
  exact does_bind (does_dropSidecar (hsidecar _ ▸ hplace _)) fun _ => does_raise

/-- What belongs to an entry of the trash: all that is below it, and its sidecar. -/
def InEntry (name : Text) (q : Path) : Prop := parts (inTrash name) <+: q ∨ q = parts (inTrash name ++ metaSuffix)

theorem does_purgeTree {name : Text} : ∀ (depth : ℕ) (rel : Text), parts (inTrash name) <+: parts rel →
    Only (InEntry name) (purgeTree w h depth rel)
  | 0, _, _ => does_raise
  | depth + 1, rel, hrel => by
      have hplace : InEntry name (parts rel) := .inl hrel
      refine does_try (does_jail makes_stat) (fun _ => does_ite does_pure does_raise) fun _ => ?_
      refine does_ite ?_ (does_bind (does_jail (makes_unlink hplace)) fun _ => does_pure)
      refine does_bind (does_jail makes_listDir) fun items => does_bind (does_fold items () fun _ item _ => ?_) fun _ =>
        does_bind (does_jail (makes_rmdir hplace)) fun _ => does_pure
      refine does_purgeTree depth _ (hrel.trans ?_)
      rw [Repo.parts_under]
      exact List.prefix_append _ _

theorem does_purgeTrashEntry {e : TrashEntry} : Only (InEntry e.name) (purgeTrashEntry w h e) := by
  have hdrop : ∀ x : Bool × Bool, Only (InEntry e.name) (do dropSidecar w h e.name; pure x) :=
    fun _ => does_bind (does_dropSidecar (.inr rfl)) fun _ => does_pure
  refine does_try (does_jail makes_stat) (fun _ => does_ite (hdrop _) does_raise) fun _ => ?_
  exact does_try (does_purgeTree maxPurgeDepth _ (List.prefix_refl _)) (fun _ => does_ite does_pure does_raise) fun _ => hdrop _

/-- What a temporary file is called. -/
def Orphan (q : Path) : Prop := ∃ rel, tmpSuffix.isSuffixOf rel = true ∧ parts rel = q

theorem does_sweepOne {swept : List Text} {rel : Text} (hrel : tmpSuffix.isSuffixOf rel = true) :
    Only Orphan (sweepOne w h swept rel) :=
  does_try (does_jail (makes_unlink ⟨rel, hrel, rfl⟩)) (fun _ => does_ite does_pure does_raise) fun _ => does_pure

theorem suffix_intercalate (name : Text) : ∀ ps : List Text, name <:+ ['/'].intercalate (ps ++ [name])
  | [] => by simp
  | p :: ps => by
      have hrest := suffix_intercalate name ps
      obtain ⟨x, xs, hx⟩ := List.exists_cons_of_ne_nil (l := ps ++ [name]) (by simp)
      rw [List.cons_append]
      rw [hx] at hrest ⊢
      rw [List.intercalate_cons_cons]
      exact hrest.trans (List.suffix_append _ _)

/-- What the walk finds is called so. -/
theorem orphan_of_found {unseen : Path → Bool} {now : ℕ} {t : Tree} {rel : Text}
    (hrel : rel ∈ ((t.table.rows.filter (isOrphanTmp unseen now)).map fun e => ['/'].intercalate e.1).insertionSort (· ≤ ·)) :
    tmpSuffix.isSuffixOf rel = true := by
  obtain ⟨e, he, rfl⟩ := List.mem_map.mp ((List.perm_insertionSort _ _).mem_iff.mp hrel)
  have horphan := (List.mem_filter.mp he).2
  simp only [isOrphanTmp, Bool.and_eq_true, Option.any_eq_true] at horphan
  obtain ⟨⟨⟨-, name, hname, hsuffix⟩, -⟩, -⟩ := horphan
  rw [← List.dropLast_append_getLast? name hname, List.isSuffixOf_iff_suffix]
  exact (List.isSuffixOf_iff_suffix.mp hsuffix).trans (suffix_intercalate _ _)

/-- Only what is called a temporary file is swept up. -/
theorem does_sweep : Only Orphan (sweepOrphanTmp w h) := by
  intro past s
  exact does_fold _ [] (fun swept rel hrel => does_sweepOne (orphan_of_found hrel)) past { s with tick := s.tick + 1 + 1 }

end Steps

/-! ### The rule -/

/-- What the gates go by: an op is destructive if something that is there may be lost by it, and
purges if what it takes away is gone for good. -/
structure Ask where
  op : OpName
  reason : Text
  confirm : Bool
  destructive : Bool
  purges : Bool
  targets : List Text
  payload : Option Bytes

def Call.ask : Call → Ask
  | .fsWrite target data reason confirm overwrite =>
      ⟨.fsWrite, reason, confirm, overwrite, false, [target], some data⟩
  | .fsAppend target data reason confirm => ⟨.fsAppend, reason, confirm, false, false, [target], some data⟩
  | .fsMkdir target reason confirm => ⟨.fsMkdir, reason, confirm, false, false, [target], none⟩
  | .fsMove src dst reason confirm _ => ⟨.fsMove, reason, confirm, true, false, [src, dst], none⟩
  | .fsDelete target reason confirm purging => ⟨.fsDelete, reason, confirm, true, purging, [target], none⟩
  | .trashEmpty reason confirm _ => ⟨.trashEmpty, reason, confirm, true, true, [], none⟩
  | .trashRestore _ reason confirm _ => ⟨.trashRestore, reason, confirm, true, false, [], none⟩

/-- Writing is enabled for a call, and its reason and confirmation are given. -/
structure Enabled (w : FsWriter) (c : Call) : Prop where
  enabled : w.cfg.writesEnabled = true
  allowed : w.hardDisable = false
  platform : w.refusedPlatform = false
  reason : PyText.strip c.ask.reason ≠ []
  confirmed : c.ask.destructive = true → w.cfg.requireConfirmDestructive = true → c.ask.confirm = true

/-- Not below the trash, and no name the writer keeps for itself. -/
def Open (comps : List Text) : Prop :=
  comps.head? ≠ some trashDir ∧ ∀ leaf, comps.getLast? = some leaf → leaf ≠ quotaFile ∧ tmpSuffix.isSuffixOf leaf = false

/-- Every gate of a call has been passed. -/
structure Cleared (w : FsWriter) (c : Call) (known : List Record) : Prop where
  enabled : Enabled w c
  targets : ∀ target ∈ c.ask.targets, ∃ comps, splitComponents target = some comps ∧ Open comps
  payload : ∀ data, c.ask.payload = some data → data.length ≤ w.cfg.maxWriteBytes ∧
    (w.cfg.blockOnInjectionFlags = true → w.interp.scan data = [])
  hardDelete : c.ask.purges = true → w.cfg.allowHardDelete = true
  rate : .passed .rateLimit ∈ known
  quota : c.ask.targets ≠ [] → .passed .quota ∈ known

/-- The entries that an intent names. -/
def Names (p : Platform) : Record → Path → Prop
  | .intent op _ path _ extra, q =>
      match op with
      | .fsWrite => Rewritten p path q
      | .fsMove => parts path = q ∨ ∃ src, ("from".toList, .str src) ∈ extra ∧ parts src = q
      | .fsDelete => parts path = q ∨ InTrash p q
      | .trashEmpty => InEntry path q
      | .trashRestore => parts path = q ∨ ∃ entry, ("trash_entry".toList, .str entry) ∈ extra ∧ InEntry entry q
      | _ => parts path = q
  | _, _ => False

/-- An intent is the call's own, and names what the call asks to change. -/
def OfCall (c : Call) : Record → Prop
  | .intent op reason path _ extra =>
      op = c.ask.op ∧ reason = c.ask.reason ∧
        (c.ask.targets ≠ [] → path ∈ c.ask.targets ∧ ∀ src, ("from".toList, .str src) ∈ extra → src ∈ c.ask.targets)
  | _ => False

/-- A change of something else than the ledger needs every gate, and so does an intent. -/
def Gated (w : FsWriter) (c : Call) (known : List Record) : Record → Prop
  | .mutated m _ => Enabled w c ∧ (Among (Ledger w) m ∨ Cleared w c known)
  | .intent .. => Cleared w c known
  | _ => True

/-- A change is announced by an intent that names its entries, and what is reported as done was
announced. -/
def Audited (w : FsWriter) (c : Call) (known : List Record) : Record → Prop
  | .mutated m _ =>
      Among (Ledger w) m ∨ (∃ i ∈ known, OfCall c i ∧ Among (Names w.interp.toPlatform i) m) ∨
        c.ask.op = .trashEmpty ∧ Among Orphan m
  | .applied op reason _ intentId _ _ => ∃ path extra, .intent op reason path intentId extra ∈ known
  | _ => True

/-- What must have gone before a record of a call. -/
def Rule (w : FsWriter) (c : Call) (known : List Record) (r : Record) : Prop := Gated w c known r ∧ Audited w c known r

/-- A step of a call keeps to the rule, and returns knowing `Q`. -/
abbrev Keeps {α : Type} (w : FsWriter) (c : Call) (past : List Record) (m : Fs α) (Q : List Record → α → Prop) : Prop :=
  Traces logged (Rule w c) past m Q

/-- A call keeps to the rule. -/
abbrev Ruled (w : FsWriter) (h : Host) (past : List Record) (c : Call) : Prop :=
  Keeps w c past (w.perform h c) fun _ _ => True

section Calls

variable {w : FsWriter} {h : Host} {c : Call} {past : List Record} {α : Type} {Q : List Record → α → Prop}

theorem places_ne_nil (m : Mutation) : places m ≠ [] := by cases m <;> simp [places]

/-- What the rule allows of a step it has to allow of the changes only. -/
theorem allows_changing {S : Path → Prop} (hS : ∀ known m t, past <+: known → Among S m → Rule w c known (.mutated m t)) :
    Allows (Rule w c) past (Changing S) := by
  intro known r hknown hr
  cases r with
  | mutated m t => exact hS known m t hknown hr
  | intent => cases hr
  | applied => cases hr
  | _ => exact ⟨trivial, trivial⟩

/-- Looking is allowed always. -/
theorem allows_looking : Allows (Rule w c) past (Changing fun _ => False) := by
  refine allows_changing fun known m t _ hm => ?_
  obtain ⟨q, hq⟩ := List.exists_mem_of_ne_nil _ (places_ne_nil m)
  exact absurd (hm q hq) id

theorem Cleared.later {known : List Record} (hc : Cleared w c past) (hknown : past <+: known) : Cleared w c known :=
  { hc with
    rate := hknown.subset hc.rate
    quota := fun ht => hknown.subset (hc.quota ht) }

theorem allows_ledger (hw : Enabled w c) : Allows (Rule w c) past (Changing (Ledger w)) :=
  allows_changing fun _ _ _ _ hm => ⟨⟨hw, .inl hm⟩, .inl hm⟩

/-- What an intent names may be changed once it is there. -/
theorem allows_named {i : Record} (hc : Cleared w c past) (hi : i ∈ past) (hof : OfCall c i) :
    Allows (Rule w c) past (Changing (Names w.interp.toPlatform i)) :=
  allows_changing fun _ _ _ hknown hm =>
    ⟨⟨hc.enabled, .inr (hc.later hknown)⟩, .inr (.inl ⟨i, hknown.subset hi, hof, hm⟩)⟩

theorem traces_looking {m : Fs α} (hm : Only (fun _ => False) m) : Keeps w c past m fun _ _ => True :=
  hm.traces allows_looking

theorem traces_ite {b : Prop} [Decidable b] {m m' : Fs α} (hm : Keeps w c past m Q) (hm' : ¬ b → Keeps w c past m' Q) :
    Keeps w c past (if b then m else m') Q := by
  split
  · exact hm
  · exact hm' ‹_›

/-! ### The gates -/

theorem traces_refuse {op : OpName} {gate : Gate} {message rule : Text} {extra : List (Text × Value)} :
    Keeps w c past (refuse op gate message rule extra : Fs α) Q :=
  traces_bind (traces_note rfl ⟨trivial, trivial⟩) fun _ _ _ _ => traces_raise

theorem traces_reserveCheck {op : OpName} {comps : List Text} :
    Keeps w c past (reserveCheck w op comps) fun _ _ => Open comps := by
  unfold reserveCheck
  split
  · rename_i first leaf hfirst hleaf
    split
    · exact traces_refuse
    · split
      · exact traces_refuse
      · rename_i hfree hname
        simp only [not_or, Bool.not_eq_true] at hname
        refine traces_pure ⟨by simpa [hfirst] using hfree, fun leaf' hleaf' => ?_⟩
        rwa [← Option.some.inj (hleaf.symm.trans hleaf')]
  · rename_i hnone
    have hnil : comps = [] := by
      by_contra hne
      exact hnone _ _ (List.head?_eq_some_head hne) (List.getLast?_eq_some_getLast hne)
    refine traces_pure ?_
    subst hnil
    exact ⟨by simp, by simp⟩

theorem traces_enforcePayloadCap {op : OpName} {data : Bytes} :
    Keeps w c past (enforcePayloadCap w op data) fun _ _ => data.length ≤ w.cfg.maxWriteBytes := by
  refine traces_ite traces_raise fun hsize => traces_pure ?_
  omega

theorem traces_checkInjection {op : OpName} {flags : List Text} :
    Keeps w c past (checkInjection w op flags) fun _ _ => w.cfg.blockOnInjectionFlags = true → flags = [] := by
  refine traces_ite traces_refuse fun hclean => traces_pure fun hblock => ?_
  by_contra hflags
  exact hclean ⟨hflags, hblock⟩

theorem traces_split {target : Text} :
    Keeps w c past (split target) fun _ comps => splitComponents target = some comps := by
  unfold Fsconnect.split
  split
  · exact traces_raise
  · exact traces_pure ‹_›

theorem traces_checkQuota {op : OpName} {deltaBytes deltaFiles : ℤ} (hw : Enabled w c) :
    Keeps w c past (checkQuota w h op deltaBytes deltaFiles) fun known _ => .passed .quota ∈ known := by
  unfold checkQuota
  split
  · exact traces_bind (traces_note rfl ⟨trivial, trivial⟩) fun _ _ _ hpassed => traces_pure hpassed
  · refine traces_bind (does_quotaLedger.traces (allows_ledger hw)) fun _ ledger _ _ => ?_
    refine traces_ite traces_refuse fun _ => traces_ite traces_refuse fun _ => ?_
    exact traces_bind (traces_note rfl ⟨trivial, trivial⟩) fun _ _ _ hpassed => traces_pure hpassed

theorem traces_checkRate {op : OpName} :
    Keeps w c past (checkRate w h op) fun known _ => .passed .rateLimit ∈ known := by
  have hpass : ∀ {known : List Record} {note' : Text},
      Keeps w c known (do note (.passed .rateLimit); pure note') fun known _ => .passed .rateLimit ∈ known :=
    traces_bind (traces_note rfl ⟨trivial, trivial⟩) fun _ _ _ hpassed => traces_pure hpassed
  refine traces_ite hpass fun _ => traces_bind (traces_looking does_draw) fun _ perRoot _ _ => ?_
  refine traces_ite traces_refuse fun _ => traces_bind (traces_looking does_draw) fun _ every _ _ => ?_
  exact traces_ite traces_refuse fun _ => hpass

/-! ### The operations -/

/-- Only what is enabled goes on; the rest is planned. -/
theorem traces_go {op : OpName} {plan go : Fs α} (hplan : Only (fun _ => False) plan)
    (hgo : Enabled w c → ∀ known, Keeps w c known go fun _ _ => True) :
    Keeps w c past (do
      if !(← executable w op c.ask.reason c.ask.confirm c.ask.destructive) then plan else go) fun _ _ => True := by
  have hexecutable : Keeps w c past (executable w op c.ask.reason c.ask.confirm c.ask.destructive) fun _ b =>
      b = true → Enabled w c := by
    refine traces_ite (traces_pure (by simp)) fun hoff => traces_ite traces_refuse fun hplatform => ?_
    refine traces_ite traces_refuse fun hreason => traces_ite traces_refuse fun hconfirm => ?_
    refine traces_pure fun _ => ⟨?_, ?_, ?_, hreason, ?_⟩ <;> simp_all
  refine traces_bind hexecutable fun known b _ hb => ?_
  cases b with
  | false => exact traces_looking hplan
  | true => exact hgo (hb rfl) known

/-- From the check that comes last to the intent. -/
theorem traces_intent {path : Text} {extra : List (Text × Value)} {k : Text → Text → Fs Reply}
    (hc : ∀ known, past <+: known → .passed .rateLimit ∈ known → Cleared w c known)
    (hpath : c.ask.targets ≠ [] → path ∈ c.ask.targets ∧ ∀ src, ("from".toList, .str src) ∈ extra → src ∈ c.ask.targets)
    (hk : ∀ known rnote intentId, Cleared w c known → .intent c.ask.op c.ask.reason path intentId extra ∈ known →
      OfCall c (.intent c.ask.op c.ask.reason path intentId extra) →
      Keeps w c known (k rnote intentId) fun _ _ => True) :
    Keeps w c past (do
      let rnote ← checkRate w h c.ask.op
      let intentId ← draw h.uuid
      auditIntent c.ask.op c.ask.reason path intentId extra
      k rnote intentId) fun _ _ => True := by
  refine traces_bind traces_checkRate fun known rnote hknown hrate => ?_
  refine traces_bind (traces_looking does_draw) fun later intentId hlater _ => ?_
  have hcleared := (hc known hknown hrate).later hlater
  refine traces_bind (traces_note rfl ⟨hcleared, trivial⟩) fun last _ hlast hi => ?_
  exact hk last rnote intentId (hcleared.later hlast) hi ⟨rfl, rfl, hpath⟩

theorem traces_applied {op : OpName} {reason path path' intentId rule : Text} {flags : List Text}
    {extra : List (Text × Value)} {reply : Reply} (hi : .intent op reason path intentId extra ∈ past) :
    Keeps w c past (do auditApplied op reason path' flags intentId rule; pure reply) fun _ _ => True :=
  traces_bind (traces_note rfl ⟨trivial, path, extra, hi⟩) fun _ _ _ _ => traces_pure trivial

variable {target reason : Text} {data : Bytes} {confirm : Bool}

theorem traces_fsWrite {overwrite : Bool} : Ruled w h past (.fsWrite target data reason confirm overwrite) := by
  refine traces_bind traces_split fun _ comps _ hcomps => traces_bind traces_reserveCheck fun _ _ _ hopen => ?_
  refine traces_bind traces_enforcePayloadCap fun _ _ _ hcap => traces_go does_dryrun fun hw _ => ?_
  refine traces_bind traces_checkInjection fun _ _ _ hclean => ?_
  refine traces_bind (traces_looking does_preSize) fun _ size _ _ => ?_
  refine traces_bind (traces_checkQuota hw) fun _ quota _ hquota => ?_
  refine traces_intent (fun known hknown hrate => ⟨hw, by simpa [Call.ask] using ⟨comps, hcomps, hopen⟩,
    by simpa [Call.ask] using ⟨hcap, hclean⟩, by simp [Call.ask], hrate, fun _ => hknown.subset hquota⟩) (by simp [Call.ask]) ?_
  intro known rnote intentId hc hi hof
  refine traces_bind ((does_jail (makes_writeBytes fun _ => id)).traces (allows_named hc hi hof)) fun _ _ hmore _ => ?_
  refine traces_bind (does_updateLedger.traces (allows_ledger hw)) fun _ _ hrest _ => ?_
  exact traces_applied (hrest.subset (hmore.subset hi))

theorem traces_fsAppend : Ruled w h past (.fsAppend target data reason confirm) := by
  refine traces_bind traces_split fun _ comps _ hcomps => traces_bind traces_reserveCheck fun _ _ _ hopen => ?_
  refine traces_bind traces_enforcePayloadCap fun _ _ _ hcap => traces_go does_dryrun fun hw _ => ?_
  refine traces_bind traces_checkInjection fun _ _ _ hclean => ?_
  refine traces_bind (traces_looking does_preSize) fun _ size _ _ => ?_
  refine traces_bind (traces_checkQuota hw) fun _ quota _ hquota => ?_
  refine traces_intent (fun known hknown hrate => ⟨hw, by simpa [Call.ask] using ⟨comps, hcomps, hopen⟩,
    by simpa [Call.ask] using ⟨hcap, hclean⟩, by simp [Call.ask], hrate, fun _ => hknown.subset hquota⟩) (by simp [Call.ask]) ?_
  intro known rnote intentId hc hi hof
  refine traces_bind ((does_jail (makes_appendBytes rfl)).traces (allows_named hc hi hof)) fun _ _ hmore _ => ?_
  refine traces_bind (does_updateLedger.traces (allows_ledger hw)) fun _ _ hrest _ => ?_
  exact traces_applied (hrest.subset (hmore.subset hi))

theorem traces_fsMkdir : Ruled w h past (.fsMkdir target reason confirm) := by
  refine traces_bind traces_split fun _ comps _ hcomps => traces_bind traces_reserveCheck fun _ _ _ hopen => ?_
  refine traces_go does_dryrun fun hw _ => ?_
  refine traces_bind (traces_checkQuota hw) fun _ quota _ hquota => ?_
  refine traces_intent (fun known hknown hrate => ⟨hw, by simpa [Call.ask] using ⟨comps, hcomps, hopen⟩,
    by simp [Call.ask], by simp [Call.ask], hrate, fun _ => hknown.subset hquota⟩) (by simp [Call.ask]) ?_
  intro known rnote intentId hc hi hof
  refine traces_bind ((does_jail (makes_mkdir rfl)).traces (allows_named hc hi hof)) fun _ _ hmore _ => ?_
  exact traces_applied (hmore.subset hi)

theorem traces_fsMove {src dst : Text} {overwrite : Bool} :
    Ruled w h past (.fsMove src dst reason confirm overwrite) := by
  refine traces_bind traces_split fun _ scomps _ hscomps => traces_bind traces_split fun _ dcomps _ hdcomps => ?_
  refine traces_bind traces_reserveCheck fun _ _ _ hsopen => traces_bind traces_reserveCheck fun _ _ _ hdopen => ?_
  refine traces_go does_dryrun fun hw _ => ?_
  refine traces_bind (traces_checkQuota hw) fun _ quota _ hquota => ?_
  refine traces_intent (fun known hknown hrate => ⟨hw,
    by simpa [Call.ask] using ⟨⟨scomps, hscomps, hsopen⟩, ⟨dcomps, hdcomps, hdopen⟩⟩,
    by simp [Call.ask], by simp [Call.ask], hrate, fun _ => hknown.subset hquota⟩) (by simp [Call.ask]) ?_
  intro known rnote intentId hc hi hof
  refine traces_bind ((does_jail (makes_move (.inr ⟨src, by simp, rfl⟩) (.inl rfl))).traces
    (allows_named hc hi hof)) fun _ _ hmore _ => ?_
  exact traces_applied (hmore.subset hi)

theorem traces_fsDelete {purging : Bool} : Ruled w h past (.fsDelete target reason confirm purging) := by
  refine traces_bind traces_split fun _ comps _ hcomps => traces_ite traces_raise fun _ => ?_
  refine traces_bind traces_reserveCheck fun _ _ _ hopen => traces_bind (traces_looking does_draw) fun _ now _ _ => ?_
  refine traces_bind (traces_looking does_preSize) fun _ found _ _ => ?_
  obtain ⟨existed, size, kind⟩ := found
  refine traces_go (does_bind does_draw fun _ => does_dryrun) fun hw _ => traces_ite traces_refuse fun hallowed => ?_
  refine traces_ite traces_raise fun _ => traces_bind (traces_checkQuota hw) fun _ quota _ hquota => ?_
  refine traces_intent (fun known hknown hrate => ⟨hw, by simpa [Call.ask] using ⟨comps, hcomps, hopen⟩,
    by simp [Call.ask], by simpa [Call.ask] using hallowed, hrate, fun _ => hknown.subset hquota⟩) (by simp [Call.ask]) ?_
  intro known rnote intentId hc hi hof
  refine traces_ite ?_ fun _ => ?_
  · refine traces_bind ((does_purge (.inl rfl)).traces (allows_named hc hi hof)) fun _ _ hmore _ => ?_
    refine traces_bind (does_updateLedger.traces (allows_ledger hw)) fun _ _ hrest _ => ?_
    exact traces_applied (hrest.subset (hmore.subset hi))
  · refine traces_bind ((does_toTrash (.inl rfl) fun _ => .inr).traces (allows_named hc hi hof)) fun _ _ hmore _ => ?_
    exact traces_applied (hmore.subset hi)

theorem traces_trashRestore {entry : Text} {overwrite : Bool} :
    Ruled w h past (.trashRestore entry reason confirm overwrite) := by
  refine traces_bind (traces_looking does_listEntries) fun _ entries _ _ => ?_
  refine traces_bind (traces_looking does_findEntry) fun _ te _ _ => traces_go does_dryrun fun hw _ => ?_
  refine traces_intent (fun known _ hrate => ⟨hw, by simp [Call.ask], by simp [Call.ask], by simp [Call.ask], hrate,
    by simp [Call.ask]⟩) (by simp [Call.ask]) ?_
  intro known rnote intentId hc hi hof
  have hentry : ∀ q, InEntry entry q → Names w.interp.toPlatform
      (.intent .trashRestore reason te.originalPath intentId [("trash_entry".toList, .str entry)]) q :=
    fun q hq => .inr ⟨entry, by simp, hq⟩
  refine traces_bind ((does_jail (makes_move (hentry _ (.inl (List.prefix_refl _))) (.inl rfl))).traces
    (allows_named hc hi hof)) fun later _ hmore _ => ?_
  refine traces_bind ((does_dropSidecar (hentry _ (.inr rfl))).traces
    (allows_named (hc.later hmore) (hmore.subset hi) hof)) fun _ _ hrest _ => ?_
  exact traces_applied (hrest.subset (hmore.subset hi))

/-- Each round of an emptying has its own intent; the sweep behind them has none. -/
theorem traces_trashEmpty {allEntries : Bool} : Ruled w h past (.trashEmpty reason confirm allEntries) := by
  refine traces_bind (traces_looking does_draw) fun _ now _ _ => ?_
  refine traces_bind (traces_looking does_listEntries) fun _ entries _ _ => ?_
  refine traces_go (does_bind (fun _ s => ⟨[], logged.nil s, trivial, fun _ _ => trivial⟩) fun _ => does_dryrun) fun hw _ => ?_
  split
  · exact traces_refuse
  · rename_i hallowed
    refine traces_bind traces_checkRate fun cleared rnote _ hrate => ?_
    have hc : Cleared w (.trashEmpty reason confirm allEntries) cleared :=
      ⟨hw, by simp [Call.ask], by simp [Call.ask], by simpa [Call.ask] using hallowed, hrate, by simp [Call.ask]⟩
    refine traces_bind (traces_fold fun known acc e _ hknown => ?_) fun known _ hknown _ => ?_
    · refine traces_bind (traces_looking does_draw) fun k₁ intentId hk₁ _ => ?_
      have hc₁ := (hc.later hknown).later hk₁
      have hof : OfCall (.trashEmpty reason confirm allEntries)
          (.intent .trashEmpty reason e.name intentId [("trash_entry".toList, .str e.name)]) :=
        ⟨rfl, rfl, by simp [Call.ask]⟩
      refine traces_bind (traces_note rfl ⟨hc₁, trivial⟩) fun k₂ _ hk₂ hi => ?_
      refine traces_bind (does_purgeTrashEntry.traces (allows_named (hc₁.later hk₂) hi hof)) fun k₃ done hk₃ _ => ?_
      obtain ⟨reclaimed, hadPayload⟩ := done
      cases reclaimed with
      | false => exact traces_pure trivial
      | true =>
        refine traces_bind (traces_note rfl ⟨trivial, _, _, hk₃.subset hi⟩) fun _ _ _ _ => ?_
        split <;> exact traces_pure trivial
    · refine traces_bind (does_sweep.traces ?_) fun _ swept _ _ => ?_
      · exact allows_changing fun _ _ _ hlater hm =>
          ⟨⟨hw, .inr ((hc.later hknown).later hlater)⟩, .inr (.inr ⟨rfl, hm⟩)⟩
      · exact traces_bind (does_updateLedger.traces (allows_ledger hw)) fun _ _ _ _ => traces_pure trivial

/-- **Every call keeps to the rule.** -/
theorem traces_perform (c : Call) : Ruled w h past c := by
  cases c with
  | fsWrite => exact traces_fsWrite
  | fsAppend => exact traces_fsAppend
  | fsMkdir => exact traces_fsMkdir
  | fsMove => exact traces_fsMove
  | fsDelete => exact traces_fsDelete
  | trashEmpty => exact traces_trashEmpty
  | trashRestore => exact traces_trashRestore

end Calls

/-! ### Runs -/

/-- Calls one after the other, each with what it has logged. -/
def FsWriter.serve (w : FsWriter) (h : Host) : List Call → World → List (Call × List Record) × World
  | [], s => ([], s)
  | c :: cs, s =>
      let s' := (w.perform h c s).2
      let rest := w.serve h cs s'
      ((c, s'.log.drop s.log.length) :: rest.1, rest.2)

section Runs

variable (w : FsWriter) (h : Host)

/-- A run keeps to the rule, and its logs lead from the first tree to the last. -/
theorem rule_serve : ∀ (cs : List Call) (s : World),
    ((w.serve h cs s).1.Forall fun e => Obeys (Rule w e.1) [] e.2) ∧
      Chain s.tree (changes ((w.serve h cs s).1.flatMap Prod.snd)) (w.serve h cs s).2.tree
  | [], _ => ⟨trivial, .nil⟩
  | c :: cs, s => by
      have hruled : Ruled w h [] c := traces_perform c
      obtain ⟨l, ⟨hlog, hchain⟩, hobeys, -⟩ := hruled s
      obtain ⟨hrest, hchains⟩ := rule_serve cs (w.perform h c s).2
      have hl : (w.perform h c s).2.log.drop s.log.length = l := by rw [hlog, List.drop_left]
      simp only [FsWriter.serve, List.forall_cons, List.flatMap_cons, hl, changes, List.filterMap_append]
      exact ⟨⟨hobeys, hrest⟩, hchain.append hchains⟩

/-- What the rule says of single records holds throughout a run. -/
theorem serve_obeys {G : Call → List Record → Record → Prop} (hG : ∀ c known r, Rule w c known r → G c known r)
    (cs : List Call) (s : World) : (w.serve h cs s).1.Forall fun e => Obeys (G e.1) [] e.2 :=
  (rule_serve w h cs s).1.imp fun e he => he.mono fun known r _ => hG e.1 known r

/-- **Nothing is changed past the gates**, in any run and up to wherever it is cut off. -/
theorem changes_gated (cs : List Call) (s : World) : (w.serve h cs s).1.Forall fun e => Obeys (Gated w e.1) [] e.2 :=
  serve_obeys w h (fun _ _ _ hr => hr.1) cs s

/-- What a call asks to change, under a name that is none of the writer's own. -/
def Own (w : FsWriter) (c : Call) (q : Path) : Prop :=
  ∃ target ∈ c.ask.targets, Open (parts target) ∧ (parts target = q ∨ Rewritten w.interp.toPlatform target q)

/-- An operation on files changes its own targets, which have none of the writer's own names;
what it puts into the trash is the one exception. -/
def Spared (w : FsWriter) (c : Call) (_ : List Record) : Record → Prop
  | .mutated m _ =>
      c.ask.targets = [] ∨ Among (Ledger w) m ∨
        Among (fun q => Own w c q ∨ c.ask.op = .fsDelete ∧ InTrash w.interp.toPlatform q) m
  | _ => True

theorem op_of_targets {c : Call} (h : c.ask.targets ≠ []) : c.ask.op ≠ .trashEmpty ∧ c.ask.op ≠ .trashRestore := by
  cases c <;> simp_all [Call.ask]

end Runs

end CyClaw.Fsconnect
