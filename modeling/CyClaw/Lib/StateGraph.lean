/-
Graphs of state-transforming nodes.

A graph has a set of nodes, each of which reads the shared state, may act on the
world, and either returns a new state or raises.  Control then leaves the node
along its edge: to a fixed node, to the node a router's label is mapped to, or out
of the graph.  A label the edge map does not know ends the run with `badLabel`, and
a run that uses up its step budget ends with `outOfSteps`, so every way a run can go
wrong is visible in `Stop`.

Two rules carry the proofs about a concrete graph.

  * `run_inv`: an assertion about the node control is at, the state, and everything
    done so far, which the entry satisfies and every step preserves, holds whenever
    control enters a node and wherever the run stops.
  * `rank_pairwise` and `run_not_outOfSteps`: when a rank falls along every edge,
    the nodes of a run have strictly falling rank and a budget above the entry's
    rank is never used up.
-/
import Mathlib.Data.List.Basic
import Mathlib.Data.List.Pairwise

namespace StateGraph

/-- How control leaves a node. -/
inductive Edge (N L S : Type) where
  /-- Always to the same node. -/
  | goto (n : N)
  /-- To the node the router's label is mapped to. -/
  | branch (router : S → L) (path : L → Option N)
  /-- Out of the graph. -/
  | finish

/-- Where an edge leads in a given state. -/
inductive Next (N L : Type) where
  | enter (n : N)
  | badLabel (l : L)
  | done
  deriving DecidableEq

/-- The edge, followed in state `s`. -/
def Edge.follow {N L S : Type} (e : Edge N L S) (s : S) : Next N L :=
  match e with
  | .goto n => .enter n
  | .branch router path =>
      match path (router s) with
      | some n => .enter n
      | none => .badLabel (router s)
  | .finish => .done

/-- A branch whose map knows the router's label does not lead to a bad label. -/
theorem Edge.branch_ne_badLabel {N L S : Type} {router : S → L} {path : L → Option N} {s : S}
    (h : (path (router s)).isSome = true) (l : L) :
    (Edge.branch router path).follow s ≠ .badLabel l := by
  obtain ⟨n, hn⟩ := Option.isSome_iff_exists.mp h
  simp [Edge.follow, hn]

/-- What running one node gives: what it did, and the state it returned unless it raised. -/
structure Out (S E X : Type) where
  effects : List E
  result : Except X S

/-- A graph over nodes `N`, labels `L`, states `S`, effects `E` and exceptions `X`. -/
structure Graph (N L S E X : Type) where
  entry : N
  node : N → S → Out S E X
  edge : N → Edge N L S

/-- Why a run stopped. -/
inductive Stop (N L X : Type) where
  | ended
  | raised (n : N) (x : X)
  | badLabel (n : N) (l : L)
  | outOfSteps
  deriving DecidableEq

/-- One node of a run, with the state it was entered in and what it did. -/
structure Visit (N S E X : Type) where
  node : N
  state : S
  out : Out S E X

/-- A finished run: the nodes in order, and why it stopped. -/
structure Run (N L S E X : Type) where
  visits : List (Visit N S E X)
  stop : Stop N L X

variable {N L S E X : Type}

namespace Run

/-- The nodes of the run, in the order they ran. -/
def nodes (r : Run N L S E X) : List N := r.visits.map (·.node)

/-- Everything the run did, in order. -/
def effects (r : Run N L S E X) : List E := r.visits.flatMap (·.out.effects)

/-- The run with one more visit in front. -/
def cons (v : Visit N S E X) (r : Run N L S E X) : Run N L S E X := ⟨v :: r.visits, r.stop⟩

@[simp] theorem cons_visits (v : Visit N S E X) (r : Run N L S E X) :
    (cons v r).visits = v :: r.visits := rfl

@[simp] theorem cons_stop (v : Visit N S E X) (r : Run N L S E X) : (cons v r).stop = r.stop := rfl

@[simp] theorem cons_nodes (v : Visit N S E X) (r : Run N L S E X) :
    (cons v r).nodes = v.node :: r.nodes := rfl

end Run

namespace Graph

/-- Run from node `n` in state `s` for at most `k` nodes. -/
def runFrom (g : Graph N L S E X) : Nat → N → S → Run N L S E X
  | 0, _, _ => ⟨[], .outOfSteps⟩
  | k + 1, n, s =>
      let out := g.node n s
      match out.result with
      | .error x => ⟨[⟨n, s, out⟩], .raised n x⟩
      | .ok s' =>
          match (g.edge n).follow s' with
          | .enter m => Run.cons ⟨n, s, out⟩ (runFrom g k m s')
          | .badLabel l => ⟨[⟨n, s, out⟩], .badLabel n l⟩
          | .done => ⟨[⟨n, s, out⟩], .ended⟩

/-- Run the graph from its entry. -/
def run (g : Graph N L S E X) (limit : Nat) (s : S) : Run N L S E X :=
  g.runFrom limit g.entry s

/-- One step of a run: node `n` returned `s'` and its edge leads to `m`. -/
def Steps (g : Graph N L S E X) (n : N) (s : S) (m : N) (s' : S) : Prop :=
  (g.node n s).result = .ok s' ∧ (g.edge n).follow s' = .enter m

/-! ### Unfolding one node -/

/-- A run of at least one node, by how its first node ends. -/
theorem runFrom_cases (g : Graph N L S E X) (k : Nat) (n : N) (s : S) :
    (∃ x, (g.node n s).result = .error x ∧
        g.runFrom (k + 1) n s = ⟨[⟨n, s, g.node n s⟩], .raised n x⟩) ∨
    (∃ s' l, (g.node n s).result = .ok s' ∧ (g.edge n).follow s' = .badLabel l ∧
        g.runFrom (k + 1) n s = ⟨[⟨n, s, g.node n s⟩], .badLabel n l⟩) ∨
    (∃ s', (g.node n s).result = .ok s' ∧ (g.edge n).follow s' = .done ∧
        g.runFrom (k + 1) n s = ⟨[⟨n, s, g.node n s⟩], .ended⟩) ∨
    (∃ m s', g.Steps n s m s' ∧
        g.runFrom (k + 1) n s = Run.cons ⟨n, s, g.node n s⟩ (g.runFrom k m s')) := by
  unfold Steps
  cases hres : (g.node n s).result with
  | error x => exact Or.inl ⟨x, rfl, by simp [runFrom, hres]⟩
  | ok s' =>
      cases hfol : (g.edge n).follow s' with
      | badLabel l => exact Or.inr (Or.inl ⟨s', l, rfl, hfol, by simp [runFrom, hres, hfol]⟩)
      | done => exact Or.inr (Or.inr (Or.inl ⟨s', rfl, hfol, by simp [runFrom, hres, hfol]⟩))
      | enter m =>
          exact Or.inr (Or.inr (Or.inr ⟨m, s', ⟨rfl, hfol⟩, by simp [runFrom, hres, hfol]⟩))

/-! ### The invariant rule -/

/-- `Inv n s es` is preserved when a step leaves `n` for another node. -/
def Preserved (g : Graph N L S E X) (Inv : N → S → List E → Prop) : Prop :=
  ∀ n s m s' es, Inv n s es → g.Steps n s m s' → Inv m s' (es ++ (g.node n s).effects)

private theorem eq_of_singleton {α : Type} {a v : α} {pre post : List α}
    (h : [a] = pre ++ v :: post) : pre = [] ∧ a = v := by
  cases pre with
  | nil => simp only [List.nil_append, List.cons.injEq] at h; exact ⟨rfl, h.1⟩
  | cons w rest => simp at h

/-- The assertion holds on entry to each visit of a run, with all that was done before it. -/
theorem runFrom_inv {g : Graph N L S E X} {Inv : N → S → List E → Prop}
    (hstep : g.Preserved Inv) :
    ∀ (k : Nat) (n : N) (s : S) (es : List E), Inv n s es →
      ∀ pre v post, (g.runFrom k n s).visits = pre ++ v :: post →
        Inv v.node v.state (es ++ pre.flatMap (·.out.effects)) ∧ v.out = g.node v.node v.state := by
  intro k
  induction k with
  | zero => intro n s es _ pre v post h; simp [runFrom] at h
  | succ k ih =>
      intro n s es hinv pre v post h
      have hhead : pre = [] ∧ (⟨n, s, g.node n s⟩ : Visit N S E X) = v →
          Inv v.node v.state (es ++ pre.flatMap (·.out.effects)) ∧
            v.out = g.node v.node v.state := by
        rintro ⟨rfl, rfl⟩
        simpa using hinv
      rcases runFrom_cases g k n s with ⟨x, -, hr⟩ | ⟨s', l, -, -, hr⟩ | ⟨s', -, -, hr⟩ |
        ⟨m, s', hst, hr⟩
      all_goals rw [hr] at h
      · exact hhead (eq_of_singleton h)
      · exact hhead (eq_of_singleton h)
      · exact hhead (eq_of_singleton h)
      · cases pre with
        | nil =>
            simp only [Run.cons_visits, List.nil_append, List.cons.injEq] at h
            exact hhead ⟨rfl, h.1⟩
        | cons w pre' =>
            simp only [Run.cons_visits, List.cons_append, List.cons.injEq] at h
            obtain ⟨rfl, htail⟩ := h
            have := ih m s' _ (hstep n s m s' es hinv hst) pre' v post htail
            simpa [List.append_assoc] using this

/-- **The invariant rule.**  What the entry satisfies and every step preserves holds
whenever control enters a node. -/
theorem run_inv {g : Graph N L S E X} {Inv : N → S → List E → Prop} {limit : Nat} {s : S}
    (hentry : Inv g.entry s []) (hstep : g.Preserved Inv) {pre post : List (Visit N S E X)}
    {v : Visit N S E X} (h : (g.run limit s).visits = pre ++ v :: post) :
    Inv v.node v.state (pre.flatMap (·.out.effects)) ∧ v.out = g.node v.node v.state := by
  simpa using runFrom_inv hstep limit g.entry s [] hentry pre v post h

/-! ### Neighbouring visits -/

theorem runFrom_head {g : Graph N L S E X} {k : Nat} {n : N} {s : S} {v : Visit N S E X}
    {post : List (Visit N S E X)} (h : (g.runFrom k n s).visits = v :: post) :
    v.node = n ∧ v.state = s := by
  cases k with
  | zero => simp [runFrom] at h
  | succ k =>
      rcases runFrom_cases g k n s with ⟨x, -, hr⟩ | ⟨s', l, -, -, hr⟩ | ⟨s', -, -, hr⟩ |
        ⟨m, s', -, hr⟩
      all_goals
        rw [hr] at h
        simp only [Run.cons_visits, List.cons.injEq] at h
        rw [← h.1]
        exact ⟨rfl, rfl⟩

theorem runFrom_adjacent {g : Graph N L S E X} :
    ∀ (k : Nat) (n : N) (s : S) (pre : List (Visit N S E X)) (u v : Visit N S E X)
      (post : List (Visit N S E X)), (g.runFrom k n s).visits = pre ++ u :: v :: post →
      g.Steps u.node u.state v.node v.state := by
  intro k
  induction k with
  | zero => intro n s pre u v post h; simp [runFrom] at h
  | succ k ih =>
      intro n s pre u v post h
      have hshort : ∀ w : Visit N S E X, [w] ≠ pre ++ u :: v :: post := by
        intro w hw
        have := congrArg List.length hw
        simp only [List.length_append, List.length_cons, List.length_nil] at this
        omega
      rcases runFrom_cases g k n s with ⟨x, -, hr⟩ | ⟨s', l, -, -, hr⟩ | ⟨s', -, -, hr⟩ |
        ⟨m, s', hst, hr⟩
      all_goals rw [hr] at h
      · exact absurd h (hshort _)
      · exact absurd h (hshort _)
      · exact absurd h (hshort _)
      · cases pre with
        | nil =>
            simp only [Run.cons_visits, List.nil_append, List.cons.injEq] at h
            obtain ⟨rfl, htail⟩ := h
            obtain ⟨hm, hs⟩ := runFrom_head htail
            rw [hm, hs]
            exact hst
        | cons w pre' =>
            simp only [Run.cons_visits, List.cons_append, List.cons.injEq] at h
            exact ih m s' pre' u v post h.2

/-- **A run enters each node after the first by a step from the one before it.** -/
theorem run_enters {g : Graph N L S E X} {limit : Nat} {s : S} {pre post : List (Visit N S E X)}
    {v : Visit N S E X} (h : (g.run limit s).visits = pre ++ v :: post) :
    (pre = [] ∧ v.node = g.entry) ∨
      ∃ pre' u, pre = pre' ++ [u] ∧ g.Steps u.node u.state v.node v.state := by
  unfold run at h
  rcases List.eq_nil_or_concat pre with rfl | ⟨pre', u, rfl⟩
  · exact Or.inl ⟨rfl, (runFrom_head (by simpa using h)).1⟩
  · refine Or.inr ⟨pre', u, by simp, ?_⟩
    exact runFrom_adjacent limit g.entry s pre' u v post (by simpa using h)

/-! ### Ranked graphs -/

/-- The rank falls along every step the graph can take. -/
def Ranked (g : Graph N L S E X) (rank : N → Nat) : Prop :=
  ∀ n s m s', g.Steps n s m s' → rank m < rank n

theorem runFrom_rank_le {g : Graph N L S E X} {rank : N → Nat} (hr : g.Ranked rank) :
    ∀ (k : Nat) (n : N) (s : S), ∀ m ∈ (g.runFrom k n s).nodes, rank m ≤ rank n := by
  intro k
  induction k with
  | zero => intro n s m hm; simp [runFrom, Run.nodes] at hm
  | succ k ih =>
      intro n s m hm
      rcases runFrom_cases g k n s with ⟨x, -, he⟩ | ⟨s', l, -, -, he⟩ | ⟨s', -, -, he⟩ |
        ⟨m', s', hst, he⟩
      · simp [he, Run.nodes] at hm; simp [hm]
      · simp [he, Run.nodes] at hm; simp [hm]
      · simp [he, Run.nodes] at hm; simp [hm]
      · rw [he, Run.cons_nodes, List.mem_cons] at hm
        rcases hm with rfl | hm
        · exact Nat.le_refl _
        · exact Nat.le_of_lt (Nat.lt_of_le_of_lt (ih m' s' m hm) (hr n s m' s' hst))

theorem runFrom_pairwise {g : Graph N L S E X} {rank : N → Nat} (hr : g.Ranked rank) :
    ∀ (k : Nat) (n : N) (s : S),
      (g.runFrom k n s).nodes.Pairwise (fun a b => rank b < rank a) := by
  intro k
  induction k with
  | zero => intro n s; simp [runFrom, Run.nodes]
  | succ k ih =>
      intro n s
      rcases runFrom_cases g k n s with ⟨x, -, he⟩ | ⟨s', l, -, -, he⟩ | ⟨s', -, -, he⟩ |
        ⟨m, s', hst, he⟩
      · simp [he, Run.nodes]
      · simp [he, Run.nodes]
      · simp [he, Run.nodes]
      · rw [he, Run.cons_nodes, List.pairwise_cons]
        refine ⟨fun b hb => ?_, ih m s'⟩
        exact Nat.lt_of_le_of_lt (runFrom_rank_le hr k m s' b hb) (hr n s m s' hst)

/-- **The nodes of a run of a ranked graph have strictly falling rank.** -/
theorem rank_pairwise {g : Graph N L S E X} {rank : N → Nat} (hr : g.Ranked rank) (limit : Nat)
    (s : S) : (g.run limit s).nodes.Pairwise (fun a b => rank b < rank a) :=
  runFrom_pairwise hr limit g.entry s

theorem runFrom_not_outOfSteps {g : Graph N L S E X} {rank : N → Nat} (hr : g.Ranked rank) :
    ∀ (k : Nat) (n : N) (s : S), rank n < k → (g.runFrom k n s).stop ≠ .outOfSteps := by
  intro k
  induction k with
  | zero => intro n s h; omega
  | succ k ih =>
      intro n s h
      rcases runFrom_cases g k n s with ⟨x, -, he⟩ | ⟨s', l, -, -, he⟩ | ⟨s', -, -, he⟩ |
        ⟨m, s', hst, he⟩
      · simp [he]
      · simp [he]
      · simp [he]
      · rw [he, Run.cons_stop]
        exact ih m s' (by have := hr n s m s' hst; omega)

/-- A step budget above the entry's rank is never used up. -/
theorem run_not_outOfSteps {g : Graph N L S E X} {rank : N → Nat} (hr : g.Ranked rank)
    {limit : Nat} (h : rank g.entry < limit) (s : S) : (g.run limit s).stop ≠ .outOfSteps :=
  runFrom_not_outOfSteps hr limit g.entry s h

/-! ### Where a run stops -/

/-- A run that has not used up its budget ends with the visit its stop is about. -/
theorem runFrom_last {g : Graph N L S E X} :
    ∀ (k : Nat) (n : N) (s : S), (g.runFrom k n s).stop ≠ .outOfSteps →
      ∃ pre v, (g.runFrom k n s).visits = pre ++ [v] ∧ v.out = g.node v.node v.state ∧
        ((∃ x, v.out.result = .error x ∧ (g.runFrom k n s).stop = .raised v.node x) ∨
         (∃ s' l, v.out.result = .ok s' ∧ (g.edge v.node).follow s' = .badLabel l ∧
            (g.runFrom k n s).stop = .badLabel v.node l) ∨
         (∃ s', v.out.result = .ok s' ∧ (g.edge v.node).follow s' = .done ∧
            (g.runFrom k n s).stop = .ended)) := by
  intro k
  induction k with
  | zero => intro n s h; simp [runFrom] at h
  | succ k ih =>
      intro n s h
      rcases runFrom_cases g k n s with ⟨x, hx, he⟩ | ⟨s', l, hs, hl, he⟩ | ⟨s', hs, hd, he⟩ |
        ⟨m, s', hst, he⟩
      · refine ⟨[], ⟨n, s, g.node n s⟩, by simp [he], rfl, Or.inl ⟨x, hx, by simp [he]⟩⟩
      · refine ⟨[], ⟨n, s, g.node n s⟩, by simp [he], rfl,
          Or.inr (Or.inl ⟨s', l, hs, hl, by simp [he]⟩)⟩
      · refine ⟨[], ⟨n, s, g.node n s⟩, by simp [he], rfl,
          Or.inr (Or.inr ⟨s', hs, hd, by simp [he]⟩)⟩
      · rw [he, Run.cons_stop] at h
        obtain ⟨pre, v, hvis, hout, hstop⟩ := ih m s' h
        refine ⟨⟨n, s, g.node n s⟩ :: pre, v, by simp [he, hvis], hout, ?_⟩
        simpa [he] using hstop

/-- **Every run within its budget ends with the visit its stop is about.** -/
theorem run_last {g : Graph N L S E X} {limit : Nat} {s : S}
    (h : (g.run limit s).stop ≠ .outOfSteps) :
    ∃ pre v, (g.run limit s).visits = pre ++ [v] ∧ v.out = g.node v.node v.state ∧
      ((∃ x, v.out.result = .error x ∧ (g.run limit s).stop = .raised v.node x) ∨
       (∃ s' l, v.out.result = .ok s' ∧ (g.edge v.node).follow s' = .badLabel l ∧
          (g.run limit s).stop = .badLabel v.node l) ∨
       (∃ s', v.out.result = .ok s' ∧ (g.edge v.node).follow s' = .done ∧
          (g.run limit s).stop = .ended)) :=
  runFrom_last limit g.entry s h

end Graph

end StateGraph
