import DistGalois.Machine
import Mathlib.Data.Fintype.Card
import Mathlib.Algebra.Order.BigOperators.Group.List
import Mathlib.Algebra.Order.Ring.Nat

/-!
# Graphs and shortest walks

The BC application runs on `hGraph<NodeData, void>`: global vertex ids
`0, …, n - 1`, each with its list of out-edge destinations in storage order.
Parallel edges and self-loops are allowed; an edge always lands on a vertex of
the graph, which `Graph.edge_lt` records once so no later proof re-derives it.

The phases compute *pull-style* distances: `current_length` of `v` is the
number of stored out-edges on a shortest walk from `v` to the current source.
`Reach` is that walk relation and `walkCount` counts such walks edge by edge,
which is how the engine counts shortest paths (parallel edges separately).
-/

namespace DistGalois.BcPull

/-! ## The unreached length -/

/-- `std::numeric_limits<uint32_t>::max() / 4`, the unreached-vertex length. -/
def infinity : Nat := (2 ^ 32 - 1) / 4

theorem infinity_eq : infinity = 1073741823 := rfl

/-! ## The graph -/

/-- Out-edge lists over global ids `0, …, adj.length - 1`. -/
structure Graph where
  adj : List (List Nat)
  edge_lt : ∀ l ∈ adj, ∀ w ∈ l, w < adj.length

namespace Graph

variable (G : Graph)

/-- `totalNodes`: the number of vertices. -/
def size : Nat := G.adj.length

/-- The destinations of the stored out-edges of `v`, in storage order. -/
def edges (v : Nat) : List Nat := G.adj.getD v []

/-- The number of stored edges. -/
def numEdges : Nat := (G.adj.map List.length).sum

/-- `allNodesWithEdgesRange()`: the vertices with at least one out-edge. -/
def nodesWithEdges : List Nat := (List.range G.size).filter fun v => !(G.edges v).isEmpty

variable {G}

theorem lt_size_of_mem_edges {v w : Nat} (h : w ∈ G.edges v) : w < G.size := by
  unfold edges at h
  rw [List.getD_eq_getElem?_getD] at h
  cases hv : G.adj[v]? with
  | none => simp [hv] at h
  | some l => simp only [hv, Option.getD_some] at h; exact G.edge_lt l (List.getElem?_mem hv) w h

theorem lt_size_of_edges_ne_nil {v : Nat} (h : G.edges v ≠ []) : v < G.size := by
  by_contra hv
  exact h (by simp [edges, List.getElem?_eq_none (Nat.le_of_not_lt hv)])

@[simp] theorem mem_nodesWithEdges {v : Nat} : v ∈ G.nodesWithEdges ↔ G.edges v ≠ [] := by
  simp only [nodesWithEdges, List.mem_filter, List.mem_range, Bool.not_eq_true',
    List.isEmpty_eq_false]
  exact ⟨fun h => h.2, fun h => ⟨lt_size_of_edges_ne_nil h, h⟩⟩

theorem nodup_nodesWithEdges : G.nodesWithEdges.Nodup := (List.nodup_range _).filter _

/-- Vertices without edges contribute nothing, so the out-degrees over
`allNodesWithEdgesRange()` add up to the edge count. -/
theorem sum_length_nodesWithEdges :
    (G.nodesWithEdges.map fun v => (G.edges v).length).sum = G.numEdges := by
  have hfilter : ∀ l : List Nat,
      ((l.filter fun v => !(G.edges v).isEmpty).map fun v => (G.edges v).length).sum =
        (l.map fun v => (G.edges v).length).sum := by
    intro l
    induction l with
    | nil => rfl
    | cons v l ih => by_cases h : G.edges v = [] <;> simp [List.filter_cons, h, ih]
  have hrange : (List.range G.size).map (fun v => (G.edges v).length) = G.adj.map List.length :=
    List.ext_getElem (by simp [size]) fun i _ h => by
      simp [edges, List.getElem?_eq_getElem (by simpa using h)]
  rw [nodesWithEdges, hfilter, hrange]
  rfl

theorem length_edges_le_numEdges (v : Nat) : (G.edges v).length ≤ G.numEdges := by
  by_cases h : G.edges v = []
  · simp [h]
  · rw [← sum_length_nodesWithEdges]
    exact List.le_sum_of_mem (List.mem_map_of_mem _ (mem_nodesWithEdges.mpr h))

/-- Every vertex of `allNodesWithEdgesRange()` has an edge of its own. -/
theorem length_nodesWithEdges_le : G.nodesWithEdges.length ≤ G.numEdges :=
  calc G.nodesWithEdges.length = (G.nodesWithEdges.map fun _ => 1).sum := by simp
    _ ≤ (G.nodesWithEdges.map fun v => (G.edges v).length).sum :=
        List.sum_le_sum fun v hv => List.length_pos.mpr (mem_nodesWithEdges.mp hv)
    _ = G.numEdges := sum_length_nodesWithEdges

end Graph

/-! ## Walks to the source -/

/-- `Reach G t v k`: a walk of `k` stored out-edges leads from `v` to `t`. -/
inductive Reach (G : Graph) (t : Nat) : Nat → Nat → Prop
  | refl : Reach G t t 0
  | step {v w k : Nat} : w ∈ G.edges v → Reach G t w k → Reach G t v (k + 1)

/-- `v` is `d` hops from `t`: a walk of length `d` and none shorter. -/
def IsDist (G : Graph) (t v d : Nat) : Prop := Reach G t v d ∧ ∀ k < d, ¬ Reach G t v k

/-- No walk at all leads from `v` to `t`. -/
def Unreachable (G : Graph) (t v : Nat) : Prop := ∀ k, ¬ Reach G t v k

variable {G : Graph} {t : Nat}

theorem reach_zero_iff {v : Nat} : Reach G t v 0 ↔ v = t := by
  constructor
  · rintro ⟨⟩; rfl
  · rintro rfl; exact .refl

theorem isDist_zero_iff {v : Nat} : IsDist G t v 0 ↔ v = t := by
  simp [IsDist, reach_zero_iff]

theorem IsDist.unique {v d d' : Nat} (h : IsDist G t v d) (h' : IsDist G t v d') : d = d' := by
  rcases Nat.lt_trichotomy d d' with hlt | heq | hgt
  · exact absurd h.1 (h'.2 d hlt)
  · exact heq
  · exact absurd h'.1 (h.2 d' hgt)

/-- One hop closer: a vertex `d + 1` away has an out-neighbour `d` away. -/
theorem IsDist.pred {v d : Nat} (h : IsDist G t v (d + 1)) :
    ∃ w ∈ G.edges v, IsDist G t w d := by
  obtain ⟨hr, hmin⟩ := h
  cases hr with
  | step hw hr =>
    exact ⟨_, hw, hr, fun k hk hk' => hmin (k + 1) (by omega) (.step hw hk')⟩

/-- Distances along an edge drop by at most one. -/
theorem IsDist.le_succ_of_mem {v w dv dw : Nat} (hv : IsDist G t v dv) (hw : IsDist G t w dw)
    (he : w ∈ G.edges v) : dv ≤ dw + 1 := by
  by_contra hlt
  exact hv.2 (dw + 1) (by omega) (.step he hw.1)

theorem Reach.isDist_le {v k : Nat} (h : Reach G t v k) {d : Nat} (hd : IsDist G t v d) :
    d ≤ k := by
  by_contra hlt
  exact hd.2 k (by omega) h

/-- A walk bounds the hop distance: the least walk length is a distance. -/
theorem Reach.exists_isDist {v k : Nat} (h : Reach G t v k) : ∃ d ≤ k, IsDist G t v d := by
  classical
  have hex : ∃ j, Reach G t v j := ⟨k, h⟩
  refine ⟨Nat.find hex, Nat.find_min' hex h, Nat.find_spec hex, fun j hj => ?_⟩
  exact Nat.find_min hex hj

/-- A walk over the edges of a subgraph is a walk of the graph. -/
theorem Reach.mono {G' : Graph} (hsub : ∀ u, ∀ w ∈ G'.edges u, w ∈ G.edges u) {v k : Nat}
    (h : Reach G' t v k) : Reach G t v k := by
  induction h with
  | refl => exact .refl
  | step hw _ ih => exact .step (hsub _ _ hw) ih

theorem unreachable_of_not_isDist {v : Nat} (h : ∀ d, ¬ IsDist G t v d) : Unreachable G t v := by
  intro k hk
  obtain ⟨d, -, hd⟩ := hk.exists_isDist
  exact h d hd

/-- Every level below a distance is inhabited by a vertex of the graph. -/
theorem IsDist.level {v d : Nat} (hv : v < G.size) (h : IsDist G t v d) :
    ∀ j ≤ d, ∃ u < G.size, IsDist G t u j := by
  induction d generalizing v with
  | zero => intro j hj; exact ⟨v, hv, by simpa [show j = 0 by omega] using h⟩
  | succ d ih =>
    intro j hj
    rcases Nat.lt_or_ge j (d + 1) with hlt | hge
    · obtain ⟨w, hw, hwd⟩ := h.pred
      exact ih (Graph.lt_size_of_mem_edges hw) hwd j (by omega)
    · exact ⟨v, hv, by rwa [show j = d + 1 by omega]⟩

/-- Shortest walks visit distinct vertices, so a distance is below the vertex count. -/
theorem IsDist.lt_size {v d : Nat} (hv : v < G.size) (h : IsDist G t v d) : d < G.size := by
  have hlev : ∀ j : Fin (d + 1), ∃ u : Fin G.size, IsDist G t u j := fun j => by
    obtain ⟨u, hu, hd⟩ := h.level hv j (by omega)
    exact ⟨⟨u, hu⟩, hd⟩
  choose f hf using hlev
  have hinj : Function.Injective f := fun i j hij => by
    have := (hf i).unique (hij ▸ hf j)
    exact Fin.ext this
  simpa using Fintype.card_le_of_injective f hinj

/-- The eccentricity of `t`: every distance to `t` is at most `D`, and some vertex is
`D` hops away unless `D = 0`. -/
theorem exists_maxDist : ∃ D, (∀ v < G.size, ∀ d, IsDist G t v d → d ≤ D) ∧
    (D = 0 ∨ ∃ v < G.size, IsDist G t v D) := by
  classical
  have hex : ∃ D, ∀ v < G.size, ∀ d, IsDist G t v d → d ≤ D :=
    ⟨G.size, fun v hv d hd => (hd.lt_size hv).le⟩
  refine ⟨Nat.find hex, Nat.find_spec hex, ?_⟩
  rcases Nat.eq_zero_or_pos (Nat.find hex) with h | h
  · exact .inl h
  · have hmin := Nat.find_min hex (Nat.sub_lt h Nat.one_pos)
    push_neg at hmin
    obtain ⟨v, hv, d, hd, hlt⟩ := hmin
    have hle := Nat.find_spec hex v hv d hd
    exact .inr ⟨v, hv, by rwa [show d = Nat.find hex by omega] at hd⟩

/-! ## Counting shortest walks -/

/-- The number of walks of exactly `k` stored out-edges from `v` to `t`;
parallel edges give distinct walks. -/
def walkCount (G : Graph) (t : Nat) : Nat → Nat → Nat
  | v, 0 => if v = t then 1 else 0
  | v, k + 1 => ((G.edges v).map fun w => walkCount G t w k).sum

theorem walkCount_pos_iff {v k : Nat} : 0 < walkCount G t v k ↔ Reach G t v k := by
  induction k generalizing v with
  | zero => by_cases h : v = t <;> simp [walkCount, h, reach_zero_iff]
  | succ k ih =>
    rw [walkCount, Nat.pos_iff_ne_zero, Ne, List.sum_eq_zero_iff]
    simp only [List.mem_map, forall_exists_index, and_imp, forall_apply_eq_imp_iff₂, not_forall]
    constructor
    · rintro ⟨w, hw, hpos⟩
      exact .step hw (ih.mp (Nat.pos_of_ne_zero hpos))
    · intro h
      cases h with
      | step hw hr => exact ⟨_, hw, Nat.pos_iff_ne_zero.mp (ih.mpr hr)⟩

theorem walkCount_eq_zero_of_not_reach {v k : Nat} (h : ¬ Reach G t v k) : walkCount G t v k = 0 :=
  Nat.eq_zero_of_not_pos (mt walkCount_pos_iff.mp h)

end DistGalois.BcPull
