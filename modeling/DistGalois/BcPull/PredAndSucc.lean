import DistGalois.BcPull.SSSP
import Mathlib.Algebra.Order.BigOperators.Group.Finset

/-!
# Predecessor and successor counts on the shortest-path DAG

`PredAndSucc::operator()` walks the out-edges of every reached vertex and,
for each edge one hop closer to the source, adds one to the vertex's
`num_predecessors` and one to the destination's `num_successors`.  Lengths are
only read, so every count is a function of the lengths alone: `go_data` gives
the whole record after the superstep, for any processing order.
-/

namespace DistGalois.BcPull

/-- `(v, w)` lies on the shortest-path DAG of the lengths `len`: `v` is reached and
`len w + 1 == len v` in 32-bit arithmetic. -/
def IsDagEdge (len : Nat → Nat) (v w : Nat) : Bool :=
  len v != infinity && u32 (len w + 1) == len v

/-- The current lengths of a state. -/
def State.lengths (s : State) : Nat → Nat := fun v => (s.data v).currentLength

namespace Graph

variable (G : Graph) (len : Nat → Nat)

/-- The number of DAG edges out of `v`. -/
def predCount (v : Nat) : Nat := (G.edges v).countP (IsDagEdge len v)

/-- The number of DAG edges into `w`, summed over the vertices of `order`. -/
def succCountIn (order : List Nat) (w : Nat) : Nat :=
  (order.map fun v => (G.edges v).countP fun x => x == w && IsDagEdge len v x).sum

end Graph

namespace PredAndSucc

/-- One iteration of the edge loop of `PredAndSucc::operator()` on `(src, dst)`. -/
def edge (src : Nat) (s : State) (dst : Nat) : State :=
  if u32 ((s.data dst).currentLength + 1) = (s.data src).currentLength then
    (s.modify src fun d => { d with numPredecessors := u32 (d.numPredecessors + 1) }).modify dst
      fun d => { d with numSuccessors := u32 (d.numSuccessors + 1) }
  else s

/-- `PredAndSucc::operator()` on `src`. -/
def operator (G : Graph) (s : State) (src : Nat) : State :=
  if (s.data src).currentLength ≠ infinity then (G.edges src).foldl (edge src) s else s

/-- One superstep over the vertices in processing order `order`. -/
def superstep (G : Graph) (order : List Nat) (s : State) : State :=
  order.foldl (operator G) s

/-- `PredAndSucc::go`: one superstep over `allNodesWithEdgesRange()`. -/
def go (G : Graph) (s : State) : State := superstep G G.nodesWithEdges s

/-- The record `d` with `a` added to its predecessor count and `b` to its successor
count, in 32-bit arithmetic. -/
def bump (d : NodeData) (a b : Nat) : NodeData :=
  { d with numPredecessors := u32 (d.numPredecessors + a),
           numSuccessors := u32 (d.numSuccessors + b) }

/-- Both counters hold `uint32_t` values. -/
def CountsFit (d : NodeData) : Prop := d.numPredecessors < 2 ^ 32 ∧ d.numSuccessors < 2 ^ 32

theorem bump_bump (d : NodeData) (a b a' b' : Nat) :
    bump (bump d a b) a' b' = bump d (a + a') (b + b') := by
  simp [bump, u32_add_u32, Nat.add_assoc]

theorem bump_zero {d : NodeData} (h : CountsFit d) : bump d 0 0 = d := by
  simp [bump, u32_of_lt h.1, u32_of_lt h.2]

/-- Only the counts modulo `2 ^ 32` matter. -/
theorem bump_congr {d : NodeData} {a a' b b' : Nat} (ha : u32 a = u32 a') (hb : u32 b = u32 b') :
    bump d a b = bump d a' b' := by
  simp only [bump, u32_add_congr ha, u32_add_congr hb]

theorem countsFit_bump (d : NodeData) (a b : Nat) : CountsFit (bump d a b) :=
  ⟨u32_lt _, u32_lt _⟩

@[simp] theorem bump_currentLength (d : NodeData) (a b : Nat) :
    (bump d a b).currentLength = d.currentLength := rfl

variable {G : Graph} {len : Nat → Nat}

/-- One edge: both counters move together, and only when `dst` is one hop closer. -/
theorem edge_data {src dst : Nat} {s : State} (u : Nat) (hu : CountsFit (s.data u)) :
    (edge src s dst).data u = bump (s.data u)
      (if u32 (s.lengths dst + 1) = s.lengths src ∧ u = src then 1 else 0)
      (if u32 (s.lengths dst + 1) = s.lengths src ∧ u = dst then 1 else 0) := by
  unfold edge State.lengths
  by_cases hc : u32 ((s.data dst).currentLength + 1) = (s.data src).currentLength
  · by_cases h₁ : u = src <;> by_cases h₂ : u = dst <;> subst_vars <;>
      simp [hc, State.modify_data, bump, u32_of_lt hu.1, u32_of_lt hu.2, *]
  · simp [hc, bump_zero hu]

theorem edge_currentLength {src dst : Nat} {s : State} (u : Nat) :
    ((edge src s dst).data u).currentLength = (s.data u).currentLength := by
  unfold edge
  split
  · simp only [State.modify_data]; split_ifs <;> simp_all
  · rfl

theorem edge_lengths {src dst : Nat} {s : State} : (edge src s dst).lengths = s.lengths :=
  funext edge_currentLength

@[simp] theorem edge_asserts {src dst : Nat} {s : State} : (edge src s dst).asserts = s.asserts := by
  unfold edge; split <;> rfl

/-- The edge loop of `src`: the predecessor count of `src` grows by the number of
edges one hop closer, the successor count of `u` by the number of those landing on `u`. -/
theorem edges_data {src : Nat} (l : List Nat) {s : State} (u : Nat) (hu : CountsFit (s.data u)) :
    (l.foldl (edge src) s).data u = bump (s.data u)
      (if u = src then l.countP (fun x => u32 (s.lengths x + 1) == s.lengths src) else 0)
      (l.countP fun x => x == u && u32 (s.lengths x + 1) == s.lengths src) := by
  induction l generalizing s with
  | nil => simp [bump_zero hu]
  | cons x l ih =>
    have hfit : CountsFit ((edge src s x).data u) := by
      rw [edge_data u hu]; exact countsFit_bump _ _ _
    rw [List.foldl_cons, ih hfit, edge_lengths, edge_data u hu, bump_bump]
    congr 1 <;> rw [List.countP_cons]
    · by_cases h₁ : u = src
      · subst h₁
        by_cases hc : u32 (s.lengths x + 1) = s.lengths u <;> simp [hc]; omega
      · simp [h₁]
    · by_cases h₂ : u = x
      · subst h₂
        by_cases hc : u32 (s.lengths u + 1) = s.lengths src <;> simp [hc]; omega
      · simp [h₂, Ne.symm h₂]

theorem operator_lengths {v : Nat} {s : State} : (operator G s v).lengths = s.lengths := by
  unfold operator
  split
  · exact List.foldlRecOn (motive := fun q => q.lengths = s.lengths) _ _ s rfl
      fun q hq _ _ => edge_lengths.trans hq
  · rfl

theorem operator_asserts {v : Nat} {s : State} : (operator G s v).asserts = s.asserts := by
  unfold operator
  split
  · exact List.foldlRecOn (motive := fun q => q.asserts = s.asserts) _ _ s rfl
      fun q hq _ _ => edge_asserts.trans hq
  · rfl

/-- `PredAndSucc::operator()` on `v`, in terms of the lengths it reads. -/
theorem operator_data {v : Nat} {s : State} (u : Nat) (hu : CountsFit (s.data u)) :
    (operator G s v).data u = bump (s.data u)
      (if u = v then G.predCount s.lengths v else 0)
      ((G.edges v).countP fun x => x == u && IsDagEdge s.lengths v x) := by
  unfold operator Graph.predCount IsDagEdge
  by_cases hv : (s.data v).currentLength = infinity
  · simp [hv, State.lengths, bump_zero hu]
  · have hv' : ((s.data v).currentLength != infinity) = true := by simpa using hv
    simp only [hv, ne_eq, not_false_eq_true, if_true, edges_data _ u hu]
    simp [State.lengths, hv']

theorem superstep_lengths (order : List Nat) {s : State} :
    (superstep G order s).lengths = s.lengths :=
  List.foldlRecOn (motive := fun q => q.lengths = s.lengths) order _ s rfl
    fun _ hq _ _ => operator_lengths.trans hq

theorem superstep_asserts (order : List Nat) {s : State} :
    (superstep G order s).asserts = s.asserts :=
  List.foldlRecOn (motive := fun q => q.asserts = s.asserts) order _ s rfl
    fun _ hq _ _ => operator_asserts.trans hq

/-- A superstep over `order`: a vertex's predecessor count grows by its DAG
out-degree once per occurrence in `order`, its successor count by the DAG edges
into it from the vertices of `order`. -/
theorem superstep_data (order : List Nat) {s : State} (u : Nat) (hu : CountsFit (s.data u)) :
    (superstep G order s).data u = bump (s.data u)
      (order.count u * G.predCount s.lengths u) (G.succCountIn s.lengths order u) := by
  induction order generalizing s with
  | nil => simp [superstep, Graph.succCountIn, bump_zero hu]
  | cons v order ih =>
    have hfit : CountsFit ((operator G s v).data u) := by
      rw [operator_data u hu]; exact countsFit_bump _ _ _
    simp only [superstep, List.foldl_cons] at ih ⊢
    rw [ih hfit, operator_lengths, operator_data u hu, bump_bump]
    congr 1
    by_cases h : u = v
    · subst h; simp [List.count_cons, Nat.add_mul, Nat.add_comm]
    · simp [List.count_cons, h, Ne.symm h]

/-- `PredAndSucc::go`: every vertex gains its DAG out-degree as predecessors and
its DAG in-degree as successors. -/
theorem go_data {s : State} (u : Nat) (hu : CountsFit (s.data u)) :
    (go G s).data u = bump (s.data u) (G.predCount s.lengths u)
      (G.succCountIn s.lengths G.nodesWithEdges u) := by
  rw [go, superstep_data _ u hu]
  congr 1
  by_cases h : G.edges u = []
  · simp [Graph.predCount, h]
  · rw [List.count_eq_one_of_mem G.nodup_nodesWithEdges (Graph.mem_nodesWithEdges.mpr h),
      Nat.one_mul]

theorem go_lengths {s : State} : (go G s).lengths = s.lengths := superstep_lengths _

theorem go_asserts {s : State} : (go G s).asserts = s.asserts := superstep_asserts _

end PredAndSucc

/-! ## The counts in terms of the shortest-path DAG -/

namespace Graph

variable (G : Graph) (len : Nat → Nat)

/-- The stored out-edges `(v, t)` of the shortest-path DAG of `len`: `v` reached and
`t` one hop closer to the source. -/
def dagOut (v : Nat) : Nat := (G.edges v).countP fun t => len v ≠ infinity ∧ len t + 1 = len v

/-- The stored edges `(s, t)` of the shortest-path DAG into `t`. -/
def dagIn (t : Nat) : Nat :=
  ∑ s in Finset.range G.size, (G.edges s).countP fun x => x = t ∧ len s ≠ infinity ∧ len t + 1 = len s

/-- The number of edges of the shortest-path DAG. -/
def dagEdges : Nat := ∑ v in Finset.range G.size, G.dagOut len v

variable {G len}

/-- A sum over `allNodesWithEdgesRange()` of a quantity that vanishes on vertices
without edges is the sum over all vertices. -/
theorem sum_nodesWithEdges (f : Nat → Nat) (hf : ∀ v, G.edges v = [] → f v = 0) :
    (G.nodesWithEdges.map f).sum = ∑ v in Finset.range G.size, f v := by
  show _ = ((List.range G.size).map f).sum
  unfold nodesWithEdges
  induction List.range G.size with
  | nil => rfl
  | cons v l ih => by_cases h : G.edges v = [] <;> simp [List.filter_cons, h, hf, ih]

/-- Each edge lands on exactly one vertex, so counting the edges of `l` into each
vertex in turn counts each edge once. -/
theorem sum_countP_eq (l : List Nat) (hl : ∀ x ∈ l, x < G.size) (q : Nat → Prop) [DecidablePred q] :
    ∑ t in Finset.range G.size, l.countP (fun x => x = t ∧ q x) = l.countP (fun x => q x) := by
  induction l with
  | nil => simp
  | cons x l ih =>
    have hx : x < G.size := hl x (List.mem_cons_self _ _)
    simp only [List.countP_cons, Finset.sum_add_distrib, ih fun y hy => hl y (List.mem_cons_of_mem _ hy)]
    by_cases hq : q x <;> simp [hq, Finset.sum_ite_eq, hx]

theorem sum_dagIn : ∑ t in Finset.range G.size, G.dagIn len t = G.dagEdges len := by
  unfold dagIn dagEdges dagOut
  rw [Finset.sum_comm]
  refine Finset.sum_congr rfl fun v _ => ?_
  have hpoint : ∀ t, (G.edges v).countP (fun x => x = t ∧ len v ≠ infinity ∧ len t + 1 = len v) =
      (G.edges v).countP (fun x => x = t ∧ (len v ≠ infinity ∧ len x + 1 = len v)) := fun t =>
    List.countP_congr fun x _ => by simp only [decide_eq_true_eq]; constructor <;> rintro ⟨rfl, h⟩ <;> exact ⟨rfl, h⟩
  simp only [hpoint]
  exact sum_countP_eq _ (fun x hx => lt_size_of_mem_edges hx) _

/-- With lengths at most `infinity` the 32-bit sum `len t + 1` cannot wrap, so the
edges `PredAndSucc` counts out of `v` are its DAG out-edges. -/
theorem predCount_eq_dagOut (hlen : ∀ w < G.size, len w ≤ infinity) (v : Nat) :
    G.predCount len v = G.dagOut len v :=
  List.countP_congr fun t ht => by
    have := hlen t (lt_size_of_mem_edges ht)
    rw [IsDagEdge, u32_of_lt (by rw [infinity_eq] at this; omega)]
    simp

/-- ... and the edges it counts into `t` are the DAG edges into `t`. -/
theorem succCountIn_eq_dagIn (hlen : ∀ w < G.size, len w ≤ infinity) (t : Nat) :
    G.succCountIn len G.nodesWithEdges t = G.dagIn len t := by
  rw [succCountIn, sum_nodesWithEdges _ fun v h => by simp [h]]
  refine Finset.sum_congr rfl fun v _ => List.countP_congr fun x hx => ?_
  have := hlen x (lt_size_of_mem_edges hx)
  rw [IsDagEdge, u32_of_lt (by rw [infinity_eq] at this; omega)]
  simp only [Bool.and_eq_true, beq_iff_eq, bne_iff_ne, ne_eq, decide_eq_true_eq]
  exact and_congr_right fun h => h ▸ Iff.rfl

theorem dagOut_le_length (v : Nat) : G.dagOut len v ≤ (G.edges v).length := List.countP_le_length _

theorem dagEdges_le_numEdges : G.dagEdges len ≤ G.numEdges := by
  rw [← sum_length_nodesWithEdges, sum_nodesWithEdges _ fun v h => by simp [h]]
  exact Finset.sum_le_sum fun v _ => dagOut_le_length v

end Graph

namespace PredAndSucc

variable {G : Graph}

/-- Every processing order that visits each vertex with edges once gives the same
counts as `go`. -/
theorem superstep_perm_data {order : List Nat} (horder : order.Perm G.nodesWithEdges) {s : State}
    (u : Nat) (hu : CountsFit (s.data u)) : (superstep G order s).data u = (go G s).data u := by
  rw [superstep_data _ u hu, go, superstep_data _ u hu, horder.count_eq, Graph.succCountIn,
    Graph.succCountIn, (horder.map _).sum_eq]

/-- `PredAndSucc`'s superstep, in any processing order, from zero counters and lengths
at most `infinity`, where no vertex has `2 ^ 32` or more DAG edges out of it or into
it: every vertex ends with its DAG out-degree as predecessors and its DAG in-degree as
successors, both add up to the number of DAG edges, and a self-loop is never a DAG
edge. -/
theorem superstep_dagCounts {order : List Nat} (horder : order.Perm G.nodesWithEdges) (s : State)
    (hlen : ∀ v < G.size, s.lengths v ≤ infinity)
    (hdeg : ∀ v < G.size, G.dagOut s.lengths v < 2 ^ 32 ∧ G.dagIn s.lengths v < 2 ^ 32)
    (hzero : ∀ v < G.size, (s.data v).numPredecessors = 0 ∧ (s.data v).numSuccessors = 0) :
    (∀ v < G.size, ((superstep G order s).data v).numPredecessors = G.dagOut s.lengths v ∧
        ((superstep G order s).data v).numSuccessors = G.dagIn s.lengths v) ∧
      ∑ v in Finset.range G.size, ((superstep G order s).data v).numPredecessors =
        G.dagEdges s.lengths ∧
      ∑ v in Finset.range G.size, ((superstep G order s).data v).numSuccessors =
        G.dagEdges s.lengths ∧
      ∀ v < G.size, IsDagEdge s.lengths v v = false := by
  have hcounts : ∀ v < G.size, ((superstep G order s).data v).numPredecessors = G.dagOut s.lengths v ∧
      ((superstep G order s).data v).numSuccessors = G.dagIn s.lengths v := fun v hv => by
    have hfit : CountsFit (s.data v) := by simp [CountsFit, hzero v hv]
    rw [superstep_perm_data horder v hfit, go_data v hfit, Graph.predCount_eq_dagOut hlen,
      Graph.succCountIn_eq_dagIn hlen]
    simp only [bump, (hzero v hv).1, (hzero v hv).2, Nat.zero_add]
    exact ⟨u32_of_lt (hdeg v hv).1, u32_of_lt (hdeg v hv).2⟩
  refine ⟨hcounts, ?_, ?_, fun v hv => ?_⟩
  · exact Finset.sum_congr rfl fun v hv => (hcounts v (Finset.mem_range.mp hv)).1
  · rw [← Graph.sum_dagIn]
    exact Finset.sum_congr rfl fun v hv => (hcounts v (Finset.mem_range.mp hv)).2
  · have := hlen v hv
    rw [IsDagEdge, u32_of_lt (by rw [infinity_eq] at this; omega)]
    simp

/-- Parallel edges and a self-loop, `1 → {0, 0}` and `2 → {1, 0, 2}`, with the lengths
`0, 1, 1` to the source `0`: the three DAG edges are all counted on both sides. -/
theorem superstep_dagCounts_loops :
    let G : Graph := ⟨[[], [0, 0], [1, 0, 2]], by decide⟩
    let s : State := ⟨fun v => { NodeData.zero with currentLength := [0, 1, 1].getD v 0 }, true⟩
    ∑ v in Finset.range G.size, ((superstep G G.nodesWithEdges s).data v).numSuccessors =
      G.dagEdges s.lengths ∧ G.dagEdges s.lengths = 3 :=
  ⟨(superstep_dagCounts (List.Perm.refl _) _ (by decide) (by decide) (by decide)).2.2.1, by decide⟩

end PredAndSucc

/-- Vertex `1` with `2 ^ 32` parallel edges to `0`, and the edge `2 → 1`.  Every proof
about it rewrites with `parallelEdges_edges_one` and never unfolds the replicated list. -/
def parallelEdges : Graph :=
  ⟨[[], List.replicate (2 ^ 32) 0, [1]], by
    intro l hl w hw
    rw [List.mem_cons, List.mem_cons, List.mem_singleton] at hl
    rcases hl with rfl | rfl | rfl
    · exact absurd hw (List.not_mem_nil w)
    · rw [(List.mem_replicate.mp hw).2]; decide
    · rw [List.mem_singleton.mp hw]; decide⟩

theorem parallelEdges_edges_one : parallelEdges.edges 1 = List.replicate (2 ^ 32) 0 := rfl

theorem parallelEdges_nodesWithEdges : parallelEdges.nodesWithEdges = [1, 2] := rfl

/-- With the lengths `0, 1, 2` and zero counters, the `2 ^ 32` DAG edges out of `1`
leave its `uint32_t` predecessor count at `0`. -/
theorem numPredecessors_wraps_parallelEdges :
    let s : State := ⟨fun v => { NodeData.zero with currentLength := v }, true⟩
    ((PredAndSucc.go parallelEdges s).data 1).numPredecessors = 0 ∧
      parallelEdges.dagOut s.lengths 1 = 2 ^ 32 := by
  intro s
  rw [PredAndSucc.go_data 1 ⟨by decide, by decide⟩, PredAndSucc.bump, Graph.predCount,
    Graph.dagOut, parallelEdges_edges_one, List.countP_replicate, List.countP_replicate]
  decide

/-! ### The pipeline on `parallelEdges` from zeroed records, source `0`

`SSSP::go` takes two supersteps: the first copy of `1 → 0` lowers `1`, the other
`2 ^ 32 - 1` cannot, and `2` follows.  `PredAndSucc::go` then counts `2 ^ 32`
predecessors for `1` and `2 ^ 32` successors for `0`, both stored as `0`. -/

/-- The records after `InitializeIteration::go` for the source `0`. -/
def parallelEdgesReset : State := InitializeIteration.go parallelEdges 0 State.zero

/-- The records after `SSSP::go`. -/
def parallelEdgesLengths : State := (SSSP.edge 2 (SSSP.edge 1 (parallelEdgesReset, 0) 0) 1).1

/-- The records after `PredAndSucc::go`, with the counts as stored. -/
def parallelEdgesCounts : State :=
  ⟨fun v => PredAndSucc.bump (parallelEdgesLengths.data v) ([0, 0, 1].getD v 0) ([0, 1, 0].getD v 0),
    parallelEdgesLengths.asserts⟩

theorem sssp_body_parallelEdges_zero :
    SSSP.body parallelEdges (fun _ => [1, 2]) 0 parallelEdgesReset =
      SSSP.edge 2 (SSSP.edge 1 (parallelEdgesReset, 0) 0) 1 := by
  rw [SSSP.body, SSSP.superstep, List.foldl_cons, List.foldl_cons, List.foldl_nil, SSSP.operator,
    SSSP.operator, parallelEdges_edges_one, show 2 ^ 32 = (2 ^ 32 - 1) + 1 from rfl,
    List.replicate_succ, List.foldl_cons, SSSP.foldl_replicate_of_stable _ (by decide)]
  rfl

theorem sssp_body_parallelEdges_one :
    SSSP.body parallelEdges (fun _ => [1, 2]) 1 parallelEdgesLengths = (parallelEdgesLengths, 0) := by
  rw [SSSP.body, SSSP.superstep, List.foldl_cons, List.foldl_cons, List.foldl_nil, SSSP.operator,
    SSSP.operator, parallelEdges_edges_one, SSSP.foldl_replicate_of_stable _ (by decide)]
  exact SSSP.edges_stable _ _ (by decide)

theorem sssp_go_parallelEdges (fuel : Nat) (h : 1 < fuel) :
    SSSP.go parallelEdges (fun _ => parallelEdges.nodesWithEdges) fuel parallelEdgesReset =
      some (parallelEdgesLengths, 2) := by
  obtain ⟨f, rfl⟩ : ∃ f, fuel = f + 2 := ⟨fuel - 2, by omega⟩
  have hwork : u32 (SSSP.edge 2 (SSSP.edge 1 (parallelEdgesReset, 0) 0) 1).2 = 2 := by decide
  have hone : SSSP.body parallelEdges (fun _ => [1, 2]) (0 + 1)
      (SSSP.edge 2 (SSSP.edge 1 (parallelEdgesReset, 0) 0) 1).1 = (parallelEdgesLengths, 0) :=
    sssp_body_parallelEdges_one
  rw [parallelEdges_nodesWithEdges, SSSP.go, doWhile, sssp_body_parallelEdges_zero, hwork,
    if_neg (by decide : ¬ (2 : Nat) = 0), doWhile, hone]
  rfl

theorem predAndSucc_go_parallelEdges :
    PredAndSucc.go parallelEdges parallelEdgesLengths = parallelEdgesCounts := by
  have hwrap : ∀ (c : Prop) (inst : Decidable c), u32 (@ite _ c inst (2 ^ 32) 0) = u32 0 :=
    fun c _ => by split <;> rfl
  have hpred : ∀ v, u32 (parallelEdges.predCount parallelEdgesLengths.lengths v) =
      u32 ([0, 0, 1].getD v 0)
    | 0 => rfl
    | 1 => by rw [Graph.predCount, parallelEdges_edges_one, List.countP_replicate]; decide
    | 2 => by decide
    | _ + 3 => rfl
  have hsucc : ∀ w, u32 (parallelEdges.succCountIn parallelEdgesLengths.lengths
      parallelEdges.nodesWithEdges w) = u32 ([0, 1, 0].getD w 0) := fun w => by
    rw [Graph.succCountIn, parallelEdges_nodesWithEdges, List.map_cons, List.map_cons, List.map_nil,
      List.sum_cons, List.sum_cons, List.sum_nil, parallelEdges_edges_one, List.countP_replicate,
      Nat.add_comm, u32_add_congr (hwrap _ _)]
    match w with
    | 0 | 1 | 2 => decide
    | _ + 3 => rfl
  refine State.ext (funext fun v => ?_) PredAndSucc.go_asserts
  have hfit : PredAndSucc.CountsFit (parallelEdgesLengths.data v) := by
    match v with
    | 0 | 1 | 2 | _ + 3 => exact ⟨Nat.two_pow_pos 32, Nat.two_pow_pos 32⟩
  rw [PredAndSucc.go_data v hfit]
  exact PredAndSucc.bump_congr (hpred v) (hsucc v)

end DistGalois.BcPull
