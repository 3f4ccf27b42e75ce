import DistGalois.BcPull.Driver
import DistGalois.BcPull.ShortestPathCounts

/-!
# The assertions of `BC::go`

A debug build checks four things: `InitializeIteration` finds every predecessor
and successor count at `0` (lines 216-217), `NumShortestPathsChanges` never sees
the token in its last branch (line 510), and a vertex that pushes its dependency
in the δ phase has no successors left (line 845).  The model records all four in
the `asserts` bit.

None of them fails on a graph with fewer than `2 ^ 32` edges, whatever the
sources: every source leaves the predecessor counts and the σ buffers at `0` for
the next, and the δ token is only ever held where `DependencyPropChanges` has just
seen `num_successors == 0`, the stale `trim2` notwithstanding.

Main results:

* `iteration_clean` — one source keeps `Clean`, and its loops stop within
  `G.size + 1` rounds;
* `loop_asserts` — `BC::go`'s loop over any sources ends with no failed assertion.
-/

namespace DistGalois.BcPull

/-- Between two sources: no failed assertion so far, and the predecessor counts and
the σ buffers clear on every vertex. -/
def Clean (G : Graph) (s : State) : Prop :=
  s.asserts = true ∧ ∀ v < G.size,
    (s.data v).numPredecessors = 0 ∧ (s.data v).trim = 0 ∧ (s.data v).toAdd = 0

namespace BC

theorem operator_fields (d : NodeData) :
    (operator d).numPredecessors = d.numPredecessors ∧ (operator d).trim = d.trim ∧
      (operator d).toAdd = d.toAdd := by
  unfold operator; split <;> exact ⟨rfl, rfl, rfl⟩

theorem iteration_eq {G : Graph} {sched : Nat → List Nat} {fuel src : Nat} {s s₂ s₃ s₄ : State}
    {k₂ k₃ k₄ : Nat}
    (h₂ : SSSP.go G sched fuel (InitializeIteration.go G src s) = some (s₂, k₂))
    (h₃ : NumShortestPaths.go G fuel (PredAndSucc.go G s₂) = some (s₃, k₃))
    (h₄ : DependencyPropogation.go G src fuel s₃ = some (s₄, k₄)) :
    iteration G sched fuel src s = some (doAll G (fun _ => operator) s₄) := by
  simp [iteration, h₂, h₃, h₄]

end BC

/-! ## The σ phase hands over a clean state -/

section Sigma

variable {G : Graph} {t : Nat} {P : State}

open NumShortestPaths

/-- After the σ phase every vertex of the graph has its predecessors in and clear
buffers, reached or not. -/
theorem expected_clean (hn : G.size ≤ infinity) (hP : Start G t P) {D : Nat}
    (hD : ∀ v < G.size, ∀ d, IsDist G t v d → d ≤ D) {v : Nat} (hv : v < G.size) :
    ((expected G t P (D + 1)).data v).numPredecessors = 0 ∧
      ((expected G t P (D + 1)).data v).trim = 0 ∧ ((expected G t P (D + 1)).data v).toAdd = 0 := by
  by_cases hr : ∃ d, IsDist G t v d
  · obtain ⟨d, hd⟩ := hr
    have := expected_final_of_isDist hn hP hv hd (hD v hv d hd)
    exact ⟨this.2.1, this.2.2.1, this.2.2.2.1⟩
  · have hu := unreachable_of_not_isDist (not_exists.mp hr)
    have hinf : P.lengths v = infinity := (hP.exact v hv).2 hu
    have h := (expected_of_unreachable hP hv hu (D + 1)).2.1
    rw [expected_data_of_not fun h => h.2 hinf] at h ⊢
    exact ⟨h, hP.trim v hv, hP.toAdd v hv⟩

/-- The δ phase starts with the token only on reached vertices without successors. -/
theorem tokensClear_expected (hn : G.size ≤ infinity) (hP : Start G t P) {D : Nat}
    (hD : ∀ v < G.size, ∀ d, IsDist G t v d → d ≤ D) :
    DependencyPropogation.TokensClear G (expected G t P (D + 1)) := by
  intro u hu hh
  have hu' := G.lt_size_of_edges_ne_nil (Graph.mem_nodesWithEdges.mp hu)
  have hfin : P.lengths u ≠ infinity := by
    have := hh.1; rwa [← lengths_apply, expected_lengths] at this
  have hd := hP.isDist hu' hfin
  exact (expected_final_of_isDist hn hP hu' hd (hD u hu' _ hd)).2.2.2.2.mp hh.2

end Sigma

/-! ## One source, then all of them -/

section Loop

variable {G : Graph}

theorem pending_le_size (S : State) : DependencyPropogation.pending G S ≤ G.size :=
  (List.countP_le_length _).trans ((List.length_filter_le _ _).trans (List.length_range _).le)

/-- One source from a clean state: every loop stops within `G.size + 1` rounds, no
assertion fails, and the next source finds the state clean. -/
theorem iteration_clean (hn : G.size ≤ infinity) (hm : G.numEdges < 2 ^ 32)
    {sched : Nat → List Nat} (hsched : ∀ i, (sched i).Perm G.nodesWithEdges) {fuel : Nat}
    (hfuel : G.size < fuel) (src : Nat) {s : State} (hs : Clean G s) :
    ∃ s', BC.iteration G sched fuel src s = some s' ∧ Clean G s' := by
  obtain ⟨D, hD, hDex⟩ := exists_maxDist (G := G) (t := src)
  have hDf : D < fuel := by
    rcases hDex with h | ⟨v, hv, hvD⟩
    · omega
    · have := hvD.lt_size hv; omega
  obtain ⟨s₂, k₂, h₂, -⟩ := SSSP.go_eq_some G hn src hsched s hD hDf
  have hzero : ∀ v < G.size, (s.data v).numPredecessors = 0 ∧ (s.data v).trim = 0 ∧
      (s.data v).toAdd = 0 := hs.2
  have hP := NumShortestPaths.start_of_go hn hm hsched hzero h₂
  have h₃ := NumShortestPaths.go_expected hn hm hP hD hDex fuel hDf
  obtain ⟨s₄, k₄, h₄, -, hkept⟩ := DependencyPropogation.go_kept G src
    (tokensClear_expected hn hP hD) (lt_of_le_of_lt (pending_le_size _) hfuel)
  refine ⟨_, BC.iteration_eq h₂ h₃ h₄, ?_, fun v hv => ?_⟩
  · have hframe := (SSSP.exact_of_go hn hm hsched h₂).2
    have hinit := (InitializeIteration.go_asserts G src s).mpr ⟨hs.1, fun v hv => (hs.2 v hv).1⟩
    rw [doAll_asserts, hkept.asserts, NumShortestPaths.expected_asserts, PredAndSucc.go_asserts,
      hframe.1, hinit]
  · obtain ⟨hp, ht, ha⟩ := expected_clean hn hP hD hv
    obtain ⟨hp', ht', ha'⟩ := BC.operator_fields (s₄.data v)
    rw [doAll_data_of_lt hv, hp', ht', ha', hkept.numPredecessors, hkept.toAdd]
    exact ⟨hp, hkept.trim v ht, ha⟩

theorem clean_initializeGraph (G : Graph) : Clean G (InitializeGraph.go G State.zero) :=
  ⟨rfl, fun v hv => by simp [InitializeGraph.go, doAll_data_of_lt hv, InitializeGraph.operator,
    State.zero, NodeData.zero]⟩

/-- `BC::go`'s loop over any sources, on a graph of at most `infinity` vertices and
fewer than `2 ^ 32` edges, from `InitializeGraph::go` on zero-initialised records and
with any processing orders for the BFS supersteps: given more than `G.size` rounds
per loop it ends, and no assertion has failed. -/
theorem loop_asserts (hn : G.size ≤ infinity) (hm : G.numEdges < 2 ^ 32)
    {sched : Nat → Nat → List Nat} (hsched : ∀ i j, (sched i j).Perm G.nodesWithEdges)
    {fuel : Nat} (hfuel : G.size < fuel) (srcs : List Nat) :
    ∃ s, BC.loop G sched fuel 0 srcs (InitializeGraph.go G State.zero) = some s ∧
      s.asserts = true := by
  suffices h : ∀ i s, Clean G s → ∃ s', BC.loop G sched fuel i srcs s = some s' ∧ Clean G s' from
    (h 0 _ (clean_initializeGraph G)).imp fun _ h => ⟨h.1, h.2.1⟩
  induction srcs with
  | nil => exact fun _ s hs => ⟨s, rfl, hs⟩
  | cons src rest ih =>
    intro i s hs
    obtain ⟨s', hit, hs'⟩ := iteration_clean hn hm (hsched i) hfuel src hs
    simpa [BC.loop, hit] using ih (i + 1) s' hs'

/-- Every vertex of the diamond `3 → {1, 2} → 0` as a source in turn. -/
theorem loop_asserts_diamond :
    let G : Graph := ⟨[[], [0], [0], [1, 2]], by decide⟩
    ∃ s, BC.loop G (fun _ _ => G.nodesWithEdges) 5 0 [0, 1, 2, 3]
      (InitializeGraph.go G State.zero) = some s ∧ s.asserts = true :=
  loop_asserts (by decide) (by decide) (fun _ _ => List.Perm.refl _) (by decide) _

theorem initializeGraph_zero (G : Graph) : InitializeGraph.go G State.zero = State.zero :=
  State.ext (funext fun v => by
    by_cases hv : v < G.size
    · simp [InitializeGraph.go, doAll_data_of_lt hv, InitializeGraph.operator, State.zero,
        NodeData.zero]
    · simp [InitializeGraph.go, doAll_data_of_le (Nat.le_of_not_lt hv)]) rfl

/-- With `2 ^ 32` parallel edges out of `1` its predecessor count is stored as `0`, so
`1` takes the σ token without its paths, keeps it with one successor left, and its δ
operator fails the check of line 845 in the first round, whatever the fuel. -/
theorem loop_parallelEdges (fuel : Nat) (hfuel : 1 < fuel) :
    ∃ s, BC.loop parallelEdges (fun _ _ => parallelEdges.nodesWithEdges) fuel 0 [0]
      (InitializeGraph.go parallelEdges State.zero) = some s ∧ s.asserts = false := by
  obtain ⟨f, rfl⟩ : ∃ f, fuel = f + 2 := ⟨fuel - 2, by omega⟩
  have hnsp : NumShortestPaths.go parallelEdges (f + 2) parallelEdgesCounts =
      some ((NumShortestPaths.body parallelEdges 0 parallelEdgesCounts).1, 1) := by
    rw [NumShortestPaths.go, doWhile, if_pos (by decide)]
  set S := (NumShortestPaths.body parallelEdges 0 parallelEdgesCounts).1
  have hop : DependencyPropogation.operator parallelEdges 0 (S, 0) 1 =
      (({ S with asserts := S.asserts && (S.data 1).numSuccessors == 0 }).modify 1
        DependencyPropogation.spent, 0) := by
    rw [DependencyPropogation.operator, if_pos (by decide)]
    dsimp only
    rw [parallelEdges_edges_one, DependencyPropogation.foldl_replicate_cur]
    rfl
  have hstep : DependencyPropogation.superstep parallelEdges 0 parallelEdges.nodesWithEdges S =
      (({ S with asserts := S.asserts && (S.data 1).numSuccessors == 0 }).modify 1
        DependencyPropogation.spent, 0) := by
    rw [DependencyPropogation.superstep, parallelEdges_nodesWithEdges, List.foldl_cons,
      List.foldl_cons, List.foldl_nil, hop, DependencyPropogation.operator, if_neg (by decide)]
  have hdp : DependencyPropogation.go parallelEdges 0 (f + 2) S =
      some ((DependencyPropogation.body parallelEdges 0 0 S).1, 1) := by
    rw [DependencyPropogation.go, doWhile, if_pos]
    rw [DependencyPropogation.body, hstep]
    rfl
  refine ⟨doAll parallelEdges (fun _ => BC.operator) (DependencyPropogation.body parallelEdges 0 0 S).1,
    ?_, ?_⟩
  · rw [initializeGraph_zero, BC.loop, BC.iteration_eq (sssp_go_parallelEdges (f + 2) (by omega))
      (by rw [predAndSucc_go_parallelEdges]; exact hnsp) hdp]
    rfl
  · rw [doAll_asserts, DependencyPropogation.body_asserts, hstep]
    decide

/-- `BC::go` with the single source `0` on `parallelEdges` ends with a failed assertion. -/
theorem asserts_fail_parallelEdges :
    ∃ s, BC.loop parallelEdges (fun _ _ => parallelEdges.nodesWithEdges) 2 0 [0]
      (InitializeGraph.go parallelEdges State.zero) = some s ∧ s.asserts = false :=
  loop_parallelEdges 2 (by decide)

end Loop

end DistGalois.BcPull
