import DistGalois.BcPull.NumShortestPaths
import DistGalois.BcPull.PredAndSucc

/-!
# What `NumShortestPaths::go` computes

From the state `PredAndSucc::go` leaves for source `t` (exact lengths, DAG
counts, the token on `t`), the σ phase is a wave over the levels of the
shortest-path DAG: in round `L` every vertex at distance `L` pulls each of its
DAG edges from the level below, whose vertices hold the token in exactly that
round, and then takes the token itself.  `expected k` is the state after `k`
rounds, written down directly; `body_expected` shows one round maps it to the
next, and `runRounds_expected` that it is the state the loop is in.

Main results:

* `pulls_expected` — in round `i` a vertex pulls the edge `(u, w)` exactly when
  it is a DAG edge and `u` is `i + 1` hops from `t`;
* `go_expected` — the loop stops after the first round whose next level is
  empty, at most `D + 1` rounds, in the state `expected`: every reached vertex
  has its number of shortest walks modulo `2 ^ 32`, no predecessors left, clear
  buffers, and the token exactly when it has no successors;
* `pulls_schedule_independent` — every order `Galois::do_all` may run the propagate
  operators in, round after round, gives the phase the model's fixed order gives.

The graph has fewer than `2 ^ 32` edges, so no `uint32_t` count wraps.
-/

namespace DistGalois.BcPull

namespace NumShortestPaths

open SSSP (Exact)

/-- The state `PredAndSucc::go` hands to the σ phase for the source `t`. -/
structure Start (G : Graph) (t : Nat) (P : State) : Prop where
  exact : Exact G t P
  numPredecessors : ∀ v < G.size, (P.data v).numPredecessors = G.dagOut P.lengths v
  numShortestPaths : ∀ v < G.size, (P.data v).numShortestPaths = if v = t then 1 else 0
  propogationFlag : ∀ v < G.size, (P.data v).propogationFlag = decide (v = t)
  numShortPathsFlag : ∀ v < G.size, (P.data v).numShortPathsFlag = false
  trim : ∀ v < G.size, (P.data v).trim = 0
  toAdd : ∀ v < G.size, (P.data v).toAdd = 0

/-- The record `d` of a vertex `v` at distance `L` after `k` rounds: untouched before
round `L`; from then on its path count is `σ`, its predecessors are all in, it holds the
token in round `L` and afterwards only without successors. -/
def settled (t v k L σ : Nat) (d : NodeData) : NodeData :=
  if k < L then d
  else
    { d with
      numShortestPaths := u32 σ
      numPredecessors := 0
      propogationFlag := decide (k = L ∨ d.numSuccessors = 0)
      numShortPathsFlag :=
        if k = L then decide (v ≠ t) else decide (v ≠ t ∨ d.numSuccessors ≠ 0) }

/-- The state after `k` rounds from `P`. -/
def expected (G : Graph) (t : Nat) (P : State) (k : Nat) : State :=
  { P with data := fun v => if v < G.size ∧ P.lengths v ≠ infinity then
      settled t v k (P.lengths v) (walkCount G t v (P.lengths v)) (P.data v) else P.data v }

/-- The work of round `i`: the DAG edges out of the vertices `i + 1` hops away. -/
def levelWork (G : Graph) (P : State) (i : Nat) : Nat :=
  (G.nodesWithEdges.map fun u =>
    if P.lengths u ≠ infinity ∧ P.lengths u = i + 1 then G.dagOut P.lengths u else 0).sum

/-! ## One record through the apply loops and the flag update -/

/-- `NSPTrim`, `NSPAdd` and `NumShortestPathsChanges` on one record. -/
def applyRound (d : NodeData) : NodeData :=
  NumShortestPathsChanges.operator (NSPAdd.operator (NSPTrim.operator d))

section Records

variable {d : NodeData}

/-- A record with clear buffers that is unreached, or still waiting for predecessors,
goes through unchanged. -/
theorem applyRound_idle (htrim : d.trim = 0) (htoAdd : d.toAdd = 0)
    (hidle : d.currentLength = infinity ∨ 0 < d.numPredecessors) : applyRound d = d := by
  have h₁ : NSPTrim.operator d = d := by simp [NSPTrim.operator, htrim]
  have h₂ : NSPAdd.operator d = d := by simp [NSPAdd.operator, htoAdd]
  rw [applyRound, h₁, h₂]
  rcases hidle with h | h
  · simp [NumShortestPathsChanges.operator, h]
  · simp [NumShortestPathsChanges.operator, Nat.pos_iff_ne_zero.mp h]

/-- A settled record moves on to the next round. -/
theorem applyRound_settled {t v k L σ : Nat} (hk : L ≤ k) (hfin : d.currentLength ≠ infinity)
    (htrim : d.trim = 0) (htoAdd : d.toAdd = 0) :
    applyRound (settled t v k L σ d) = settled t v (k + 1) L σ d := by
  have hnot : ¬ k < L := by omega
  have hnot' : ¬ k + 1 < L := by omega
  have hne : k + 1 ≠ L := by omega
  simp only [applyRound, settled, hnot, hnot', if_false, hne]
  simp only [NSPTrim.operator, NSPAdd.operator, htrim, htoAdd, Nat.lt_irrefl, if_false]
  by_cases hkL : k = L <;> by_cases hs : d.numSuccessors = 0 <;>
    simp [NumShortestPathsChanges.operator, hfin, hkL, hs]

/-- The round where the last predecessors come in: the buffers hold all `N` DAG edges
and the paths `a` they bring, and the record settles. -/
theorem applyRound_complete {t v L σ N a : Nat} (hvt : v ≠ t) (hfin : d.currentLength ≠ infinity)
    (hN : d.numPredecessors = N) (hN0 : 0 < N) (hN32 : N < 2 ^ 32)
    (htrim : d.trim = 0) (htoAdd : d.toAdd = 0) (hσ : d.numShortestPaths = 0)
    (hflag : d.propogationFlag = false) (hsp : d.numShortPathsFlag = false)
    (ha : u32 a = u32 σ) : applyRound (pulled d N a) = settled t v L L σ d := by
  have htrim' : NSPTrim.operator (pulled d N a) =
      { d with trim := 0, toAdd := u32 a, numPredecessors := 0 } := by
    simp [NSPTrim.operator, pulled, htrim, htoAdd, u32_of_lt hN32, hN0, hN, u32sub_of_le hN32]
  have hadd : NSPAdd.operator { d with trim := 0, toAdd := u32 a, numPredecessors := 0 } =
      { d with trim := 0, toAdd := 0, numPredecessors := 0, numShortestPaths := u32 σ } := by
    rw [ha]
    by_cases h0 : 0 < u32 σ
    · simp [NSPAdd.operator, h0, hσ]
    · have : u32 σ = 0 := by omega
      simp [NSPAdd.operator, this, hσ]
  rw [applyRound, htrim', hadd]
  simp [NumShortestPathsChanges.operator, settled, hfin, hflag, hsp, hvt, htrim, htoAdd]

end Records

/-- `uint32_t` sums: reducing the terms first changes nothing modulo `2 ^ 32`. -/
theorem u32_sum_map_u32 (l : List Nat) : u32 (l.map u32).sum = u32 l.sum := by
  induction l with
  | nil => rfl
  | cons x l ih =>
    simp only [List.map_cons, List.sum_cons, u32] at ih ⊢
    rw [Nat.add_mod, ih, Nat.mod_mod, ← Nat.add_mod]

/-! ## The levels of the DAG in the starting state -/

section Levels

variable {G : Graph} {t : Nat} {P : State}

theorem Start.len_le (hn : G.size ≤ infinity) (hP : Start G t P) {v : Nat} (hv : v < G.size) :
    P.lengths v ≤ infinity :=
  hP.exact.len_le hn hv

theorem Start.len_eq (hP : Start G t P) {v d : Nat} (hv : v < G.size) (hd : IsDist G t v d) :
    P.lengths v = d :=
  (hP.exact v hv).1 d hd

/-- A reached vertex is as far from `t` as its length says. -/
theorem Start.isDist (hP : Start G t P) {v : Nat} (hv : v < G.size)
    (hfin : P.lengths v ≠ infinity) : IsDist G t v (P.lengths v) := by
  by_cases hr : ∃ d, IsDist G t v d
  · obtain ⟨d, hd⟩ := hr
    rwa [← hP.len_eq hv hd] at hd
  · exact absurd ((hP.exact v hv).2 (unreachable_of_not_isDist (not_exists.mp hr))) hfin

/-- A reached vertex other than `t` has a DAG edge. -/
theorem Start.dagOut_pos (hP : Start G t P) {v : Nat} (hv : v < G.size)
    (hfin : P.lengths v ≠ infinity) (hpos : 0 < P.lengths v) : 0 < G.dagOut P.lengths v := by
  obtain ⟨L, hL⟩ : ∃ L, P.lengths v = L + 1 := ⟨P.lengths v - 1, by omega⟩
  have hd := hP.isDist hv hfin
  rw [hL] at hd
  obtain ⟨w, hw, hwd⟩ := hd.pred
  have hlw := hP.len_eq (Graph.lt_size_of_mem_edges hw) hwd
  exact List.countP_pos_iff.mpr ⟨w, hw, by simp only [decide_eq_true_eq]; exact ⟨hfin, by omega⟩⟩

theorem Start.mem_nodesWithEdges (hP : Start G t P) {v : Nat} (hv : v < G.size)
    (hfin : P.lengths v ≠ infinity) (hpos : 0 < P.lengths v) : v ∈ G.nodesWithEdges := by
  have := hP.dagOut_pos hv hfin hpos
  refine Graph.mem_nodesWithEdges.mpr fun h => ?_
  simp [Graph.dagOut, h] at this

/-- Only the DAG edges of a reached vertex carry its shortest walks. -/
theorem Start.walkCount_succ (hP : Start G t P) {u i : Nat} (hu : u < G.size)
    (hfin : P.lengths u ≠ infinity) (hi : i + 1 = P.lengths u) :
    walkCount G t u (i + 1) = ((G.edges u).map fun w =>
      if P.lengths w + 1 = P.lengths u then walkCount G t w i else 0).sum := by
  rw [walkCount]
  congr 1
  refine List.map_congr_left fun w hw => ?_
  split
  · rfl
  · rename_i hne
    refine walkCount_eq_zero_of_not_reach fun hr => hne ?_
    obtain ⟨d, hdi, hd⟩ := hr.exists_isDist
    have hlw := hP.len_eq (Graph.lt_size_of_mem_edges hw) hd
    have := (hP.isDist hu hfin).le_succ_of_mem hd hw
    omega

end Levels

/-! ## The state after `k` rounds -/

section Expected

variable {G : Graph} {t : Nat} {P : State}

theorem lengths_apply (s : State) (v : Nat) : s.lengths v = (s.data v).currentLength := rfl

@[simp] theorem settled_currentLength {t v k L σ : Nat} {d : NodeData} :
    (settled t v k L σ d).currentLength = d.currentLength := by
  unfold settled; split <;> rfl

@[simp] theorem settled_trim {t v k L σ : Nat} {d : NodeData} :
    (settled t v k L σ d).trim = d.trim := by
  unfold settled; split <;> rfl

@[simp] theorem settled_toAdd {t v k L σ : Nat} {d : NodeData} :
    (settled t v k L σ d).toAdd = d.toAdd := by
  unfold settled; split <;> rfl

@[simp] theorem expected_asserts (k : Nat) : (expected G t P k).asserts = P.asserts := rfl

theorem expected_data_of_fin {v : Nat} (hv : v < G.size) (hfin : P.lengths v ≠ infinity)
    (k : Nat) : (expected G t P k).data v =
      settled t v k (P.lengths v) (walkCount G t v (P.lengths v)) (P.data v) := by
  simp [expected, hv, hfin]

theorem expected_data_of_not {v : Nat} (h : ¬ (v < G.size ∧ P.lengths v ≠ infinity)) (k : Nat) :
    (expected G t P k).data v = P.data v := by
  simp only [expected, if_neg h]

theorem expected_lengths (k : Nat) : (expected G t P k).lengths = P.lengths := funext fun v => by
  by_cases h : v < G.size ∧ P.lengths v ≠ infinity
  · rw [lengths_apply, expected_data_of_fin h.1 h.2, settled_currentLength]; rfl
  · rw [lengths_apply, expected_data_of_not h]; rfl

/-- Before the first round the state is the one the phase starts from. -/
theorem expected_zero (hP : Start G t P) : expected G t P 0 = P := by
  ext v
  · by_cases h : v < G.size ∧ P.lengths v ≠ infinity
    · rw [expected_data_of_fin h.1 h.2]
      by_cases hpos : 0 < P.lengths v
      · simp [settled, hpos]
      · have h0 : P.lengths v = 0 := by omega
        have hd := hP.isDist h.1 h.2
        rw [h0] at hd
        obtain rfl := isDist_zero_iff.mp hd
        have hout : G.dagOut P.lengths v = 0 := List.countP_eq_zero.mpr fun w _ => by simp [h0]
        have hσ : u32 (walkCount G v v 0) = (P.data v).numShortestPaths := by
          simp [walkCount, hP.numShortestPaths v h.1]
        have hpred : (0 : Nat) = (P.data v).numPredecessors := by
          rw [hP.numPredecessors v h.1, hout]
        have hflag : true = (P.data v).propogationFlag := by simp [hP.propogationFlag v h.1]
        have hsp : false = (P.data v).numShortPathsFlag := (hP.numShortPathsFlag v h.1).symm
        simp only [settled, h0, Nat.lt_irrefl, if_false, true_or, decide_True, ne_eq,
          not_true_eq_false, decide_False, if_true, hσ]
        rw [hpred, hflag, hsp]
    · exact expected_data_of_not h 0
  · rfl

end Expected

/-! ## Who pulls what in round `i` -/

section Pulling

variable {G : Graph} {t : Nat} {P : State}

/-- A vertex runs its edge loop in round `i` exactly while it is reached and more than
`i` hops away. -/
theorem active_expected (hP : Start G t P) {u : Nat} (hu : u < G.size) (i : Nat) :
    Active (expected G t P i) u ↔ P.lengths u ≠ infinity ∧ i < P.lengths u := by
  by_cases hfin : P.lengths u ≠ infinity
  · rw [Active, expected_data_of_fin hu hfin, settled_currentLength, ← lengths_apply]
    by_cases hi : i < P.lengths u
    · simp [settled, hi, hfin, hP.numPredecessors u hu, hP.dagOut_pos hu hfin (by omega)]
    · simp [settled, hi]
  · rw [Active, expected_data_of_not (by tauto), ← lengths_apply]
    simp [hfin]

/-- In round `i`, a vertex more than `i` hops away pulls exactly its DAG edges, and only
if it is `i + 1` hops away: the token of a level is only ever read in the round it is
handed out. -/
theorem pulls_expected (hn : G.size ≤ infinity) (hP : Start G t P) {u w i : Nat}
    (hu : u < G.size) (hw : w ∈ G.edges u) (hi : i < P.lengths u) :
    Pulls (expected G t P i) u w ↔ P.lengths w + 1 = P.lengths u ∧ i + 1 = P.lengths u := by
  have hw' := Graph.lt_size_of_mem_edges hw
  have hlw := hP.len_le hn hw'
  have hlu := hP.len_le hn hu
  rw [Pulls, ← lengths_apply, ← lengths_apply, expected_lengths,
    u32_of_lt (by rw [infinity_eq] at hlw; omega)]
  by_cases hdag : P.lengths w + 1 = P.lengths u
  · have hwfin : P.lengths w ≠ infinity := by omega
    rw [expected_data_of_fin hw' hwfin]
    by_cases hiw : i < P.lengths w
    · have : w ≠ t := fun h => by
        have := hP.len_eq hw' (isDist_zero_iff.mpr h); omega
      simp [settled, hiw, hP.propogationFlag w hw', this, hdag]
      omega
    · have hiL : i = P.lengths w := by omega
      simp [settled, hiL, hdag]
  · simp [hdag]

theorem pullCount_expected (hn : G.size ≤ infinity) (hP : Start G t P) {u i : Nat}
    (hu : u < G.size) (hfin : P.lengths u ≠ infinity) (hi : i < P.lengths u) :
    pullCount (expected G t P i) u (G.edges u) =
      if i + 1 = P.lengths u then G.dagOut P.lengths u else 0 := by
  split
  · rename_i hL
    exact List.countP_congr fun w hw => by
      simp [pulls_expected hn hP hu hw hi, hL, hfin]
  · rename_i hL
    exact List.countP_eq_zero.mpr fun w hw => by simp [pulls_expected hn hP hu hw hi, hL]

theorem pullSum_expected_lt (hn : G.size ≤ infinity) (hP : Start G t P) {u i : Nat}
    (hu : u < G.size) (hi : i + 1 < P.lengths u) : pullSum (expected G t P i) u (G.edges u) = 0 :=
  List.sum_eq_zero fun x hx => by
    obtain ⟨w, hw, rfl⟩ := List.mem_map.mp hx
    simp [pulls_expected hn hP hu hw (by omega : i < P.lengths u), Nat.ne_of_lt hi]

/-- The paths pulled in the completing round are the vertex's shortest walks, modulo
`2 ^ 32`. -/
theorem pullSum_expected (hn : G.size ≤ infinity) (hP : Start G t P) {u i : Nat}
    (hu : u < G.size) (hfin : P.lengths u ≠ infinity) (hi : i + 1 = P.lengths u) :
    u32 (pullSum (expected G t P i) u (G.edges u)) = u32 (walkCount G t u (P.lengths u)) := by
  have hterm : ∀ w ∈ G.edges u,
      (if Pulls (expected G t P i) u w then ((expected G t P i).data w).numShortestPaths else 0) =
        u32 (if P.lengths w + 1 = P.lengths u then walkCount G t w i else 0) := fun w hw => by
    rw [if_congr (pulls_expected hn hP hu hw (by omega)) rfl rfl]
    by_cases hdag : P.lengths w + 1 = P.lengths u
    · have hw' := Graph.lt_size_of_mem_edges hw
      have hwi : P.lengths w = i := by omega
      have hlu := hP.len_le hn hu
      rw [expected_data_of_fin hw' (by omega)]
      simp [settled, hdag, hi, hwi]
    · simp [hdag]
  have hwalk := hP.walkCount_succ hu hfin hi
  rw [hi] at hwalk
  rw [pullSum, List.map_congr_left hterm, hwalk]
  exact (congrArg (fun l => u32 l.sum) (List.map_map u32 _ _).symm).trans (u32_sum_map_u32 _)

end Pulling

/-! ## One round -/

section Round

variable {G : Graph} {t : Nat} {P : State}

theorem body_data (i : Nat) (s : State) (v : Nat) :
    (body G i s).1.data v = if v < G.size then applyRound ((superstep G G.nodesWithEdges s).1.data v)
      else (superstep G G.nodesWithEdges s).1.data v := by
  by_cases hv : v < G.size
  · simp [body, NumShortestPathsChanges.go, NSPAdd.go, NSPTrim.go, applyRound, hv]
  · simp [body, NumShortestPathsChanges.go, NSPAdd.go, NSPTrim.go, hv, Nat.le_of_not_lt hv]

theorem body_asserts (i : Nat) (s : State) :
    (body G i s).1.asserts = (superstep G G.nodesWithEdges s).1.asserts := by
  simp [body, NSPAdd.go, NSPTrim.go]

theorem buffersFit_expected (hP : Start G t P) {v : Nat} (hv : v < G.size) (k : Nat) :
    BuffersFit ((expected G t P k).data v) := by
  by_cases hfin : P.lengths v ≠ infinity
  · simp [BuffersFit, expected_data_of_fin hv hfin, hP.trim v hv, hP.toAdd v hv]
  · simp [BuffersFit, expected_data_of_not (by tauto : ¬ (v < G.size ∧ _)), hP.trim v hv,
      hP.toAdd v hv]

/-- The superstep of round `i` pulls the DAG edges out of level `i + 1`. -/
theorem superstep_work_expected (hn : G.size ≤ infinity) (hP : Start G t P) (i : Nat) :
    (G.nodesWithEdges.map fun u =>
      if Active (expected G t P i) u then pullCount (expected G t P i) u (G.edges u) else 0).sum =
      levelWork G P i := by
  refine congrArg List.sum (List.map_congr_left fun u hu => ?_)
  have hu' := G.lt_size_of_edges_ne_nil (Graph.mem_nodesWithEdges.mp hu)
  rw [if_congr (active_expected hP hu' i) rfl rfl]
  by_cases h : P.lengths u ≠ infinity ∧ i < P.lengths u
  · rw [if_pos h, pullCount_expected hn hP hu' h.1 h.2]
    by_cases hL : i + 1 = P.lengths u
    · simp [hL, h.1]
    · simp [hL, Ne.symm hL]
  · rw [if_neg h, if_neg (by omega)]

/-- The record of a reached vertex through round `i`. -/
theorem applyRound_expected (hn : G.size ≤ infinity) (hm : G.numEdges < 2 ^ 32)
    (hP : Start G t P) {v : Nat} (hv : v < G.size) (hfin : P.lengths v ≠ infinity) (i : Nat) :
    applyRound (if v ∈ G.nodesWithEdges ∧ Active (expected G t P i) v then
        pulled ((expected G t P i).data v) (pullCount (expected G t P i) v (G.edges v))
          (pullSum (expected G t P i) v (G.edges v))
      else (expected G t P i).data v) = (expected G t P (i + 1)).data v := by
  have hfin' : (P.data v).currentLength ≠ infinity := hfin
  rw [expected_data_of_fin hv hfin, expected_data_of_fin hv hfin]
  by_cases hi : i < P.lengths v
  · have hmem := hP.mem_nodesWithEdges hv hfin (by omega)
    have hdag := hP.dagOut_pos hv hfin (by omega)
    rw [if_pos ⟨hmem, (active_expected hP hv i).mpr ⟨hfin, hi⟩⟩,
      pullCount_expected hn hP hv hfin hi]
    have hsettled : settled t v i (P.lengths v) (walkCount G t v (P.lengths v)) (P.data v) =
        P.data v := if_pos hi
    rw [hsettled]
    by_cases hL : i + 1 = P.lengths v
    · have hvt : v ≠ t := fun h => by
        have := hP.len_eq hv (isDist_zero_iff.mpr h); omega
      rw [if_pos hL, hL]
      refine applyRound_complete hvt hfin' (hP.numPredecessors v hv) hdag
        (lt_of_le_of_lt ((G.dagOut_le_length v).trans (G.length_edges_le_numEdges v)) hm)
        (hP.trim v hv) (hP.toAdd v hv) (by simp [hP.numShortestPaths v hv, hvt])
        (by simp [hP.propogationFlag v hv, hvt]) (hP.numShortPathsFlag v hv)
        (pullSum_expected hn hP hv hfin hL)
    · rw [if_neg hL, pullSum_expected_lt hn hP hv (by omega),
        pulled_zero ⟨by simp [hP.trim v hv], by simp [hP.toAdd v hv]⟩,
        applyRound_idle (hP.trim v hv) (hP.toAdd v hv)
          (Or.inr (by rw [hP.numPredecessors v hv]; exact hdag))]
      exact (if_pos (by omega)).symm
  · rw [if_neg fun h => hi ((active_expected hP hv i).mp h.2).2]
    exact applyRound_settled (by omega) hfin' (hP.trim v hv) (hP.toAdd v hv)

/-- One round maps the state after `i` rounds to the state after `i + 1`, with the DAG
edges out of level `i + 1` as its work. -/
theorem body_expected (hn : G.size ≤ infinity) (hm : G.numEdges < 2 ^ 32) (hP : Start G t P)
    (i : Nat) : body G i (expected G t P i) = (expected G t P (i + 1), levelWork G P i) := by
  obtain ⟨-, has, hw, hd⟩ := steps_foldl G G.nodesWithEdges G.nodup_nodesWithEdges
    (expected G t P i, 0) fun u hu =>
      buffersFit_expected hP (G.lt_size_of_edges_ne_nil (Graph.mem_nodesWithEdges.mp hu)) i
  refine Prod.ext (State.ext (funext fun v => ?_) ?_) ?_
  · rw [body_data, superstep, hd]
    by_cases hv : v < G.size
    · rw [if_pos hv]
      by_cases hfin : P.lengths v ≠ infinity
      · exact applyRound_expected hn hm hP hv hfin i
      · have hnot : ¬ (v < G.size ∧ P.lengths v ≠ infinity) := by tauto
        rw [if_neg fun h => hfin ((active_expected hP hv i).mp h.2).1,
          expected_data_of_not hnot, expected_data_of_not hnot]
        exact applyRound_idle (hP.trim v hv) (hP.toAdd v hv) (Or.inl (by simpa using hfin))
    · have hnot : ¬ (v < G.size ∧ P.lengths v ≠ infinity) := fun h => hv h.1
      rw [if_neg hv, if_neg fun h => hv (G.lt_size_of_edges_ne_nil
        (Graph.mem_nodesWithEdges.mp h.1)), expected_data_of_not hnot, expected_data_of_not hnot]
  · rw [body_asserts, superstep, has]; rfl
  · show (superstep G G.nodesWithEdges _).2 = _
    rw [superstep, hw, Nat.zero_add, superstep_work_expected hn hP]

end Round

/-! ## The whole loop -/

section Run

variable {G : Graph} {t : Nat} {P : State}

/-- After `k` rounds the loop is in the state `expected k`. -/
theorem runRounds_expected (hn : G.size ≤ infinity) (hm : G.numEdges < 2 ^ 32)
    (hP : Start G t P) (k : Nat) : runRounds (body G) P k = expected G t P k := by
  induction k with
  | zero => exact (expected_zero hP).symm
  | succ k ih => rw [runRounds_succ, ih, body_expected hn hm hP]

theorem levelWork_lt (hm : G.numEdges < 2 ^ 32) (i : Nat) : levelWork G P i < 2 ^ 32 := by
  refine lt_of_le_of_lt ?_ (lt_of_le_of_lt (G.dagEdges_le_numEdges : G.dagEdges P.lengths ≤ _) hm)
  rw [Graph.dagEdges, ← Graph.sum_nodesWithEdges _ fun v h => by simp [Graph.dagOut, h]]
  exact List.sum_le_sum fun u _ => by split <;> simp

/-- A round has work exactly when the next level is inhabited. -/
theorem levelWork_eq_zero_iff (hP : Start G t P) (i : Nat) :
    levelWork G P i = 0 ↔ ∀ v < G.size, P.lengths v ≠ infinity → P.lengths v ≠ i + 1 := by
  rw [levelWork, List.sum_eq_zero_iff]
  constructor
  · intro h v hv hfin hL
    have := h _ (List.mem_map_of_mem _ (hP.mem_nodesWithEdges hv hfin (by omega)))
    rw [if_pos ⟨hfin, hL⟩] at this
    exact absurd this (hP.dagOut_pos hv hfin (by omega)).ne'
  · intro h x hx
    obtain ⟨v, hv, rfl⟩ := List.mem_map.mp hx
    have hv' := G.lt_size_of_edges_ne_nil (Graph.mem_nodesWithEdges.mp hv)
    exact if_neg fun hc => h v hv' hc.1 hc.2

/-- The loop runs one round per level and one more, `D` being the eccentricity of `t`,
and stops in the state `expected (D + 1)`. -/
theorem go_expected (hn : G.size ≤ infinity) (hm : G.numEdges < 2 ^ 32) (hP : Start G t P)
    {D : Nat} (hD : ∀ v < G.size, ∀ d, IsDist G t v d → d ≤ D)
    (hDex : D = 0 ∨ ∃ v < G.size, IsDist G t v D) (fuel : Nat) (hfuel : D < fuel) :
    go G fuel P = some (expected G t P (D + 1), D + 1) := by
  have hwork : ∀ j, u32 (body G j (runRounds (body G) P j)).2 = levelWork G P j := fun j => by
    rw [runRounds_expected hn hm hP, body_expected hn hm hP, u32_of_lt (levelWork_lt hm j)]
  rw [go, doWhile_of_stop P D (fun j hj => ?_) ?_ fuel hfuel, runRounds_expected hn hm hP]
  · rw [hwork, levelWork_eq_zero_iff hP]
    intro v hv hfin hL
    have := hD v hv _ (hP.isDist hv hfin)
    omega
  · rw [hwork]
    intro h
    obtain ⟨v, hv, hvD⟩ := hDex.resolve_left (by omega)
    obtain ⟨u, hu, hud⟩ := hvD.level hv (j + 1) (by omega)
    have := hud.lt_size hu
    exact (levelWork_eq_zero_iff hP j).mp h u hu (by rw [hP.len_eq hu hud]; omega)
      (hP.len_eq hu hud)

/-- In round `i` the vertex `u` pulls its edge to `w` exactly when `w` is `i` hops from
`t` and `u` is `i + 1`: each edge of the shortest-path DAG is pulled once, in the round
its upper end completes, and no other edge ever is. -/
theorem pulls_runRounds (hn : G.size ≤ infinity) (hm : G.numEdges < 2 ^ 32) (hP : Start G t P)
    (i : Nat) {u w : Nat} (hu : u < G.size) (hw : w ∈ G.edges u) :
    Active (runRounds (body G) P i) u ∧ Pulls (runRounds (body G) P i) u w ↔
      IsDist G t w i ∧ IsDist G t u (i + 1) := by
  have hw' := Graph.lt_size_of_mem_edges hw
  rw [runRounds_expected hn hm hP, active_expected hP hu]
  constructor
  · rintro ⟨⟨hfin, hi⟩, hp⟩
    obtain ⟨hdag, hL⟩ := (pulls_expected hn hP hu hw hi).mp hp
    have hud := hP.isDist hu hfin
    have hwd := hP.isDist hw' (by have := hP.len_le hn hu; omega)
    rw [← hL] at hud
    rw [show P.lengths w = i by omega] at hwd
    exact ⟨hwd, hud⟩
  · rintro ⟨hwd, hud⟩
    have hL := hP.len_eq hu hud
    have hLw := hP.len_eq hw' hwd
    have := hud.lt_size hu
    exact ⟨⟨by omega, by omega⟩, (pulls_expected hn hP hu hw (by omega)).mpr ⟨by omega, hL.symm⟩⟩

/-- What the last state holds for a vertex `d` hops from `t`. -/
theorem expected_final_of_isDist (hn : G.size ≤ infinity) (hP : Start G t P) {D v d : Nat}
    (hv : v < G.size) (hd : IsDist G t v d) (hdD : d ≤ D) :
    ((expected G t P (D + 1)).data v).numShortestPaths = u32 (walkCount G t v d) ∧
      ((expected G t P (D + 1)).data v).numPredecessors = 0 ∧
      ((expected G t P (D + 1)).data v).trim = 0 ∧ ((expected G t P (D + 1)).data v).toAdd = 0 ∧
      (((expected G t P (D + 1)).data v).propogationFlag = true ↔
        ((expected G t P (D + 1)).data v).numSuccessors = 0) := by
  have hL := hP.len_eq hv hd
  have hfin : P.lengths v ≠ infinity := by have := hd.lt_size hv; omega
  have hnot : ¬ D + 1 < d := by omega
  have hne : D + 1 ≠ d := by omega
  rw [expected_data_of_fin hv hfin, hL]
  simp [settled, hnot, hne, hP.trim v hv, hP.toAdd v hv]

/-- A vertex that cannot reach `t` is never touched. -/
theorem expected_of_unreachable (hP : Start G t P) {v : Nat} (hv : v < G.size)
    (hu : Unreachable G t v) (k : Nat) :
    ((expected G t P k).data v).numShortestPaths = 0 ∧
      ((expected G t P k).data v).numPredecessors = 0 ∧
      ((expected G t P k).data v).propogationFlag = false := by
  have hinf : P.lengths v = infinity := (hP.exact v hv).2 hu
  have hvt : v ≠ t := fun h => hu 0 (h ▸ Reach.refl)
  rw [expected_data_of_not fun h => h.2 hinf, hP.numPredecessors v hv]
  exact ⟨by simp [hP.numShortestPaths v hv, hvt],
    List.countP_eq_zero.mpr fun w _ => by simp [hinf], by simp [hP.propogationFlag v hv, hvt]⟩

end Run

/-! ## Any schedule

`Galois::do_all` may run the propagate operators in any order: the model fixes one, and
every other gives the same phase. -/

section Schedule

/-- `NumShortestPaths::go` with round `i`'s propagate superstep running the operators in
the order `sched i`. -/
def goScheduled (G : Graph) (sched : Nat → List Nat) (fuel : Nat) (s : State) :
    Option (State × Nat) :=
  doWhile (fun i s =>
    let r := superstep G (sched i) s
    (NumShortestPathsChanges.go G (NSPAdd.go G (NSPTrim.go G r.1)), r.2)) fuel 0 s

/-- Whatever order `Galois::do_all` runs the propagate operators in, round after round,
`NumShortestPaths::go` from a state whose buffers hold `uint32_t` values ends after the
same rounds in the same state as in the order the model fixes. -/
theorem pulls_schedule_independent (G : Graph) {sched : Nat → List Nat}
    (hsched : ∀ i, (sched i).Perm G.nodesWithEdges) (fuel : Nat) {s : State}
    (hfit : ∀ u < G.size, BuffersFit (s.data u)) :
    goScheduled G sched fuel s = go G fuel s :=
  doWhile_congr (fun S => ∀ u < G.size, BuffersFit (S.data u))
    (fun i S _ u hu => by rw [body_data, if_pos hu]; simp [BuffersFit, applyRound])
    (fun i S hS => by
      simp only [body, superstep_perm G (hsched i)
        ((hsched i).nodup_iff.mpr G.nodup_nodesWithEdges) S fun u hu =>
          hS u (G.lt_size_of_edges_ne_nil (Graph.mem_nodesWithEdges.mp ((hsched i).subset hu)))])
    fuel 0 hfit

/-- The σ phase on the diamond `3 → {1, 2} → 0` for the source `0`, from the records
`InitializeIteration`, the BFS and `PredAndSucc` leave, with every round's pulls in the
order `3, 2, 1`: `3` ends with its two shortest paths. -/
theorem pulls_schedule_independent_diamond :
    let G : Graph := ⟨[[], [0], [0], [1, 2]], by decide⟩
    let s := PredAndSucc.go G ((SSSP.go G (fun _ => G.nodesWithEdges) 4
      (InitializeIteration.go G 0 State.zero)).getD (State.zero, 0)).1
    goScheduled G (fun _ => [3, 2, 1]) 5 s = go G 5 s ∧
      (go G 5 s).map (fun r => (r.1.data 3).numShortestPaths) = some 2 :=
  ⟨pulls_schedule_independent _ (fun _ => by decide) 5 (by unfold BuffersFit; decide), by decide⟩

end Schedule

/-! ## From the per-source reset -/

section Pipeline

variable {G : Graph} {t : Nat}

/-- `InitializeIteration::go`, `SSSP::go` and `PredAndSucc::go` from records whose
predecessor counts and buffers are clear leave the state the σ phase starts from. -/
theorem start_of_go (hn : G.size ≤ infinity) (hm : G.numEdges < 2 ^ 32)
    {sched : Nat → List Nat} (hsched : ∀ i, (sched i).Perm G.nodesWithEdges) {s₀ s₁ : State}
    {fuel k : Nat}
    (hzero : ∀ v < G.size, (s₀.data v).numPredecessors = 0 ∧ (s₀.data v).trim = 0 ∧
      (s₀.data v).toAdd = 0)
    (hS : SSSP.go G sched fuel (InitializeIteration.go G t s₀) = some (s₁, k)) :
    Start G t (PredAndSucc.go G s₁) := by
  obtain ⟨hex, -, hframe⟩ := SSSP.exact_of_go hn hm hsched hS
  have hrec : ∀ v < G.size, s₁.data v =
      { InitializeIteration.operator t v (s₀.data v) with currentLength := s₁.lengths v } :=
    fun v hv => by rw [hframe v, InitializeIteration.go_data_of_lt hv]; rfl
  have hdata : ∀ v < G.size, (PredAndSucc.go G s₁).data v =
      PredAndSucc.bump (s₁.data v) (G.predCount s₁.lengths v) (G.succCountIn s₁.lengths G.nodesWithEdges v) :=
    fun v hv => PredAndSucc.go_data v (by simp [PredAndSucc.CountsFit, hrec v hv, (hzero v hv).1])
  have hlen : (PredAndSucc.go G s₁).lengths = s₁.lengths := PredAndSucc.go_lengths
  have hlenle : ∀ w < G.size, s₁.lengths w ≤ infinity := fun w hw => hex.len_le hn hw
  refine ⟨fun v hv => ?_, fun v hv => ?_, fun v hv => ?_, fun v hv => ?_, fun v hv => ?_,
    fun v hv => ?_, fun v hv => ?_⟩
  · have h : ((PredAndSucc.go G s₁).data v).currentLength = (s₁.data v).currentLength := congrFun hlen v
    simp only [SSSP.len, h]
    exact hex v hv
  · rw [hdata v hv, hlen, G.predCount_eq_dagOut hlenle v]
    simp only [PredAndSucc.bump, hrec v hv, InitializeIteration.operator_numPredecessors, (hzero v hv).1,
      Nat.zero_add]
    exact u32_of_lt (lt_of_le_of_lt ((G.dagOut_le_length v).trans (G.length_edges_le_numEdges v)) hm)
  all_goals simp [hdata v hv, PredAndSucc.bump, hrec v hv, hzero v hv]

/-- `NumShortestPaths::go` after `InitializeIteration::go`, `SSSP::go` and
`PredAndSucc::go`, on a graph with fewer than `2 ^ 32` edges and records whose
predecessor counts and buffers start clear, `D` being the eccentricity of the source:
the loop stops after `D + 1` rounds; in round `i` the edge `(u, w)` is pulled exactly
when `w` is `i` hops from `t` and `u` is `i + 1`, so every DAG edge once; every reached
vertex ends with its shortest walks counted modulo `2 ^ 32`, no predecessors left, clear
buffers and the token exactly when it has no successors, and every other vertex keeps
no paths, no predecessors and no token. -/
theorem go_shortestPathCounts (hn : G.size ≤ infinity) (hm : G.numEdges < 2 ^ 32)
    {sched : Nat → List Nat} (hsched : ∀ i, (sched i).Perm G.nodesWithEdges) {s₀ s₁ : State}
    {fuel₁ k : Nat}
    (hzero : ∀ v < G.size, (s₀.data v).numPredecessors = 0 ∧ (s₀.data v).trim = 0 ∧
      (s₀.data v).toAdd = 0)
    (hS : SSSP.go G sched fuel₁ (InitializeIteration.go G t s₀) = some (s₁, k)) :
    ∃ D, (∀ v < G.size, ∀ d, IsDist G t v d → d ≤ D) ∧ (D = 0 ∨ ∃ v < G.size, IsDist G t v D) ∧
      ∀ fuel, D < fuel → ∃ s', go G fuel (PredAndSucc.go G s₁) = some (s', D + 1) ∧
        (∀ i ≤ D, ∀ u < G.size, ∀ w ∈ G.edges u,
          Active (runRounds (body G) (PredAndSucc.go G s₁) i) u ∧
            Pulls (runRounds (body G) (PredAndSucc.go G s₁) i) u w ↔
          IsDist G t w i ∧ IsDist G t u (i + 1)) ∧
        (∀ v < G.size, ∀ d, IsDist G t v d →
          (s'.data v).numShortestPaths = u32 (walkCount G t v d) ∧
          (s'.data v).numPredecessors = 0 ∧ (s'.data v).trim = 0 ∧ (s'.data v).toAdd = 0 ∧
          ((s'.data v).propogationFlag = true ↔ (s'.data v).numSuccessors = 0)) ∧
        (∀ v < G.size, Unreachable G t v →
          (s'.data v).numShortestPaths = 0 ∧ (s'.data v).numPredecessors = 0 ∧
          (s'.data v).propogationFlag = false) := by
  have hP := start_of_go hn hm hsched hzero hS
  obtain ⟨D, hD, hDex⟩ := exists_maxDist (G := G) (t := t)
  refine ⟨D, hD, hDex, fun fuel hfuel => ⟨_, go_expected hn hm hP hD hDex fuel hfuel,
    fun i _ u hu w hw => pulls_runRounds hn hm hP i hu hw,
    fun v hv d hd => expected_final_of_isDist hn hP hv hd (hD v hv d hd),
    fun v hv hu => expected_of_unreachable hP hv hu (D + 1)⟩⟩

/-- The diamond `3 → {1, 2} → 0` with source `0`, from zeroed records; `SSSP::go`
settles in two supersteps. -/
theorem go_shortestPathCounts_diamond :
    let G : Graph := ⟨[[], [0], [0], [1, 2]], by decide⟩
    let P := PredAndSucc.go G
      (runRounds (SSSP.body G fun _ => G.nodesWithEdges) (InitializeIteration.go G 0 State.zero) 2)
    ∃ D, (∀ v < G.size, ∀ d, IsDist G 0 v d → d ≤ D) ∧ (D = 0 ∨ ∃ v < G.size, IsDist G 0 v D) ∧
      ∀ fuel, D < fuel → ∃ s', go G fuel P = some (s', D + 1) ∧
        (∀ i ≤ D, ∀ u < G.size, ∀ w ∈ G.edges u,
          Active (runRounds (body G) P i) u ∧ Pulls (runRounds (body G) P i) u w ↔
          IsDist G 0 w i ∧ IsDist G 0 u (i + 1)) ∧
        (∀ v < G.size, ∀ d, IsDist G 0 v d →
          (s'.data v).numShortestPaths = u32 (walkCount G 0 v d) ∧
          (s'.data v).numPredecessors = 0 ∧ (s'.data v).trim = 0 ∧ (s'.data v).toAdd = 0 ∧
          ((s'.data v).propogationFlag = true ↔ (s'.data v).numSuccessors = 0)) ∧
        (∀ v < G.size, Unreachable G 0 v →
          (s'.data v).numShortestPaths = 0 ∧ (s'.data v).numPredecessors = 0 ∧
          (s'.data v).propogationFlag = false) :=
  go_shortestPathCounts (by decide) (by decide) (fun _ => List.Perm.refl _)
    (fun _ _ => ⟨rfl, rfl, rfl⟩) (show SSSP.go _ _ 5 _ = some (_, 2) from rfl)

/-- With `2 ^ 32` parallel edges the predecessor count of `1` is stored as `0`, so `1`
takes the token in the first round without pulling, the round does no work and the
loop stops: vertex `2`, two hops from the source, is left waiting for a predecessor. -/
theorem numPredecessors_left_parallelEdges :
    ∃ s₁, SSSP.go parallelEdges (fun _ => parallelEdges.nodesWithEdges) 2
        (InitializeIteration.go parallelEdges 0 State.zero) = some (s₁, 2) ∧
      IsDist parallelEdges 0 2 2 ∧
      ∀ fuel, 0 < fuel → ∃ s', go parallelEdges fuel (PredAndSucc.go parallelEdges s₁) = some (s', 1) ∧
        (s'.data 2).numPredecessors = 1 := by
  have hdist : IsDist parallelEdges 0 2 2 := by
    have h10 : (0 : Nat) ∈ parallelEdges.edges 1 := by
      rw [parallelEdges_edges_one]; exact List.mem_replicate.mpr ⟨by decide, rfl⟩
    refine ⟨.step (by decide) (.step h10 .refl), fun k hk hr => ?_⟩
    match k, hr with
    | 1, .step hw hr' =>
      rw [List.mem_singleton.mp hw] at hr'
      exact absurd (reach_zero_iff.mp hr') (by decide)
  refine ⟨_, sssp_go_parallelEdges 2 (by decide), hdist, fun fuel hfuel => ?_⟩
  obtain ⟨f, rfl⟩ : ∃ f, fuel = f + 1 := ⟨fuel - 1, by omega⟩
  have hwork : u32 (body parallelEdges 0 parallelEdgesCounts).2 = 0 := by decide
  rw [predAndSucc_go_parallelEdges, go, doWhile, if_pos hwork]
  exact ⟨_, rfl, by decide⟩

end Pipeline

end NumShortestPaths

end DistGalois.BcPull
