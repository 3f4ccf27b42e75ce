import DistGalois.BcPull.Hosts

/-!
# What the replicas hold after the BFS and `PredAndSucc` on many hosts

On many hosts the first two phases of an iteration compute what they compute on one.
The `min`-sync after each BFS superstep gives every replica of a vertex the least
length any replica reached, so the masters' lengths take one relaxation round per
superstep, as a single host's do; the add-syncs of `PredAndSucc` total the DAG edges
the hosts store, and every stored edge is on exactly one host.  Both hold whatever
the partition and whatever order each host runs its operators in: the hosts part
from one host only in the δ phase (`dependencyPropogation_mirror`).

Main results:

* `predAndSucc_replica` — replicas that hold one state's lengths end `PredAndSucc::go`
  with that state's single-host counts;
* `Replicated` — every replica holds its master's length and every host's lengths are
  sound — holds from the reset on and through every BFS round
  (`replicated_initializeIteration`, `Replicated.ssspRound`);
* `Replicated.exactUpTo_masters` — after `k` rounds every master at most `k` hops from
  the source is exact, through the step `ExactUpTo.succ` a single host's rounds take;
* `sssp_correct` — on a graph with fewer than `2 ^ 32` edges the BFS on every host stops
  after at most `D + 1` rounds with every replica exact;
* `predAndSucc_sssp_replica` — after both phases every replica holds the length and the
  counts `SSSP::go` and `PredAndSucc::go` leave on one host.
-/

namespace DistGalois.BcPull

namespace Partition

/-! ## `PredAndSucc` on many hosts

Each host counts the DAG edges it stores, and the two add-syncs total the hosts'
counts on the master and copy the totals to every mirror.  As every stored edge is
on exactly one host, replicas that hold one state's lengths end with that state's
single-host counts, whatever the partition. -/

section PredAndSucc

variable {G : Graph} (P : Partition G)

/-- Both endpoints of a stored edge are vertices of the graph. -/
theorem lt_size_of_mem_localGraph {h u w : Nat} (hw : w ∈ (P.localGraph h).edges u) :
    u < G.size ∧ w < G.size :=
  ⟨P.size_localGraph h ▸ Graph.lt_size_of_edges_ne_nil (List.ne_nil_of_mem hw),
    P.size_localGraph h ▸ Graph.lt_size_of_mem_edges hw⟩

/-- Both endpoints of a stored edge have a replica on its host. -/
theorem isReplica_of_mem_edges {h u w : Nat} (hw : w ∈ (P.localGraph h).edges u) :
    P.isReplica h u = true ∧ P.isReplica h w = true := by
  refine ⟨by simp [isReplica, List.ne_nil_of_mem hw], ?_⟩
  simp only [isReplica, Bool.or_eq_true, List.any_eq_true, List.mem_range]
  exact .inr ⟨u, (P.lt_size_of_mem_localGraph hw).1, by simpa using hw⟩

/-- A host without a replica of `v` stores no edge out of `v`. -/
theorem edges_eq_nil_of_not_replica {h v : Nat} (hv : P.isReplica h v = false) :
    (P.localGraph h).edges v = [] := by
  by_contra hne
  obtain ⟨w, hw⟩ := List.exists_mem_of_ne_nil _ hne
  rw [(P.isReplica_of_mem_edges hw).1] at hv
  exact Bool.noConfusion hv

theorem isReplica_of_replica {h v : Nat} (hh : h = P.master v ∨ h ∈ P.mirrors v) :
    h < P.numHosts ∧ P.isReplica h v = true := by
  rcases hh with rfl | hm
  · exact ⟨P.master_lt v, by simp [isReplica]⟩
  · simp only [mirrors, List.mem_filter, List.mem_range, Bool.and_eq_true] at hm
    exact ⟨hm.1, hm.2.2⟩

/-- A sum over the hosts of a quantity that vanishes off the replicas of `v` is the
master's share plus the mirrors'. -/
theorem sum_hosts (v : Nat) (f : Nat → Nat)
    (hf : ∀ h < P.numHosts, P.isReplica h v = false → f h = 0) :
    ((List.range P.numHosts).map f).sum = f (P.master v) + ((P.mirrors v).map f).sum := by
  have key : ∀ l : List Nat, l.Nodup → (∀ h ∈ l, h < P.numHosts) →
      (l.map f).sum = (if P.master v ∈ l then f (P.master v) else 0) +
        ((l.filter fun h => h != P.master v && P.isReplica h v).map f).sum := by
    intro l hl hlt
    induction l with
    | nil => rfl
    | cons x l ih =>
      obtain ⟨hx, hl⟩ := List.nodup_cons.mp hl
      have ih := ih hl fun h hh => hlt h (List.mem_cons_of_mem _ hh)
      by_cases hxm : x = P.master v
      · subst hxm
        simp [hx, ih]
      · by_cases hr : P.isReplica x v = true
        · simp [hxm, hr, ih, List.filter_cons, Ne.symm hxm]
          omega
        · have h0 := hf x (hlt x (List.mem_cons_self _ _)) (by simpa using hr)
          simp [hxm, hr, h0, ih, List.filter_cons, Ne.symm hxm]
  rw [key _ (List.nodup_range _) fun h => List.mem_range.mp,
    if_pos (List.mem_range.mpr (P.master_lt v))]
  rfl

/-- Counting over every host's stored out-edges of `v` counts each out-edge of `v` once. -/
theorem sum_countP_hosts (v : Nat) (q : Nat → Bool) :
    ((List.range P.numHosts).map fun h => ((P.localGraph h).edges v).countP q).sum =
      (G.edges v).countP q := by
  rw [← (P.edges_perm v).countP_eq, List.countP_flatMap]
  rfl

/-- The add-sync's fold of 32-bit sums. -/
theorem foldl_u32_add (x : Nat) (l : List Nat) :
    (l.map u32).foldl (fun a b => u32 (a + b)) (u32 x) = u32 (x + l.sum) := by
  induction l generalizing x with
  | nil => simp
  | cons b l ih =>
    have hb : u32 (u32 x + u32 b) = u32 (x + b) := by
      rw [u32_add_u32, Nat.add_comm, u32_add_u32, Nat.add_comm]
    rw [List.map_cons, List.foldl_cons, hb, ih, List.sum_cons, Nat.add_assoc]

theorem isDagEdge_congr {len len' : Nat → Nat} {v w : Nat} (hv : len' v = len v) (hw : len' w = len w) :
    IsDagEdge len' v w = IsDagEdge len v w := by
  rw [IsDagEdge, IsDagEdge, hv, hw]

/-- On one host, from a record without counts, `PredAndSucc::go` counts the host's DAG
edges out of and into `v` under any lengths its replicas agree with. -/
theorem predAndSucc_local (s : State) (S : Nat → State) {h v : Nat}
    (hlen : ∀ u < G.size, P.isReplica h u = true →
      ((S h).data u).currentLength = (s.data u).currentLength)
    (hz : ((S h).data v).numPredecessors = 0 ∧ ((S h).data v).numSuccessors = 0) :
    ((P.onHosts PredAndSucc.go S h).data v).numPredecessors =
        u32 (((P.localGraph h).edges v).countP (IsDagEdge s.lengths v)) ∧
      ((P.onHosts PredAndSucc.go S h).data v).numSuccessors =
        u32 ((P.localGraph h).succCountIn s.lengths (P.localGraph h).nodesWithEdges v) := by
  have hdag : ∀ u, ∀ w ∈ (P.localGraph h).edges u,
      IsDagEdge (S h).lengths u w = IsDagEdge s.lengths u w := fun u w hw =>
    isDagEdge_congr (hlen u (P.lt_size_of_mem_localGraph hw).1 (P.isReplica_of_mem_edges hw).1)
      (hlen w (P.lt_size_of_mem_localGraph hw).2 (P.isReplica_of_mem_edges hw).2)
  rw [onHosts, PredAndSucc.go_data v ⟨by rw [hz.1]; decide, by rw [hz.2]; decide⟩]
  refine ⟨?_, ?_⟩
  · simp only [PredAndSucc.bump, hz.1, Nat.zero_add, Graph.predCount]
    exact congrArg u32 (List.countP_congr fun w hw => by rw [hdag v w hw])
  · simp only [PredAndSucc.bump, hz.2, Nat.zero_add, Graph.succCountIn]
    refine congrArg u32 (congrArg List.sum (List.map_congr_left fun u _ =>
      List.countP_congr fun w hw => ?_))
    rw [hdag u w hw]

/-- Summing every host's count of stored DAG edges into `v` counts each edge into `v` once. -/
theorem sum_succCountIn_hosts (len : Nat → Nat) (v : Nat) :
    ((List.range P.numHosts).map fun h =>
        (P.localGraph h).succCountIn len (P.localGraph h).nodesWithEdges v).sum =
      G.succCountIn len G.nodesWithEdges v := by
  have hall : ∀ (H : Graph), H.succCountIn len H.nodesWithEdges v =
      ∑ u in Finset.range H.size, (H.edges u).countP fun x => x == v && IsDagEdge len u x :=
    fun H => Graph.sum_nodesWithEdges _ fun u hu => by simp [hu]
  simp only [hall, P.size_localGraph]
  show ∑ h in Finset.range P.numHosts, _ = _
  rw [Finset.sum_comm]
  exact Finset.sum_congr rfl fun u _ => P.sum_countP_hosts u _

/-- The add-sync of a `uint32_t` field totals the replicas' values on the master. -/
theorem get_reduced_add (X : Field Nat) (S : Nat → State) (v : Nat) (c : Nat → Nat)
    (hc : ∀ h, h = P.master v ∨ h ∈ P.mirrors v → X.get ((S h).data v) = u32 (c h))
    (h0 : ∀ h < P.numHosts, P.isReplica h v = false → c h = 0) :
    X.get (P.reduced (.ofField X (fun a b => u32 (a + b)) 0) S v) =
      u32 ((List.range P.numHosts).map c).sum := by
  have hm : ((P.mirrors v).map fun h => X.get ((S h).data v)) = ((P.mirrors v).map c).map u32 := by
    rw [List.map_map]; exact List.map_congr_left fun h hh => hc h (.inr hh)
  rw [get_reduced, hm, hc _ (.inl rfl), foldl_u32_add, P.sum_hosts v c h0]

/-- From replicas that hold the lengths of one state `s` and no counts, `PredAndSucc::go`
on every host and its two syncs leave every replica of `v` with the counts
`PredAndSucc::go` computes from `s` on one host, whatever the partition. -/
theorem predAndSucc_replica (s : State) (S : Nat → State)
    (hlen : ∀ h < P.numHosts, ∀ u < G.size, P.isReplica h u = true →
      ((S h).data u).currentLength = (s.data u).currentLength)
    (hzero : ∀ h < P.numHosts, ∀ u < G.size, P.isReplica h u = true →
      ((S h).data u).numPredecessors = 0 ∧ ((S h).data u).numSuccessors = 0)
    (hs : ∀ u < G.size, (s.data u).numPredecessors = 0 ∧ (s.data u).numSuccessors = 0)
    {h v : Nat} (hv : v < G.size) (hh : h = P.master v ∨ h ∈ P.mirrors v) :
    ((P.predAndSucc S h).data v).numPredecessors = ((PredAndSucc.go G s).data v).numPredecessors ∧
      ((P.predAndSucc S h).data v).numSuccessors = ((PredAndSucc.go G s).data v).numSuccessors := by
  let S₁ := P.onHosts PredAndSucc.go S
  have hloc : ∀ h', h' = P.master v ∨ h' ∈ P.mirrors v → _ := fun h' hh' =>
    P.predAndSucc_local s S (hlen h' (P.isReplica_of_replica hh').1)
      (hzero h' (P.isReplica_of_replica hh').1 v hv (P.isReplica_of_replica hh').2)
  -- off the replicas of `v` a host stores no edge out of or into `v`
  have hout : ∀ h' < P.numHosts, P.isReplica h' v = false →
      ((P.localGraph h').edges v).countP (IsDagEdge s.lengths v) = 0 := fun h' _ hr => by
    rw [P.edges_eq_nil_of_not_replica hr]; rfl
  have hin : ∀ h' < P.numHosts, P.isReplica h' v = false →
      (P.localGraph h').succCountIn s.lengths (P.localGraph h').nodesWithEdges v = 0 :=
    fun h' _ hr => List.sum_eq_zero fun n hn => by
      obtain ⟨u, -, rfl⟩ := List.mem_map.mp hn
      refine List.countP_eq_zero.mpr fun w hw hq => ?_
      simp only [Bool.and_eq_true, beq_iff_eq] at hq
      rw [← hq.1, (P.isReplica_of_mem_edges hw).2] at hr
      exact Bool.noConfusion hr
  have hsingle := PredAndSucc.go_data (G := G) v ⟨by rw [(hs v hv).1]; decide, by rw [(hs v hv).2]; decide⟩
  rw [predAndSucc]
  refine ⟨?_, ?_⟩
  · rw [sync_field (R := reduceAddNumSuccessors) (B := broadcastNumSuccessors) NodeData.numPredecessors
      (fun _ _ => rfl) (fun _ => rfl) (fun _ _ => rfl) h v]
    refine (get_sync_of_replica Field.numPredecessors _ _ hh).trans ?_
    rw [P.get_reduced_add Field.numPredecessors S₁ v _ (fun h' hh' => (hloc h' hh').1) hout,
      P.sum_countP_hosts, hsingle]
    simp [PredAndSucc.bump, (hs v hv).1, Graph.predCount]
  · refine (get_sync_of_replica Field.numSuccessors _ _ hh).trans ?_
    rw [P.get_reduced_add Field.numSuccessors _ v _ (fun h' hh' => ?_) hin,
      P.sum_succCountIn_hosts, hsingle]
    · simp [PredAndSucc.bump, (hs v hv).2]
    · exact (sync_field (R := reduceAddNumPredecessors) (B := broadcastNumPredecessors)
        NodeData.numSuccessors (fun _ _ => rfl) (fun _ => rfl) (fun _ _ => rfl) h' v).trans
        (hloc h' hh').2

end PredAndSucc

/-! ## The BFS on many hosts

Every host relaxes the edges it stores against its own replicas, and the `min`-sync
gives every replica the least length any replica of the vertex reached.  Only the
accumulator's bound needs the partition: the hosts' work adds up to at most the
number of stored edges. -/

section SSSP

open SSSP

variable {G : Graph} (P : Partition G)

/-- The masters' records as one state: the record of `v` is its master's. -/
def masters (S : Nat → State) : State := ⟨fun v => (S (P.master v)).data v, (S 0).asserts⟩

@[simp] theorem masters_data (S : Nat → State) (v : Nat) :
    (P.masters S).data v = (S (P.master v)).data v := rfl

theorem replica_of_isReplica {h v : Nat} (hh : h < P.numHosts) (hr : P.isReplica h v = true) :
    h = P.master v ∨ h ∈ P.mirrors v := by
  by_cases hm : h = P.master v
  · exact .inl hm
  · exact .inr (by simp [mirrors, hh, hm, hr])

/-- A host other than the master holds a replica only of vertices of the graph. -/
theorem lt_size_of_isReplica {h v : Nat} (hr : P.isReplica h v = true) (hm : h ≠ P.master v) :
    v < G.size := by
  simp only [isReplica, Bool.or_eq_true, beq_iff_eq, Bool.not_eq_true', List.isEmpty_eq_false,
    List.any_eq_true, List.mem_range, List.elem_iff, List.contains] at hr
  rcases hr with (hm' | hne) | ⟨u, -, hc⟩
  · exact absurd hm'.symm hm
  · exact P.size_localGraph h ▸ Graph.lt_size_of_edges_ne_nil hne
  · exact (P.lt_size_of_mem_localGraph (by simpa using hc)).2

theorem mem_edges_of_mem_localGraph {h u w : Nat} (hh : h < P.numHosts)
    (hw : w ∈ (P.localGraph h).edges u) : w ∈ G.edges u :=
  (P.edges_perm u).subset (List.mem_flatMap.mpr ⟨h, List.mem_range.mpr hh, hw⟩)

theorem exists_host_of_mem_edges {u w : Nat} (hw : w ∈ G.edges u) :
    ∃ h < P.numHosts, w ∈ (P.localGraph h).edges u := by
  obtain ⟨h, hh, hw⟩ := List.mem_flatMap.mp ((P.edges_perm u).symm.subset hw)
  exact ⟨h, List.mem_range.mp hh, hw⟩

/-- The hosts store the graph's edges between them. -/
theorem sum_numEdges_hosts :
    ((List.range P.numHosts).map fun h => (P.localGraph h).numEdges).sum = G.numEdges := by
  have hall : ∀ H : Graph, H.numEdges = ∑ u in Finset.range H.size, (H.edges u).length :=
    fun H => by rw [← Graph.sum_length_nodesWithEdges, Graph.sum_nodesWithEdges _ fun u hu => by simp [hu]]
  simp only [hall, P.size_localGraph]
  show ∑ h in Finset.range P.numHosts, _ = _
  rw [Finset.sum_comm]
  refine Finset.sum_congr rfl fun u _ => ?_
  simpa using P.sum_countP_hosts u fun _ => true

/-- The `min`-sync's reduced length is the least of the replicas' lengths. -/
theorem len_reduced_min (S : Nat → State) (v : Nat) :
    (∃ h, (h = P.master v ∨ h ∈ P.mirrors v) ∧
        (P.reduced reduceMinCurrentLength S v).currentLength = len (S h) v) ∧
      ∀ h, h = P.master v ∨ h ∈ P.mirrors v →
        (P.reduced reduceMinCurrentLength S v).currentLength ≤ len (S h) v := by
  have hred : (P.reduced reduceMinCurrentLength S v).currentLength =
      ((P.mirrors v).map fun h => len (S h) v).foldl min (len (S (P.master v)) v) :=
    get_reduced Field.currentLength min _
  obtain ⟨hmem, hle⟩ := List.min?_eq_some_iff'.mp
    (show ((P.master v :: P.mirrors v).map fun h => len (S h) v).min? = some _ from rfl)
  rw [← hred] at hmem hle
  obtain ⟨h, hh, heq⟩ := List.mem_map.mp hmem
  exact ⟨⟨h, List.mem_cons.mp hh, heq.symm⟩,
    fun h hh => hle _ (List.mem_map_of_mem _ (List.mem_cons.mpr hh))⟩

variable {sched : Nat → Nat → List Nat} {i t : Nat} {S : Nat → State}

theorem ssspRound_fst (sched : Nat → Nat → List Nat) (i : Nat) (S : Nat → State) :
    (P.ssspRound sched i S).1 = P.sync reduceMinCurrentLength broadcastCurrentLength
      fun h => (SSSP.body (P.localGraph h) (sched h) i (S h)).1 := rfl

theorem ssspRound_snd (sched : Nat → Nat → List Nat) (i : Nat) (S : Nat → State) :
    (P.ssspRound sched i S).2 =
      ((List.range P.numHosts).map fun h => (SSSP.body (P.localGraph h) (sched h) i (S h)).2).sum :=
  rfl

/-- A replica of `v` ends a round with at most what each replica reached in its superstep. -/
theorem len_ssspRound_le {h h' v : Nat} (hh : h = P.master v ∨ h ∈ P.mirrors v)
    (hh' : h' = P.master v ∨ h' ∈ P.mirrors v) :
    len ((P.ssspRound sched i S).1 h) v ≤ len (SSSP.body (P.localGraph h') (sched h') i (S h')).1 v := by
  rw [ssspRound_fst]
  exact (get_sync_of_replica Field.currentLength min _ hh).trans_le ((P.len_reduced_min _ v).2 h' hh')

/-- Every host ends a round with a length of `v` that some host reached in its superstep. -/
theorem exists_len_ssspRound (sched : Nat → Nat → List Nat) (i : Nat) (S : Nat → State) {h : Nat}
    (hh : h < P.numHosts) (v : Nat) :
    ∃ h' < P.numHosts, len ((P.ssspRound sched i S).1 h) v =
      len (SSSP.body (P.localGraph h') (sched h') i (S h')).1 v := by
  rw [ssspRound_fst]
  by_cases hr : h = P.master v ∨ h ∈ P.mirrors v
  · obtain ⟨h', hh', heq⟩ := (P.len_reduced_min _ v).1
    exact ⟨h', (P.isReplica_of_replica hh').1,
      (get_sync_of_replica Field.currentLength min _ hr).trans heq⟩
  · rw [not_or] at hr
    exact ⟨h, hh, congrArg NodeData.currentLength (sync_other hr.1 hr.2)⟩

/-- Two records that agree once their lengths are erased differ at most in the length. -/
theorem eq_with_currentLength {d e : NodeData}
    (h : ({ d with currentLength := 0 } : NodeData) = { e with currentLength := 0 }) :
    d = { e with currentLength := d.currentLength } := by
  cases d; cases e; cases h; rfl

/-- Only lengths change on a host through a round. -/
theorem lengthFrame_ssspRound (h : Nat) : LengthFrame (S h) ((P.ssspRound sched i S).1 h) :=
  (steps_frame (G := P.localGraph h) (sched h i) (S h, 0)).trans ⟨rfl, fun v =>
    eq_with_currentLength (sync_field (R := reduceMinCurrentLength) (B := broadcastCurrentLength)
      (S := fun h => (SSSP.body (P.localGraph h) (sched h) i (S h)).1)
      (fun d : NodeData => ({ d with currentLength := 0 } : NodeData))
      (fun _ _ => rfl) (fun _ => rfl) (fun _ _ => rfl) h v)⟩

/-- Between two BFS supersteps: every replica of a vertex holds its master's length, and
every host's lengths are sound for the whole graph. -/
structure Replicated (t : Nat) (S : Nat → State) : Prop where
  agree : ∀ h < P.numHosts, ∀ v, P.isReplica h v = true → len (S h) v = len (P.masters S) v
  sound : ∀ h < P.numHosts, Sound G t (S h)

variable {P}

theorem Replicated.sound_masters (hr : P.Replicated t S) : Sound G t (P.masters S) :=
  fun v hv => hr.sound (P.master v) (P.master_lt v) v hv

/-- Each host's superstep keeps its lengths sound for the whole graph. -/
theorem Replicated.sound_body (hr : P.Replicated t S) {h : Nat} (hh : h < P.numHosts) :
    Sound G t (SSSP.body (P.localGraph h) (sched h) i (S h)).1 :=
  steps_sound _ (hr.sound h hh) fun _ _ => P.mem_edges_of_mem_localGraph hh

/-- A round keeps every replica on its master's length and every host's lengths sound. -/
theorem Replicated.ssspRound (hr : P.Replicated t S) : P.Replicated t (P.ssspRound sched i S).1 where
  agree h hh v hv := P.agree_ssspRound sched i S (P.replica_of_isReplica hh hv)
  sound h hh v hv := by
    obtain ⟨h', hh', heq⟩ := P.exists_len_ssspRound sched i S hh v
    rw [heq]
    exact hr.sound_body hh' v hv

theorem len_masters_ssspRound_le (v : Nat) :
    len (P.masters (P.ssspRound sched i S).1) v ≤ len (P.masters S) v :=
  (P.len_ssspRound_le (.inl rfl) (.inl rfl)).trans (steps_len_le _ _ v)

/-- After a round each master is at most one hop above every neighbour's master from
before the round. -/
theorem Replicated.relax_ssspRound (hr : P.Replicated t S)
    (hsched : ∀ h u, (P.localGraph h).edges u ≠ [] → u ∈ sched h i) {v w : Nat}
    (hw : w ∈ G.edges v) : len (P.masters (P.ssspRound sched i S).1) v ≤ len (P.masters S) w + 1 := by
  obtain ⟨h, hh, hw⟩ := P.exists_host_of_mem_edges hw
  obtain ⟨hv, hw'⟩ := P.isReplica_of_mem_edges hw
  calc len (P.masters (P.ssspRound sched i S).1) v
      ≤ len (SSSP.body (P.localGraph h) (sched h) i (S h)).1 v :=
        P.len_ssspRound_le (.inl rfl) (P.replica_of_isReplica hh hv)
    _ ≤ len (S h) w + 1 :=
        steps_relax _ _ (fun u hu => (hr.sound h hh u (P.size_localGraph h ▸ hu)).1) v
          (hsched h v (List.ne_nil_of_mem hw)) w hw
    _ = len (P.masters S) w + 1 := by rw [hr.agree h hh w hw']

/-- A round's work is at most the number of stored edges. -/
theorem ssspRound_work_le (hsched : ∀ h, (sched h i).Perm (P.localGraph h).nodesWithEdges) :
    (P.ssspRound sched i S).2 ≤ G.numEdges := by
  rw [ssspRound_snd, ← P.sum_numEdges_hosts]
  refine List.sum_le_sum fun h _ => ?_
  obtain ⟨-, hle, -⟩ := steps_work (G := P.localGraph h) (sched h i) (S h, 0)
  rwa [((hsched h).map _).sum_eq, Graph.sum_length_nodesWithEdges, Nat.zero_add] at hle

/-- In a round without work no host's superstep changes anything. -/
theorem body_of_ssspRound_eq_zero (h0 : (P.ssspRound sched i S).2 = 0) {h : Nat}
    (hh : h < P.numHosts) : (SSSP.body (P.localGraph h) (sched h) i (S h)).1 = S h := by
  rw [ssspRound_snd] at h0
  have hle := List.le_sum_of_mem (List.mem_map_of_mem
    (fun h => (SSSP.body (P.localGraph h) (sched h) i (S h)).2) (List.mem_range.mpr hh))
  rw [h0] at hle
  exact (steps_work (G := P.localGraph h) (sched h i) (S h, 0)).2.2 (Nat.le_zero.mp hle)

/-- After a round without work the masters' lengths are those from before. -/
theorem Replicated.masters_ssspRound_of_eq_zero (hr : P.Replicated t S)
    (h0 : (P.ssspRound sched i S).2 = 0) (v : Nat) :
    len (P.masters (P.ssspRound sched i S).1) v = len (P.masters S) v := by
  obtain ⟨h, hh, heq⟩ := (P.len_reduced_min (fun h => (SSSP.body (P.localGraph h) (sched h) i (S h)).1) v).1
  obtain ⟨hlt, hrep⟩ := P.isReplica_of_replica hh
  calc len (P.masters (P.ssspRound sched i S).1) v
      = len (SSSP.body (P.localGraph h) (sched h) i (S h)).1 v := by
        rw [ssspRound_fst]; exact (get_sync_of_replica Field.currentLength min _ (.inl rfl)).trans heq
    _ = len (S h) v := by rw [P.body_of_ssspRound_eq_zero h0 hlt]
    _ = len (P.masters S) v := hr.agree h hlt v hrep

/-- Once the masters are exact, a round finds no edge to lower on any host. -/
theorem Replicated.ssspRound_eq_zero (hr : P.Replicated t S) (hn : G.size ≤ infinity)
    (he : Exact G t (P.masters S)) : (P.ssspRound sched i S).2 = 0 := by
  rw [ssspRound_snd]
  refine List.sum_eq_zero fun n hn' => ?_
  obtain ⟨h, hh, rfl⟩ := List.mem_map.mp hn'
  have hh := List.mem_range.mp hh
  have hstable : ∀ v ∈ sched h i, ∀ w ∈ (P.localGraph h).edges v,
      len (S h) v ≤ u32 (1 + len (S h) w) := fun v _ w hw => by
    obtain ⟨hv, hw'⟩ := P.isReplica_of_mem_edges hw
    rw [hr.agree h hh v hv, hr.agree h hh w hw']
    exact he.stable hn (P.mem_edges_of_mem_localGraph hh hw)
  show ((sched h i).foldl (operator (P.localGraph h)) (S h, 0)).2 = 0
  rw [steps_stable _ _ hstable]

/-! ### Whole runs -/

theorem Replicated.rounds (hr : P.Replicated t S) (k : Nat) :
    P.Replicated t (runRounds (P.ssspRound sched) S k) := by
  induction k with
  | zero => exact hr
  | succ k ih => exact ih.ssspRound

theorem len_masters_runRounds_le (k v : Nat) :
    len (P.masters (runRounds (P.ssspRound sched) S k)) v ≤ len (P.masters S) v := by
  induction k with
  | zero => exact Nat.le_refl _
  | succ k ih => exact (P.len_masters_ssspRound_le v).trans ih

theorem lengthFrame_runRounds (k h : Nat) :
    LengthFrame (S h) (runRounds (P.ssspRound sched) S k h) := by
  induction k with
  | zero => exact LengthFrame.refl _
  | succ k ih => exact ih.trans (P.lengthFrame_ssspRound h)

/-- After `k` rounds, whatever the hosts' orders, every master at most `k` hops from the
source holds its distance. -/
theorem Replicated.exactUpTo_masters (hr : P.Replicated t S)
    (hsched : ∀ h i u, (P.localGraph h).edges u ≠ [] → u ∈ sched h i) (hn : G.size ≤ infinity)
    (ht : t < G.size → len (P.masters S) t = 0) (k : Nat) :
    ExactUpTo G t k (P.masters (runRounds (P.ssspRound sched) S k)) := by
  induction k with
  | zero => exact exactUpTo_zero ht
  | succ k ih =>
    exact ih.succ (hr.rounds (k + 1)).sound_masters hn (P.len_masters_ssspRound_le)
      fun v w hw => (hr.rounds k).relax_ssspRound (fun h => hsched h k) hw

variable (P)

/-- `InitializeIteration::go` on every host leaves the replicas agreeing and every host's
lengths sound. -/
theorem replicated_initializeIteration (t : Nat) (S₀ : Nat → State) :
    P.Replicated t (P.onHosts (fun G => InitializeIteration.go G t) S₀) where
  agree h hh v hv := by
    by_cases hm : h = P.master v
    · subst hm; rfl
    · have hvs := P.lt_size_of_isReplica hv hm
      simp [len, onHosts, InitializeIteration.go_data_of_lt, P.size_localGraph, hvs]
  sound h hh := (sound_initializeIteration (P.localGraph h) t (S₀ h)).mono (P.size_localGraph h)
    fun _ _ => P.mem_edges_of_mem_localGraph hh

theorem len_masters_initializeIteration (t : Nat) (S₀ : Nat → State) (ht : t < G.size) :
    len (P.masters (P.onHosts (fun G => InitializeIteration.go G t) S₀)) t = 0 := by
  simp [len, onHosts, InitializeIteration.go_data_of_lt, P.size_localGraph, ht]

/-- Whenever the BFS on every host returns from `InitializeIteration::go`, on a graph with
fewer than `2 ^ 32` edges, the masters are exact, every replica holds its master's length,
and nothing but the lengths has changed: a round without work changed nothing. -/
theorem exact_of_sssp (hn : G.size ≤ infinity) (hm : G.numEdges < 2 ^ 32) {t : Nat}
    (hsched : ∀ h i, (sched h i).Perm (P.localGraph h).nodesWithEdges) {S₀ S' : Nat → State}
    {fuel k : Nat} (hgo : P.sssp sched fuel (P.onHosts (fun G => InitializeIteration.go G t) S₀) =
      some (S', k)) :
    Exact G t (P.masters S') ∧ P.Replicated t S' ∧
      ∀ h, LengthFrame (P.onHosts (fun G => InitializeIteration.go G t) S₀ h) (S' h) := by
  set S := P.onHosts (fun G => InitializeIteration.go G t) S₀
  have hr := P.replicated_initializeIteration t S₀
  obtain ⟨j, -, hr', hstop⟩ := doWhile_eq_some (s := S) (i := 0) hgo
  obtain rfl : S' = runRounds (P.ssspRound sched) S (j + 1) := congrArg Prod.fst hr'
  have hrj : P.Replicated t (runRounds (P.ssspRound sched) S j) := hr.rounds j
  have hzero : (P.ssspRound sched j (runRounds (P.ssspRound sched) S j)).2 = 0 := by
    rw [← u32_of_lt ((P.ssspRound_work_le fun h => hsched h j).trans_lt hm)]
    exact hstop
  refine ⟨exact_of_fixpoint (hr.rounds (j + 1)).sound_masters hn (fun ht => ?_) fun v _ w hw => ?_,
    hr.rounds (j + 1), fun h => P.lengthFrame_runRounds (j + 1) h⟩
  · exact Nat.le_antisymm ((P.len_masters_runRounds_le (j + 1) t).trans
      (P.len_masters_initializeIteration t S₀ ht).le) (Nat.zero_le _)
  · have := hrj.relax_ssspRound
      (fun h u hu => (hsched h j).mem_iff.mpr (Graph.mem_nodesWithEdges.mpr hu)) hw
    rwa [← hrj.masters_ssspRound_of_eq_zero hzero w] at this

/-- The BFS on every host from `InitializeIteration::go` stops after at most `D + 1`
rounds, `D` bounding the finite distances: by then the masters are exact and no host
lowers anything. -/
theorem sssp_eq_some (hn : G.size ≤ infinity) (t : Nat)
    (hsched : ∀ h i, (sched h i).Perm (P.localGraph h).nodesWithEdges) (S₀ : Nat → State) {D : Nat}
    (hD : ∀ v < G.size, ∀ d, IsDist G t v d → d ≤ D) {fuel : Nat} (hfuel : D < fuel) :
    ∃ S' k, P.sssp sched fuel (P.onHosts (fun G => InitializeIteration.go G t) S₀) = some (S', k) ∧
      k ≤ D + 1 := by
  set S := P.onHosts (fun G => InitializeIteration.go G t) S₀
  have hr := P.replicated_initializeIteration t S₀
  have hexD : Exact G t (P.masters (runRounds (P.ssspRound sched) S D)) := fun v hv =>
    ⟨fun d hd => hr.exactUpTo_masters
        (fun h i u hu => (hsched h i).mem_iff.mpr (Graph.mem_nodesWithEdges.mpr hu)) hn
        (P.len_masters_initializeIteration t S₀) D v hv d (hD v hv d hd) hd,
      (hr.rounds D).sound_masters.len_of_unreachable hv⟩
  have hstopD : u32 (P.ssspRound sched D (runRounds (P.ssspRound sched) S D)).2 = 0 := by
    rw [(hr.rounds D).ssspRound_eq_zero hn hexD]
    rfl
  obtain ⟨k, -, hgo, -, hmin⟩ := doWhile_of_exists_stop S ⟨D, hfuel, hstopD⟩
  exact ⟨_, _, hgo, Nat.succ_le_succ (Nat.le_of_not_lt fun h => hmin D h hstopD)⟩

/-- **The BFS on many hosts.** On any partition of a graph with fewer than `2 ^ 32` edges,
whatever order each host processes its vertices in, `SSSP::go` on every host with the
`min`-sync of `current_length` stops after at most `D + 1` rounds, `D` bounding the finite
distances, with every master holding its vertex's hop distance to the source, or `infinity`
when it cannot reach it, every replica holding its master's length, and nothing but the
lengths changed on any host. -/
theorem sssp_correct (hn : G.size ≤ infinity) (hm : G.numEdges < 2 ^ 32) (t : Nat)
    (sched : Nat → Nat → List Nat) (hsched : ∀ h i, (sched h i).Perm (P.localGraph h).nodesWithEdges)
    (S₀ : Nat → State) (D : Nat) (hD : ∀ v < G.size, ∀ d, IsDist G t v d → d ≤ D)
    (fuel : Nat) (hfuel : D < fuel) :
    ∃ S' k, P.sssp sched fuel (P.onHosts (fun G => InitializeIteration.go G t) S₀) = some (S', k) ∧
      k ≤ D + 1 ∧ Exact G t (P.masters S') ∧
      (∀ h < P.numHosts, ∀ v, P.isReplica h v = true → len (S' h) v = len (P.masters S') v) ∧
      ∀ h, LengthFrame (P.onHosts (fun G => InitializeIteration.go G t) S₀ h) (S' h) := by
  obtain ⟨S', k, hgo, hk⟩ := P.sssp_eq_some hn t hsched S₀ hD hfuel
  obtain ⟨hex, hr, hframe⟩ := P.exact_of_sssp hn hm hsched hgo
  exact ⟨S', k, hgo, hk, hex, hr.agree, hframe⟩

/-- The BFS from `0` on `unevenForkSplit`'s two hosts from `InitializeGraph`. -/
theorem sssp_correct_unevenForkSplit :
    ∃ S' k, unevenForkSplit.sssp (fun h _ => (unevenForkSplit.localGraph h).nodesWithEdges) 8
        (unevenForkSplit.onHosts (fun G => InitializeIteration.go G 0) unevenForkSplit.start) =
        some (S', k) ∧
      k ≤ 7 + 1 ∧ Exact unevenFork 0 (unevenForkSplit.masters S') ∧
      (∀ h < unevenForkSplit.numHosts, ∀ v, unevenForkSplit.isReplica h v = true →
        len (S' h) v = len (unevenForkSplit.masters S') v) ∧
      ∀ h, LengthFrame (unevenForkSplit.onHosts (fun G => InitializeIteration.go G 0)
        unevenForkSplit.start h) (S' h) :=
  unevenForkSplit.sssp_correct (by decide) (by decide) 0 _ (fun _ _ => List.Perm.refl _) _ 7
    (fun _ hv _ hd => (hd.lt_size hv).le) 8 (by decide)

end SSSP

/-! ## Both phases -/

section Phases

open SSSP

variable {G : Graph} (P : Partition G)

/-- `InitializeIteration::go` zeroes `num_successors` and keeps `num_predecessors`: records
that differ from what it leaves at most in their lengths hold no counts when the records
it started from held no predecessors. -/
theorem counts_of_lengthFrame {H : Graph} {t : Nat} {s₀ s : State}
    (hf : LengthFrame (InitializeIteration.go H t s₀) s) {u : Nat} (hu : u < H.size)
    (hp : (s₀.data u).numPredecessors = 0) :
    (s.data u).numPredecessors = 0 ∧ (s.data u).numSuccessors = 0 := by
  rw [hf.2 u]
  simp [InitializeIteration.go_data_of_lt hu, hp]

/-- **The first two phases on many hosts.** On any partition of a graph with fewer than
`2 ^ 32` edges, the BFS and `PredAndSucc::go` on every host with their syncs leave every
replica of every vertex with the length and both counts that `SSSP::go` and
`PredAndSucc::go` leave on one host, whatever order each host and the single host
process their vertices in, provided every replica and the single host's records enter the
iteration without predecessors, as the assertions of lines 216 and 217 require. -/
theorem predAndSucc_sssp_replica (hn : G.size ≤ infinity) (hm : G.numEdges < 2 ^ 32) (t : Nat)
    (sched : Nat → Nat → List Nat) (hsched : ∀ h i, (sched h i).Perm (P.localGraph h).nodesWithEdges)
    (sched₁ : Nat → List Nat) (hsched₁ : ∀ i, (sched₁ i).Perm G.nodesWithEdges)
    (S₀ : Nat → State) (s₀ : State)
    (hS₀ : ∀ h < P.numHosts, ∀ u < G.size, P.isReplica h u = true → ((S₀ h).data u).numPredecessors = 0)
    (hs₀ : ∀ u < G.size, (s₀.data u).numPredecessors = 0)
    (D : Nat) (hD : ∀ v < G.size, ∀ d, IsDist G t v d → d ≤ D) (fuel : Nat) (hfuel : D < fuel) :
    ∃ S' k s' k', P.sssp sched fuel (P.onHosts (fun G => InitializeIteration.go G t) S₀) =
        some (S', k) ∧ SSSP.go G sched₁ fuel (InitializeIteration.go G t s₀) = some (s', k') ∧
      ∀ h v, v < G.size → (h = P.master v ∨ h ∈ P.mirrors v) →
        len (P.predAndSucc S' h) v = len (PredAndSucc.go G s') v ∧
        ((P.predAndSucc S' h).data v).numPredecessors =
          ((PredAndSucc.go G s').data v).numPredecessors ∧
        ((P.predAndSucc S' h).data v).numSuccessors = ((PredAndSucc.go G s').data v).numSuccessors := by
  obtain ⟨S', k, hgo, -⟩ := P.sssp_eq_some hn t hsched S₀ hD hfuel
  obtain ⟨hex, hrep, hframe⟩ := P.exact_of_sssp hn hm hsched hgo
  obtain ⟨s', k', hgo', -⟩ := go_eq_some G hn t hsched₁ s₀ hD hfuel
  obtain ⟨hex', hframe'⟩ := exact_of_go hn hm hsched₁ hgo'
  have hlen : ∀ h < P.numHosts, ∀ u < G.size, P.isReplica h u = true → len (S' h) u = len s' u :=
    fun h hh u hu hr => (hrep.agree h hh u hr).trans (hex.len_eq hex' hu)
  have hzero : ∀ h < P.numHosts, ∀ u < G.size, P.isReplica h u = true →
      ((S' h).data u).numPredecessors = 0 ∧ ((S' h).data u).numSuccessors = 0 :=
    fun h hh u hu hr =>
      counts_of_lengthFrame (hframe h) ((P.size_localGraph h).symm ▸ hu) (hS₀ h hh u hu hr)
  refine ⟨S', k, s', k', hgo, hgo', fun h v hv hh => ⟨?_, P.predAndSucc_replica s' S' hlen hzero
    (fun u hu => counts_of_lengthFrame hframe' hu (hs₀ u hu)) hv hh⟩⟩
  have hkeep : len (P.predAndSucc S' h) v = len (S' h) v :=
    (sync_field (R := reduceAddNumSuccessors) (B := broadcastNumSuccessors) NodeData.currentLength
      (fun _ _ => rfl) (fun _ => rfl) (fun _ _ => rfl) h v).trans
    ((sync_field (R := reduceAddNumPredecessors) (B := broadcastNumPredecessors) NodeData.currentLength
      (fun _ _ => rfl) (fun _ => rfl) (fun _ _ => rfl) h v).trans (congrFun PredAndSucc.go_lengths v))
  rw [hkeep, hlen h (P.isReplica_of_replica hh).1 v hv (P.isReplica_of_replica hh).2]
  exact (congrFun PredAndSucc.go_lengths v).symm

/-- The first two phases from `0` on `unevenForkSplit`'s two hosts and on one host, from
`InitializeGraph`. -/
theorem predAndSucc_sssp_replica_unevenForkSplit :
    ∃ S' k s' k', unevenForkSplit.sssp (fun h _ => (unevenForkSplit.localGraph h).nodesWithEdges) 8
        (unevenForkSplit.onHosts (fun G => InitializeIteration.go G 0) unevenForkSplit.start) =
        some (S', k) ∧
      SSSP.go unevenFork (fun _ => unevenFork.nodesWithEdges) 8
        (InitializeIteration.go unevenFork 0 (InitializeGraph.go unevenFork State.zero)) =
        some (s', k') ∧
      ∀ h v, v < unevenFork.size → (h = unevenForkSplit.master v ∨ h ∈ unevenForkSplit.mirrors v) →
        len (unevenForkSplit.predAndSucc S' h) v = len (PredAndSucc.go unevenFork s') v ∧
        ((unevenForkSplit.predAndSucc S' h).data v).numPredecessors =
          ((PredAndSucc.go unevenFork s').data v).numPredecessors ∧
        ((unevenForkSplit.predAndSucc S' h).data v).numSuccessors =
          ((PredAndSucc.go unevenFork s').data v).numSuccessors :=
  unevenForkSplit.predAndSucc_sssp_replica (by decide) (by decide) 0 _ (fun _ _ => List.Perm.refl _) _
    (fun _ => List.Perm.refl _) _ _ (by decide) (by decide) 7 (fun _ hv _ hd => (hd.lt_size hv).le) 8
    (by decide)

end Phases

end Partition

end DistGalois.BcPull
