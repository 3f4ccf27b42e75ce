import DistGalois.BcPull.Sync

/-!
# `BC::go` on many hosts

Every host runs each phase's operators over its own replicas and edges, exactly
as `BC::go` does on one host, and the phases exchange values only through the
syncs `gen.cpp` compiles between their loops (versions 1 to 4 of
`__OPT_VERSION__`): `min` of `current_length` after each BFS superstep, the
sums of both counts after `PredAndSucc`, of `trim` and `to_add` after each
σ superstep and of `trim2` and `to_add_float` after each δ superstep.  Each
`do … while` loop continues while the hosts' work, added up by the
`DGAccumulator<uint32_t>`, is non-zero.

The versions differ only in the δ phase's `trim2` sync: versions 1 and 2
broadcast `trim2`, versions 3 and 4 broadcast `trim` (lines 795-806).

Main results:

* `go_single` — on one host the bulk-synchronous execution is `BC::go`'s, under
  every version;
* `agree_ssspRound`, `agree_predAndSucc` — the syncs of one field leave every
  replica with the master's value;
* `go_version` — versions with the same δ-phase broadcast run alike, so versions 1
  and 2 behave as one, and so do 3 and 4;
* `dependencyPropogation_mirror` — in versions 3 and 4 no δ round changes a
  mirror's `num_successors`, so a mirror that enters the δ phase with successors
  left never takes the token, and the edges its host stores are never pushed;
* `bc_unevenForkSplit` — on a seven-vertex graph split over two hosts the master
  of vertex `1` ends with centrality `0` under every version, where `BC::go` on
  one host leaves `2`.
-/

namespace DistGalois.BcPull

/-- The `Broadcast_…` paired with `Reduce_add_trim2` in the δ phase under
`__OPT_VERSION__` `optVersion` (lines 795-806). -/
def dpBroadcast (optVersion : Nat) : NodeData → NodeData → NodeData :=
  if optVersion ≤ 2 then broadcastTrim2 else broadcastTrim

namespace Partition

variable {G : Graph} (P : Partition G)

/-- Every host runs `f` over its own replicas and edges. -/
def onHosts (f : Graph → State → State) (S : Nat → State) : Nat → State :=
  fun h => f (P.localGraph h) (S h)

@[simp] theorem onHosts_apply (f : Graph → State → State) (S : Nat → State) (h : Nat) :
    P.onHosts f S h = f (P.localGraph h) (S h) := rfl

/-- Every host `h` runs its superstep `f h`; the `DGAccumulator` adds up the hosts' work. -/
def superstep (f : Nat → State → State × Nat) (S : Nat → State) : (Nat → State) × Nat :=
  (fun h => (f h (S h)).1, ((List.range P.numHosts).map fun h => (f h (S h)).2).sum)

/-- Round `i` of `SSSP::go`, host `h` ordering its operators by `sched h i`. -/
def ssspRound (sched : Nat → Nat → List Nat) (i : Nat) (S : Nat → State) :
    (Nat → State) × Nat :=
  let r := P.superstep (fun h => SSSP.body (P.localGraph h) (sched h) i) S
  (P.sync reduceMinCurrentLength broadcastCurrentLength r.1, r.2)

/-- `SSSP::go` on every host. -/
def sssp (sched : Nat → Nat → List Nat) (fuel : Nat) (S : Nat → State) :
    Option ((Nat → State) × Nat) :=
  doWhile (P.ssspRound sched) fuel 0 S

/-- `PredAndSucc::go` on every host, then the syncs of both counts. -/
def predAndSucc (S : Nat → State) : Nat → State :=
  P.sync reduceAddNumSuccessors broadcastNumSuccessors
    (P.sync reduceAddNumPredecessors broadcastNumPredecessors (P.onHosts PredAndSucc.go S))

/-- One round of `NumShortestPaths::go`. -/
def nspRound (_ : Nat) (S : Nat → State) : (Nat → State) × Nat :=
  let r := P.superstep (fun h =>
    NumShortestPaths.superstep (P.localGraph h) (P.localGraph h).nodesWithEdges) S
  (P.onHosts NumShortestPathsChanges.go (P.onHosts NSPAdd.go (P.sync reduceAddToAdd broadcastToAdd
    (P.onHosts NSPTrim.go (P.sync reduceAddTrim broadcastTrim r.1)))), r.2)

/-- `NumShortestPaths::go` on every host. -/
def numShortestPaths (fuel : Nat) (S : Nat → State) : Option ((Nat → State) × Nat) :=
  doWhile P.nspRound fuel 0 S

/-- One round of `DependencyPropogation::go` while `cur` is the current source. -/
def dpRound (optVersion cur : Nat) (_ : Nat) (S : Nat → State) : (Nat → State) × Nat :=
  let r := P.superstep (fun h =>
    DependencyPropogation.superstep (P.localGraph h) cur (P.localGraph h).nodesWithEdges) S
  (P.onHosts DependencyPropChanges.go (P.onHosts DPAdd.go
    (P.sync reduceAddToAddFloat broadcastToAddFloat
      (P.onHosts DPTrim.go (P.sync reduceAddTrim2 (dpBroadcast optVersion) r.1)))), r.2)

/-- `DependencyPropogation::go` on every host. -/
def dependencyPropogation (optVersion cur fuel : Nat) (S : Nat → State) :
    Option ((Nat → State) × Nat) :=
  doWhile (P.dpRound optVersion cur) fuel 0 S

/-- One iteration of `BC::go`'s loop for the source `src` on every host. -/
def iteration (optVersion : Nat) (sched : Nat → Nat → List Nat) (fuel src : Nat)
    (S : Nat → State) : Option (Nat → State) := do
  let (S, _) ← P.sssp sched fuel (P.onHosts (fun G => InitializeIteration.go G src) S)
  let (S, _) ← P.numShortestPaths fuel (P.predAndSucc S)
  let (S, _) ← P.dependencyPropogation optVersion src fuel S
  pure (P.onHosts (fun G => doAll G fun _ => BC.operator) S)

/-- `BC::go`'s loop over the sources on every host, the BFS supersteps of the `i`-th
source on host `h` ordered by `sched i h`. -/
def loop (optVersion : Nat) (sched : Nat → Nat → Nat → List Nat) (fuel : Nat) :
    Nat → List Nat → (Nat → State) → Option (Nat → State)
  | _, [], S => some S
  | i, src :: rest, S =>
    (P.iteration optVersion (sched i) fuel src S).bind (loop optVersion sched fuel (i + 1) rest)

/-- `BC::go` on every host. -/
def go (optVersion : Nat) (cfg : BC.Config) (randomSources : List Nat)
    (sched : Nat → Nat → Nat → List Nat) (fuel : Nat) (S : Nat → State) : Option (Nat → State) :=
  (BC.sources cfg.singleSourceBC cfg.startSource cfg.numberOfSources G.size randomSources).bind
    fun srcs => P.loop optVersion sched fuel 0 srcs S

/-- Every host after `InitializeGraph::go` on zero-initialised records. -/
def start : Nat → State := fun h => InitializeGraph.go (P.localGraph h) State.zero

/-- `main`'s run loop (lines 1171-1232) on every host after the first
`InitializeGraph::go`: `BC::go`, the sanity check (which writes no vertex data), and
`InitializeGraph::go` on every host before every run but the first. -/
def mainRuns (optVersion : Nat) (cfg : BC.Config) (randomSources : List Nat)
    (sched : Nat → Nat → Nat → List Nat) (fuel : Nat) : Nat → (Nat → State) → Option (Nat → State)
  | 0, S => some S
  | 1, S => P.go optVersion cfg randomSources sched fuel S
  | k + 2, S => (P.go optVersion cfg randomSources sched fuel S).bind fun S =>
      mainRuns optVersion cfg randomSources sched fuel (k + 1) (P.onHosts InitializeGraph.go S)

/-! ## One host

With a single host there are no mirrors, every sync is the identity and each
phase is the single-host phase. -/

section Single

variable {G : Graph}

@[simp] theorem localGraph_single (h : Nat) : (single G).localGraph h = G := rfl

@[simp] theorem onHosts_single (f : Graph → State → State) (s : State) :
    (single G).onHosts f (fun _ => s) = fun _ => f G s := rfl

theorem superstep_single (f : State → State × Nat) (s : State) :
    (single G).superstep (fun _ => f) (fun _ => s) = (fun _ => (f s).1, (f s).2) := by
  simp [superstep, single, List.range_succ]

theorem ssspRound_single (sched : Nat → List Nat) (i : Nat) (s : State) :
    (single G).ssspRound (fun _ => sched) i (fun _ => s) =
      (fun _ => (SSSP.body G sched i s).1, (SSSP.body G sched i s).2) := by
  simp only [ssspRound, localGraph_single, superstep_single, sync_single]

theorem nspRound_single (i : Nat) (s : State) :
    (single G).nspRound i (fun _ => s) =
      (fun _ => (NumShortestPaths.body G i s).1, (NumShortestPaths.body G i s).2) := by
  simp only [nspRound, localGraph_single, superstep_single, sync_single, onHosts_single,
    NumShortestPaths.body]

theorem dpRound_single (optVersion cur i : Nat) (s : State) :
    (single G).dpRound optVersion cur i (fun _ => s) =
      (fun _ => (DependencyPropogation.body G cur i s).1, (DependencyPropogation.body G cur i s).2) := by
  simp only [dpRound, localGraph_single, superstep_single, sync_single, onHosts_single,
    DependencyPropogation.body]

theorem iteration_single (optVersion : Nat) (sched : Nat → List Nat) (fuel src : Nat) (s : State) :
    (single G).iteration optVersion (fun _ => sched) fuel src (fun _ => s) =
      (BC.iteration G sched fuel src s).map fun s _ => s := by
  have hsssp := doWhile_map (fun s _ => s) (ssspRound_single (G := G) sched) fuel 0
  have hnsp := doWhile_map (fun s _ => s) (nspRound_single (G := G)) fuel 0
  have hdp := doWhile_map (fun s _ => s) (dpRound_single (G := G) optVersion src) fuel 0
  simp only [iteration, BC.iteration, sssp, numShortestPaths, dependencyPropogation, SSSP.go,
    NumShortestPaths.go, DependencyPropogation.go, onHosts_single, Option.bind_eq_bind]
  rw [hsssp]
  rcases doWhile (SSSP.body G sched) fuel 0 (InitializeIteration.go G src s) with _ | ⟨s₁, k₁⟩
  · rfl
  simp only [Option.map_some', Prod.map, Option.some_bind, id, predAndSucc, onHosts_single,
    sync_single]
  rw [hnsp]
  rcases doWhile (NumShortestPaths.body G) fuel 0 (PredAndSucc.go G s₁) with _ | ⟨s₂, k₂⟩
  · rfl
  simp only [Option.map_some', Prod.map, Option.some_bind, id]
  rw [hdp]
  rcases doWhile (DependencyPropogation.body G src) fuel 0 s₂ with _ | ⟨s₃, k₃⟩
  · rfl
  rfl

theorem loop_single (optVersion : Nat) (sched : Nat → Nat → List Nat) (fuel : Nat)
    (srcs : List Nat) (i : Nat) (s : State) :
    (single G).loop optVersion (fun i _ => sched i) fuel i srcs (fun _ => s) =
      (BC.loop G sched fuel i srcs s).map fun s _ => s := by
  induction srcs generalizing i s with
  | nil => rfl
  | cons src rest ih =>
    simp only [loop, BC.loop, iteration_single]
    rcases BC.iteration G (sched i) fuel src s with _ | s'
    · rfl
    · exact ih (i + 1) s'

/-- On one host the bulk-synchronous execution of `BC::go` is the single-host one, under
every version: each host-`0` record is the single-host record. -/
theorem go_single (optVersion : Nat) (cfg : BC.Config) (randomSources : List Nat)
    (sched : Nat → Nat → List Nat) (fuel : Nat) (s : State) :
    (single G).go optVersion cfg randomSources (fun i _ => sched i) fuel (fun _ => s) =
      (BC.go G cfg randomSources sched fuel s).map fun s _ => s := by
  simp only [go, BC.go]
  rcases BC.sources cfg.singleSourceBC cfg.startSource cfg.numberOfSources G.size randomSources
    with _ | srcs
  · rfl
  · exact loop_single optVersion sched fuel srcs 0 s

end Single

/-! ## Replicas after a sync of one field -/

section Agree

variable {G : Graph} (P : Partition G)

/-- After every BFS round each replica of `v` holds the master's length. -/
theorem agree_ssspRound (sched : Nat → Nat → List Nat) (i : Nat) (S : Nat → State) {h v : Nat}
    (hh : h = P.master v ∨ h ∈ P.mirrors v) :
    (((P.ssspRound sched i S).1 h).data v).currentLength =
      (((P.ssspRound sched i S).1 (P.master v)).data v).currentLength :=
  (get_sync_of_replica Field.currentLength min _ hh).trans
    (get_sync_of_replica Field.currentLength min _ (.inl rfl)).symm

/-- After `PredAndSucc::go` each replica of `v` holds the master's two counts. -/
theorem agree_predAndSucc (S : Nat → State) {h v : Nat} (hh : h = P.master v ∨ h ∈ P.mirrors v) :
    ((P.predAndSucc S h).data v).numPredecessors =
        ((P.predAndSucc S (P.master v)).data v).numPredecessors ∧
      ((P.predAndSucc S h).data v).numSuccessors =
        ((P.predAndSucc S (P.master v)).data v).numSuccessors := by
  have hpred : ∀ h, ((P.predAndSucc S h).data v).numPredecessors =
      ((P.sync reduceAddNumPredecessors broadcastNumPredecessors
        (P.onHosts PredAndSucc.go S) h).data v).numPredecessors := fun h =>
    sync_field (R := reduceAddNumSuccessors) (B := broadcastNumSuccessors) NodeData.numPredecessors
      (fun _ _ => rfl) (fun _ => rfl) (fun _ _ => rfl) h v
  refine ⟨?_, (get_sync_of_replica Field.numSuccessors _ _ hh).trans
    (get_sync_of_replica Field.numSuccessors _ _ (.inl rfl)).symm⟩
  rw [hpred, hpred]
  exact (get_sync_of_replica Field.numPredecessors _ _ hh).trans
    (get_sync_of_replica Field.numPredecessors _ _ (.inl rfl)).symm

end Agree

/-! ## Mirrors in the δ phase of versions 3 and 4

`Reduce_add_trim2` returns every mirror's `trim2` to `0`, and `Broadcast_trim`
copies the master's `trim`, not its `trim2`: `DPTrim` then finds nothing to
subtract on a mirror, so a mirror's `num_successors` stays at the count
`PredAndSucc` left, and `DependencyPropChanges` never hands it the token. -/

section Mirror

variable {G : Graph} (P : Partition G) {optVersion : Nat}

/-- In versions 3 and 4 a mirror leaves the `trim2` sync with `trim2 = 0`, and `DPTrim`
leaves it there. -/
theorem dpTrim_sync_mirror (hv : 2 < optVersion) (S : Nat → State) {h v : Nat}
    (hm : h ∈ P.mirrors v) :
    (P.onHosts DPTrim.go (P.sync reduceAddTrim2 (dpBroadcast optVersion) S) h).data v =
      { (S h).data v with trim2 := 0, trim := (P.reduced reduceAddTrim2 S v).trim } := by
  have hs : (P.sync reduceAddTrim2 (dpBroadcast optVersion) S h).data v =
      { (S h).data v with trim2 := 0, trim := (P.reduced reduceAddTrim2 S v).trim } := by
    rw [sync_mirror hm, dpBroadcast, if_neg (by omega)]; rfl
  by_cases hlt : v < (P.localGraph h).size
  · rw [onHosts, DPTrim.go, doAll_data_of_lt hlt, hs]; rfl
  · rw [onHosts, DPTrim.go, doAll_data_of_le (Nat.le_of_not_lt hlt), hs]

/-- The push superstep keeps every successor count and only ever clears a token. -/
theorem superstep_token (G : Graph) (cur : Nat) (S : State) (v : Nat) :
    ((DependencyPropogation.superstep G cur G.nodesWithEdges S).1.data v).numSuccessors =
        (S.data v).numSuccessors ∧
      (((DependencyPropogation.superstep G cur G.nodesWithEdges S).1.data v).propogationFlag = true →
        (S.data v).propogationFlag = true) := by
  have hc := DependencyPropogation.superstep_core G cur S v
  split at hc
  · next hh => exact ⟨(congrArg NodeData.numSuccessors hc :), fun _ => hh.2.2⟩
  · exact ⟨(congrArg NodeData.numSuccessors hc :), fun h => congrArg NodeData.propogationFlag hc ▸ h⟩

/-- The flag update keeps the successor count and hands the token only to a record whose
count is `0`. -/
theorem dpChanges_token (d : NodeData) :
    (DependencyPropChanges.operator d).numSuccessors = d.numSuccessors ∧
      ((DependencyPropChanges.operator d).propogationFlag = true →
        d.propogationFlag = true ∨ d.numSuccessors = 0) := by
  rw [DependencyPropogation.dpChanges_eq]
  split
  · next hc => exact ⟨rfl, fun _ => .inr hc.2.1⟩
  · exact ⟨rfl, .inl⟩

/-- In versions 3 and 4 a δ round keeps a mirror's successor count, and hands the mirror
the token only when it held it already or the count is `0`. -/
theorem dpRound_mirror (hv : 2 < optVersion) (cur i : Nat) (S : Nat → State) {h v : Nat}
    (hm : h ∈ P.mirrors v) :
    (((P.dpRound optVersion cur i S).1 h).data v).numSuccessors = ((S h).data v).numSuccessors ∧
      ((((P.dpRound optVersion cur i S).1 h).data v).propogationFlag = true →
        ((S h).data v).propogationFlag = true ∨ ((S h).data v).numSuccessors = 0) := by
  let r := P.superstep (fun h =>
    DependencyPropogation.superstep (P.localGraph h) cur (P.localGraph h).nodesWithEdges) S
  let S₂ := P.sync reduceAddToAddFloat broadcastToAddFloat
    (P.onHosts DPTrim.go (P.sync reduceAddTrim2 (dpBroadcast optVersion) r.1))
  have h₀ := superstep_token (P.localGraph h) cur (S h) v
  -- the two syncs, `DPTrim` and `DPAdd` keep the count and the token
  have hkeep : ∀ {α : Type} (g : NodeData → α), (∀ d x y, g { d with trim2 := x, trim := y } = g d) →
      (∀ d x, g { d with toAddFloat := x } = g d) → (∀ d, g (DPAdd.operator d) = g d) →
      g ((P.onHosts DPAdd.go S₂ h).data v) = g ((r.1 h).data v) := by
    intro α g ht hx ha
    rw [onHosts, DPAdd.go, doAll_field g fun _ => ha,
      sync_field (R := reduceAddToAddFloat) (B := broadcastToAddFloat) g (fun _ _ => hx _ _)
        (fun _ => hx _ _) (fun _ _ => hx _ _), P.dpTrim_sync_mirror hv _ hm, ht]
  let d := (P.onHosts DPAdd.go S₂ h).data v
  have hn : d.numSuccessors = ((S h).data v).numSuccessors :=
    (hkeep NodeData.numSuccessors (fun _ _ _ => rfl) (fun _ _ => rfl)
      fun d => (DependencyPropogation.dpAdd_fields d).2.1).trans h₀.1
  have hf : d.propogationFlag = true → ((S h).data v).propogationFlag = true := fun hd =>
    h₀.2 ((hkeep NodeData.propogationFlag (fun _ _ _ => rfl) (fun _ _ => rfl)
      fun d => (DependencyPropogation.dpAdd_fields d).2.2.1) ▸ hd)
  -- the flag update
  have hd : ((P.dpRound optVersion cur i S).1 h).data v =
      if (P.localGraph h).edges v ≠ [] then DependencyPropChanges.operator d else d := rfl
  rw [hd]
  split
  · obtain ⟨h₁, h₂⟩ := dpChanges_token d
    exact ⟨h₁.trans hn, fun hd => (h₂ hd).imp hf hn.symm.trans⟩
  · exact ⟨hn, fun hd => .inl (hf hd)⟩

/-- In versions 3 and 4 a mirror that enters the δ phase with successors left and
without the token keeps both through every round. -/
theorem runRounds_mirror (hv : 2 < optVersion) (cur : Nat) (S : Nat → State) {h v : Nat}
    (hm : h ∈ P.mirrors v) (hs : ((S h).data v).numSuccessors ≠ 0)
    (hf : ((S h).data v).propogationFlag = false) (k : Nat) :
    ((runRounds (P.dpRound optVersion cur) S k h).data v).numSuccessors =
        ((S h).data v).numSuccessors ∧
      ((runRounds (P.dpRound optVersion cur) S k h).data v).propogationFlag = false := by
  induction k with
  | zero => exact ⟨rfl, hf⟩
  | succ k ih =>
    obtain ⟨hn, hflag⟩ := P.dpRound_mirror hv cur k (runRounds (P.dpRound optVersion cur) S k) hm
    rw [runRounds_succ]
    refine ⟨hn.trans ih.1, Bool.eq_false_iff.mpr fun ht => ?_⟩
    rcases hflag ht with h | h
    · rw [ih.2] at h; exact Bool.false_ne_true h
    · rw [ih.1] at h; exact hs h

/-- In versions 3 and 4, whatever the partition, a mirror that enters
`DependencyPropogation::go` with successors left and without the token leaves it with
the same successor count and never holds the token in any round: the edges out of the
vertex that its host stores are never pushed. -/
theorem dependencyPropogation_mirror (hv : 2 < optVersion) {cur fuel k : Nat}
    {S S' : Nat → State} (hgo : P.dependencyPropogation optVersion cur fuel S = some (S', k))
    {h v : Nat} (hm : h ∈ P.mirrors v) (hs : ((S h).data v).numSuccessors ≠ 0)
    (hf : ((S h).data v).propogationFlag = false) :
    ((S' h).data v).numSuccessors = ((S h).data v).numSuccessors ∧
      ∀ j ≤ k, ((runRounds (P.dpRound optVersion cur) S j h).data v).propogationFlag = false := by
  obtain ⟨j, -, hr, -⟩ := doWhile_eq_some (s := S) (i := 0) hgo
  obtain ⟨rfl, rfl⟩ := Prod.mk.inj hr
  exact ⟨(P.runRounds_mirror hv cur S hm hs hf _).1,
    fun j _ => (P.runRounds_mirror hv cur S hm hs hf j).2⟩

end Mirror

/-! ## The versions -/

variable {G : Graph} (P : Partition G)

/-- Versions with the same broadcast in the δ phase's `trim2` sync run alike. -/
theorem go_version {a b : Nat} (h : dpBroadcast a = dpBroadcast b) : P.go a = P.go b := by
  have hdp : P.dpRound a = P.dpRound b := by
    funext cur i S
    simp only [dpRound, h]
  have hit : P.iteration a = P.iteration b := by
    funext sched fuel src S
    simp only [iteration, dependencyPropogation, hdp]
  have hloop : ∀ sched fuel srcs i, P.loop a sched fuel i srcs = P.loop b sched fuel i srcs := by
    intro sched fuel srcs
    induction srcs with
    | nil => intro i; rfl
    | cons src rest ih => intro i; funext S; simp only [loop, hit, ih]
  funext cfg randomSources sched fuel S
  simp only [go, hloop]

end Partition

section Evaluation

attribute [local semireducible] Rat.add Rat.mul Rat.inv

/-- Two branches joining at `2` above the path `2 → 1 → 0`: the leaf `3`, and the path
`6 → 5 → 4`, whose dependency reaches `2` two rounds after `3`'s. -/
def unevenFork : Graph := ⟨[[], [0], [1], [2], [2], [4], [5]], by decide⟩

/-- `unevenFork` on two hosts: host `1` stores the edge `2 → 1` and host `0` every other
edge; every master is on host `0`, so `1` and `2` have mirrors on host `1`. -/
def unevenForkSplit : Partition unevenFork where
  numHosts := 2
  localGraph h := if h = 0 then ⟨[[], [0], [], [2], [2], [4], [5]], by decide⟩
    else ⟨[[], [], [1], [], [], [], []], by decide⟩
  master _ := 0
  size_localGraph h := by dsimp only; split <;> rfl
  master_lt _ := Nat.zero_lt_two
  edges_perm
    | 0 | 1 | 2 | 3 | 4 | 5 | 6 => by decide
    | _ + 7 => by simp [Graph.edges, unevenFork, List.range_succ]

/-- With the single source `0`, `BC::go` on `unevenForkSplit` leaves the master of `1`
with centrality `0` under every version, where on one host it leaves `2`.  On one host
the `trim2` that `DPTrim` never clears hands `2` the token after `3`'s push alone.  In
versions 1 and 2 the broadcast `trim2` comes back from `2`'s mirror in the next
reduction and doubles the master's, so `2`'s successor count wraps past `0`; in versions
3 and 4 the mirror keeps its count (`dependencyPropogation_mirror`).  Either way `2`
never pushes along `2 → 1`. -/
theorem bc_unevenForkSplit :
    (BC.go unevenFork ⟨true, 0, 0⟩ [] (fun _ _ => unevenFork.nodesWithEdges) 8
        (InitializeGraph.go unevenFork State.zero)).map (fun s => (s.data 1).betweenessCentrality) =
      some 2 ∧
    ∀ optVersion ∈ [1, 2, 3, 4],
      (unevenForkSplit.go optVersion ⟨true, 0, 0⟩ []
          (fun _ h _ => (unevenForkSplit.localGraph h).nodesWithEdges) 8 unevenForkSplit.start).map
        (fun S => ((S (unevenForkSplit.master 1)).data 1).betweenessCentrality) = some 0 := by
  set_option maxRecDepth 20000 in decide

/-- The hosts' records at the start of the δ phase for the source `0` on
`unevenForkSplit`: `InitializeIteration`, the BFS, `PredAndSucc` and the σ phase, each with
its syncs, from `unevenForkSplit.start`. -/
def unevenForkSplitSigma : Nat → State :=
  let S₁ := unevenForkSplit.onHosts (fun G => InitializeIteration.go G 0) unevenForkSplit.start
  let S₂ := ((unevenForkSplit.sssp (fun h _ => (unevenForkSplit.localGraph h).nodesWithEdges) 8
    S₁).getD (S₁, 0)).1
  ((unevenForkSplit.numShortestPaths 8 (unevenForkSplit.predAndSucc S₂)).getD (S₂, 0)).1

/-- Version 3's δ phase for the source `0` on `unevenForkSplit`, from the records the σ
phase leaves: it runs four rounds, and the mirror of `2` on host `1`, which enters it
with the two successors `3` and `4`, keeps them and never holds the token. -/
theorem dependencyPropogation_mirror_unevenForkSplit :
    ((unevenForkSplitSigma 1).data 2).numSuccessors = 2 ∧
      ∃ S', unevenForkSplit.dependencyPropogation 3 0 8 unevenForkSplitSigma = some (S', 4) ∧
        ((S' 1).data 2).numSuccessors = 2 ∧
        ∀ j ≤ 4, ((runRounds (unevenForkSplit.dpRound 3 0) unevenForkSplitSigma j 1).data
          2).propogationFlag = false := by
  have h₀ : ((unevenForkSplitSigma 1).data 2).numSuccessors = 2 ∧
      ((unevenForkSplitSigma 1).data 2).propogationFlag = false := by
    decide
  have hk : (unevenForkSplit.dependencyPropogation 3 0 8 unevenForkSplitSigma).map Prod.snd =
      some 4 := by
    set_option maxRecDepth 20000 in decide
  obtain ⟨⟨S', k⟩, hgo, hk4⟩ := Option.map_eq_some'.mp hk
  obtain rfl : k = 4 := hk4
  obtain ⟨hn, hf⟩ := unevenForkSplit.dependencyPropogation_mirror (by decide) hgo (by decide)
    (by rw [h₀.1]; decide) h₀.2
  exact ⟨h₀.1, S', hgo, hn.trans h₀.1, hf⟩

end Evaluation

end DistGalois.BcPull
