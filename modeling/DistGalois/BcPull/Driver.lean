import DistGalois.BcPull.DependencyPropogation

/-!
# The driver: `BC::go` and `main`'s run loop

`BC::go` picks the sources (lines 897-924) and, for each, resets the
iteration, runs the four phases and folds every dependency into the
betweenness centrality.  Superstep orders of the BFS phase are a parameter:
`sched i` orders the supersteps of the `i`-th source.  `fuel` bounds every
`do … while` loop, and `none` means some loop needed more rounds.
-/

namespace DistGalois.BcPull

namespace BC

/-- `BC::operator()`: fold a positive dependency into the centrality. -/
def operator (d : NodeData) : NodeData :=
  if 0 < d.dependency then
    { d with betweenessCentrality := d.betweenessCentrality + d.dependency, dependency := 0 }
  else d

/-- Reading `k` sources through `random_sources_iterator`; `none` where the iterator
would be dereferenced at `random_sources.end()`. -/
def readSources : Nat → List Nat → Option (List Nat)
  | 0, _ => some []
  | _ + 1, [] => none
  | k + 1, x :: it => (readSources k it).map (x :: ·)

/-- The sources `BC::go` iterates (lines 897-924), `randomSources` being the
elements of `random_sources` in the set's (ascending) order. -/
def sources (singleSourceBC : Bool) (startSource numberOfSources totalNodes : Nat)
    (randomSources : List Nat) : Option (List Nat) :=
  if singleSourceBC then some [startSource]
  else if numberOfSources ≠ 0 then readSources numberOfSources randomSources
  else some (List.range totalNodes)

/-- One iteration of `BC::go`'s loop for the source `src`. -/
def iteration (G : Graph) (sched : Nat → List Nat) (fuel src : Nat) (s : State) :
    Option State := do
  let (s, _) ← SSSP.go G sched fuel (InitializeIteration.go G src s)
  let (s, _) ← NumShortestPaths.go G fuel (PredAndSucc.go G s)
  let (s, _) ← DependencyPropogation.go G src fuel s
  pure (doAll G (fun _ => operator) s)

/-- `BC::go`'s loop over the sources, the `i`-th source's BFS supersteps ordered by
`sched i`. -/
def loop (G : Graph) (sched : Nat → Nat → List Nat) (fuel : Nat) :
    Nat → List Nat → State → Option State
  | _, [], s => some s
  | i, src :: rest, s => (iteration G (sched i) fuel src s).bind (loop G sched fuel (i + 1) rest)

/-- Command-line settings read by the source selection. -/
structure Config where
  singleSourceBC : Bool
  startSource : Nat
  numberOfSources : Nat

/-- `BC::go`. -/
def go (G : Graph) (cfg : Config) (randomSources : List Nat) (sched : Nat → Nat → List Nat)
    (fuel : Nat) (s : State) : Option State :=
  (sources cfg.singleSourceBC cfg.startSource cfg.numberOfSources G.size randomSources).bind
    fun srcs => loop G sched fuel 0 srcs s

end BC

/-- `main`'s run loop (lines 1171-1232) after the first `InitializeGraph::go`:
`BC::go`, the sanity check (which writes no vertex data), and `InitializeGraph::go`
again before every run but the first. -/
def mainRuns (G : Graph) (cfg : BC.Config) (randomSources : List Nat)
    (sched : Nat → Nat → List Nat) (fuel : Nat) : Nat → State → Option State
  | 0, s => some s
  | 1, s => BC.go G cfg randomSources sched fuel s
  | k + 2, s => (BC.go G cfg randomSources sched fuel s).bind fun s =>
      mainRuns G cfg randomSources sched fuel (k + 1) (InitializeGraph.go G s)

section Evaluation

attribute [local semireducible] Rat.add Rat.mul Rat.inv

/-- After source `0` of `diamondTail` the next source starts with `trim2 = 2` left at
vertex `1`, and with the single source `0` a second run of `main`'s loop takes vertex
`1`'s centrality from `2` to `0`: the stale `trim2` hands `1` the token before its
successors have pushed. -/
theorem trim2_stale_diamondTail :
    (BC.loop diamondTail (fun _ _ => diamondTail.nodesWithEdges) 6 0 [0]
        (InitializeGraph.go diamondTail State.zero)).map (fun s => (s.data 1).trim2) = some 2 ∧
    (mainRuns diamondTail ⟨true, 0, 0⟩ [] (fun _ _ => diamondTail.nodesWithEdges) 6 1
        (InitializeGraph.go diamondTail State.zero)).map (fun s => (s.data 1).betweenessCentrality) =
      some 2 ∧
    (mainRuns diamondTail ⟨true, 0, 0⟩ [] (fun _ _ => diamondTail.nodesWithEdges) 6 2
        (InitializeGraph.go diamondTail State.zero)).map (fun s => (s.data 1).betweenessCentrality) =
      some 0 := by
  decide

/-- With the single source `0`, `BC::go` leaves the successor counts of `1`, `2` and
`3` of `diamondTail` wrapped to `2^32 - 2`: each held one or two DAG successors. -/
theorem numSuccessors_wraps_diamondTail :
    (BC.go diamondTail ⟨true, 0, 0⟩ [] (fun _ _ => diamondTail.nodesWithEdges) 6
        (InitializeGraph.go diamondTail State.zero)).map
      (fun s => [(s.data 1).numSuccessors, (s.data 2).numSuccessors, (s.data 3).numSuccessors]) =
      some [4294967294, 4294967294, 4294967294] := by
  decide

end Evaluation

end DistGalois.BcPull
