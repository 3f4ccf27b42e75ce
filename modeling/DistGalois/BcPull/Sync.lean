import DistGalois.BcPull.Driver

/-!
# Hosts, replicas and `sync`

On several hosts the graph is partitioned: each host stores some of the edges,
over the global ids, and holds a replica of both endpoints of each of them; one
replica of every vertex is its master, the others are its mirrors.  A host
runs each operator over its own replicas and edges, so the replicas of a vertex
drift apart within a superstep, and `sync<…, Reduce_X, Broadcast_Y, …>`
reconciles them: every mirror's field `X` is folded into the master with the
reduction's operation (`min` or `+`), the mirrors' `X` return to the
reduction's identity, and the master's field `Y` is copied to every mirror.
The bitsets of `__OPT_VERSION__ ≥ 3` only narrow which vertices are sent, and
are left out: every vertex is synchronised.

A host's records are a `State` over all global ids; the entries of vertices the
host holds no replica of are never read by an edge loop or by a sync.

Main results:

* `sync_master`, `sync_mirror`, `sync_other` — what a sync leaves on each host;
* `sync_field` — a field that neither structure writes is kept on every host;
* `get_sync_of_replica` — a sync reducing and broadcasting the same field
  leaves every replica with the master's reduced value;
* `sync_single` — on one host a sync changes nothing;
* `sync_arrival_order` — every sync of a `uint32_t` field leaves the same records
  whatever the order in which the mirrors' messages reach the master.

The `float` field `to_add_float` is an exact rational here, so its sync too leaves the
same records in every order; in `binary32` its sum depends on the order, and nothing
proved about `to_add_float` covers that.
-/

namespace DistGalois.BcPull

/-- The edges of `G` spread over `numHosts` hosts.  Host `h` stores the out-edges
`(localGraph h).edges v` of `v`, over the global ids, so that every stored edge is on
exactly one host; `master v` is the host of `v`'s master replica. -/
structure Partition (G : Graph) where
  numHosts : Nat
  localGraph : Nat → Graph
  master : Nat → Nat
  size_localGraph : ∀ h, (localGraph h).size = G.size
  master_lt : ∀ v, master v < numHosts
  edges_perm : ∀ v, ((List.range numHosts).flatMap fun h => (localGraph h).edges v).Perm (G.edges v)

namespace Partition

variable {G : Graph} (P : Partition G)

/-- Host `h` holds a replica of `v`: it is `v`'s master, or stores an edge out of or
into `v`. -/
def isReplica (h v : Nat) : Bool :=
  P.master v == h || !((P.localGraph h).edges v).isEmpty ||
    (List.range G.size).any fun u => ((P.localGraph h).edges u).contains v

/-- The hosts other than the master that hold a replica of `v`, in host order. -/
def mirrors (v : Nat) : List Nat :=
  (List.range P.numHosts).filter fun h => h != P.master v && P.isReplica h v

theorem ne_master_of_mem_mirrors {h v : Nat} (hm : h ∈ P.mirrors v) : h ≠ P.master v := by
  simp only [mirrors, List.mem_filter, Bool.and_eq_true, bne_iff_ne] at hm
  exact hm.2.1

/-- All of `G` on one host. -/
def single (G : Graph) : Partition G :=
  ⟨1, fun _ => G, fun _ => 0, fun _ => rfl, fun _ => Nat.one_pos, fun _ => by simp [List.range_succ]⟩

@[simp] theorem master_single (v : Nat) : (single G).master v = 0 := rfl

@[simp] theorem mirrors_single (v : Nat) : (single G).mirrors v = [] := by
  simp [mirrors, single]

end Partition

/-! ## Sync structures -/

/-- A field of `NodeData`, as a sync structure reads and writes it. -/
structure Field (α : Type) where
  get : NodeData → α
  set : NodeData → α → NodeData
  get_set : ∀ d x, get (set d x) = x

namespace Field

/-- `current_length`. -/
def currentLength : Field Nat := ⟨NodeData.currentLength, fun d x => { d with currentLength := x }, fun _ _ => rfl⟩

/-- `num_predecessors`. -/
def numPredecessors : Field Nat :=
  ⟨NodeData.numPredecessors, fun d x => { d with numPredecessors := x }, fun _ _ => rfl⟩

/-- `num_successors`. -/
def numSuccessors : Field Nat :=
  ⟨NodeData.numSuccessors, fun d x => { d with numSuccessors := x }, fun _ _ => rfl⟩

/-- `trim`. -/
def trim : Field Nat := ⟨NodeData.trim, fun d x => { d with trim := x }, fun _ _ => rfl⟩

/-- `to_add`. -/
def toAdd : Field Nat := ⟨NodeData.toAdd, fun d x => { d with toAdd := x }, fun _ _ => rfl⟩

/-- `trim2`. -/
def trim2 : Field Nat := ⟨NodeData.trim2, fun d x => { d with trim2 := x }, fun _ _ => rfl⟩

/-- `to_add_float`. -/
def toAddFloat : Field ℚ := ⟨NodeData.toAddFloat, fun d x => { d with toAddFloat := x }, fun _ _ => rfl⟩

end Field

/-- A `Reduce_X` structure: `reduce` folds a mirror's record into the master's, `reset`
returns a mirror's `X` to the reduction's identity. -/
structure Reduce where
  reduce : NodeData → NodeData → NodeData
  reset : NodeData → NodeData

/-- The `Reduce_X` of the operation `op`, with identity `e`, on the field `X`. -/
def Reduce.ofField {α : Type} (X : Field α) (op : α → α → α) (e : α) : Reduce :=
  ⟨fun m d => X.set m (op (X.get m) (X.get d)), fun d => X.set d e⟩

/-- The `Broadcast_Y` structure of the field `Y`: a mirror takes the master's `Y`. -/
def broadcast {α : Type} (Y : Field α) (mirror master : NodeData) : NodeData :=
  Y.set mirror (Y.get master)

/-- `Reduce_min_current_length`; the identity of `Galois::min` on `uint32_t` is
`2 ^ 32 - 1`. -/
def reduceMinCurrentLength : Reduce := .ofField Field.currentLength min (2 ^ 32 - 1)

/-- `Reduce_add_num_predecessors`. -/
def reduceAddNumPredecessors : Reduce := .ofField Field.numPredecessors (fun a b => u32 (a + b)) 0

/-- `Reduce_add_num_successors`. -/
def reduceAddNumSuccessors : Reduce := .ofField Field.numSuccessors (fun a b => u32 (a + b)) 0

/-- `Reduce_add_trim`. -/
def reduceAddTrim : Reduce := .ofField Field.trim (fun a b => u32 (a + b)) 0

/-- `Reduce_add_to_add`. -/
def reduceAddToAdd : Reduce := .ofField Field.toAdd (fun a b => u32 (a + b)) 0

/-- `Reduce_add_trim2`. -/
def reduceAddTrim2 : Reduce := .ofField Field.trim2 (fun a b => u32 (a + b)) 0

/-- `Reduce_add_to_add_float`. -/
def reduceAddToAddFloat : Reduce := .ofField Field.toAddFloat (· + ·) 0

/-- `Broadcast_current_length`. -/
def broadcastCurrentLength : NodeData → NodeData → NodeData := broadcast Field.currentLength

/-- `Broadcast_num_predecessors`. -/
def broadcastNumPredecessors : NodeData → NodeData → NodeData := broadcast Field.numPredecessors

/-- `Broadcast_num_successors`. -/
def broadcastNumSuccessors : NodeData → NodeData → NodeData := broadcast Field.numSuccessors

/-- `Broadcast_trim`. -/
def broadcastTrim : NodeData → NodeData → NodeData := broadcast Field.trim

/-- `Broadcast_to_add`. -/
def broadcastToAdd : NodeData → NodeData → NodeData := broadcast Field.toAdd

/-- `Broadcast_trim2`. -/
def broadcastTrim2 : NodeData → NodeData → NodeData := broadcast Field.trim2

/-- `Broadcast_to_add_float`. -/
def broadcastToAddFloat : NodeData → NodeData → NodeData := broadcast Field.toAddFloat

/-- The `Reduce_…` structures of `gen.cpp`'s syncs of `uint32_t` fields: `Galois::min` of
`current_length` and the sums of the counters and push counts.  `Reduce_add_to_add_float`
is not among them: it adds `float`s, whose `binary32` sum depends on the order. -/
def uint32Reductions : List Reduce :=
  [reduceMinCurrentLength, reduceAddNumPredecessors, reduceAddNumSuccessors, reduceAddTrim,
    reduceAddToAdd, reduceAddTrim2]

/-- Two records that `R` folds in one after the other may trade places. -/
def Reduce.RightComm (R : Reduce) : Prop :=
  ∀ m a b, R.reduce (R.reduce m a) b = R.reduce (R.reduce m b) a

theorem Reduce.rightComm_ofField {α : Type} (X : Field α) {op : α → α → α} (e : α)
    (hss : ∀ d x y, X.set (X.set d x) y = X.set d y) (hop : ∀ x a b, op (op x a) b = op (op x b) a) :
    (Reduce.ofField X op e).RightComm := fun m a b => by
  simp only [Reduce.ofField, X.get_set, hss]
  rw [hop]

/-- `Galois::min` and the `uint32_t` sums let two records trade places. -/
theorem rightComm_of_mem_uint32Reductions : ∀ R ∈ uint32Reductions, R.RightComm := by
  simp only [uint32Reductions, List.mem_cons, List.mem_nil_iff, or_false]
  have hadd : ∀ x a b : Nat, u32 (u32 (x + a) + b) = u32 (u32 (x + b) + a) := fun x a b => by
    rw [u32_add_u32, u32_add_u32, Nat.add_right_comm]
  rintro R (rfl | rfl | rfl | rfl | rfl | rfl)
  · exact Reduce.rightComm_ofField _ _ (fun _ _ _ => rfl) fun _ _ _ => by omega
  all_goals exact Reduce.rightComm_ofField _ _ (fun _ _ _ => rfl) hadd

/-! ## `sync` -/

namespace Partition

variable {G : Graph} (P : Partition G)

/-- The master's record of `v` once every mirror's record is folded in, in host order. -/
def reduced (R : Reduce) (S : Nat → State) (v : Nat) : NodeData :=
  (P.mirrors v).foldl (fun d h => R.reduce d ((S h).data v)) ((S (P.master v)).data v)

/-- `sync<…, R, B, …>` on the hosts' records `S`. -/
def sync (R : Reduce) (B : NodeData → NodeData → NodeData) (S : Nat → State) : Nat → State :=
  fun h =>
    { S h with
      data := fun v =>
        if h = P.master v then P.reduced R S v
        else if h ∈ P.mirrors v then B (R.reset ((S h).data v)) (P.reduced R S v)
        else (S h).data v }

variable {P} {R : Reduce} {B : NodeData → NodeData → NodeData} {S : Nat → State} {h v : Nat}

@[simp] theorem sync_asserts : (P.sync R B S h).asserts = (S h).asserts := rfl

@[simp] theorem sync_master : (P.sync R B S (P.master v)).data v = P.reduced R S v := by
  simp [sync]

theorem sync_mirror (hm : h ∈ P.mirrors v) :
    (P.sync R B S h).data v = B (R.reset ((S h).data v)) (P.reduced R S v) := by
  simp [sync, P.ne_master_of_mem_mirrors hm, hm]

theorem sync_other (hm : h ≠ P.master v) (hn : h ∉ P.mirrors v) :
    (P.sync R B S h).data v = (S h).data v := by
  simp [sync, hm, hn]

/-- A field the reduction does not write is the master's in the reduced record. -/
theorem reduced_field {β : Type} (f : NodeData → β) (hR : ∀ m d, f (R.reduce m d) = f m) :
    f (P.reduced R S v) = f ((S (P.master v)).data v) := by
  unfold reduced
  generalize (S (P.master v)).data v = d
  induction P.mirrors v generalizing d with
  | nil => rfl
  | cons x l ih => rw [List.foldl_cons, ih, hR]

/-- A field that neither the reduction nor the broadcast writes is kept on every host. -/
theorem sync_field {β : Type} (f : NodeData → β) (hR : ∀ m d, f (R.reduce m d) = f m)
    (hr : ∀ d, f (R.reset d) = f d) (hB : ∀ d m, f (B d m) = f d) (h v : Nat) :
    f ((P.sync R B S h).data v) = f ((S h).data v) := by
  by_cases hh : h = P.master v
  · subst hh; rw [sync_master, reduced_field f hR]
  · by_cases hm : h ∈ P.mirrors v
    · rw [sync_mirror hm, hB, hr]
    · rw [sync_other hh hm]

/-- A host holding no replica of `v` keeps its record of `v` through a sync. -/
theorem sync_of_not_replica (hr : P.isReplica h v = false) : (P.sync R B S h).data v = (S h).data v := by
  refine sync_other (fun hm => ?_) fun hm => ?_
  · simp [hm, isReplica] at hr
  · simp only [mirrors, List.mem_filter, hr, Bool.and_false] at hm
    exact Bool.false_ne_true hm.2

/-- The reduced value of a field is the fold of the mirrors' values into the master's. -/
theorem get_reduced {α : Type} (X : Field α) (op : α → α → α) (e : α) :
    X.get (P.reduced (.ofField X op e) S v) =
      ((P.mirrors v).map fun h => X.get ((S h).data v)).foldl op (X.get ((S (P.master v)).data v)) := by
  unfold reduced
  generalize (S (P.master v)).data v = d
  induction P.mirrors v generalizing d with
  | nil => rfl
  | cons x l ih => rw [List.foldl_cons, ih, List.map_cons, List.foldl_cons]; simp only [Reduce.ofField, X.get_set]

/-- A sync that reduces and broadcasts the same field leaves every replica with the
master's reduced value. -/
theorem get_sync_of_replica {α : Type} (X : Field α) (op : α → α → α) (e : α)
    (hh : h = P.master v ∨ h ∈ P.mirrors v) :
    X.get ((P.sync (.ofField X op e) (broadcast X) S h).data v) =
      X.get (P.reduced (.ofField X op e) S v) := by
  rcases hh with rfl | hm
  · rw [sync_master]
  · rw [sync_mirror hm, broadcast, X.get_set]

/-- For a field whose second write overrides the first and whose write of its own value
changes nothing, the reduced record is the master's with the reduced value in the field. -/
theorem reduced_ofField {α : Type} (X : Field α) (op : α → α → α) (e : α)
    (hss : ∀ d x y, X.set (X.set d x) y = X.set d y) (hsg : ∀ d, X.set d (X.get d) = d) :
    P.reduced (.ofField X op e) S v =
      X.set ((S (P.master v)).data v) (X.get (P.reduced (.ofField X op e) S v)) := by
  have key : ∀ (l : List Nat) (x : α), l.foldl (fun d h => (Reduce.ofField X op e).reduce d ((S h).data v))
      (X.set ((S (P.master v)).data v) x) = X.set ((S (P.master v)).data v)
        (X.get (l.foldl (fun d h => (Reduce.ofField X op e).reduce d ((S h).data v))
          (X.set ((S (P.master v)).data v) x))) := by
    intro l
    induction l with
    | nil => intro x; rw [List.foldl_nil, X.get_set]
    | cons h l ih => intro x; simp only [List.foldl_cons, Reduce.ofField, hss]; exact ih _
  have h0 := key (P.mirrors v) (X.get ((S (P.master v)).data v))
  rw [hsg] at h0
  exact h0

/-- For such a field a sync that reduces and broadcasts it leaves every replica's record
with the reduced value in the field and nothing else changed. -/
theorem sync_ofField_replica {α : Type} (X : Field α) (op : α → α → α) (e : α)
    (hss : ∀ d x y, X.set (X.set d x) y = X.set d y) (hsg : ∀ d, X.set d (X.get d) = d)
    (hh : h = P.master v ∨ h ∈ P.mirrors v) :
    (P.sync (.ofField X op e) (broadcast X) S h).data v =
      X.set ((S h).data v) (X.get (P.reduced (.ofField X op e) S v)) := by
  rcases hh with rfl | hm
  · rw [sync_master]; exact reduced_ofField X op e hss hsg
  · rw [sync_mirror hm]; exact hss _ _ _

/-- On one host a sync changes nothing. -/
theorem sync_single (s : State) : (single G).sync R B (fun _ => s) = fun _ => s := by
  funext h
  refine State.ext (funext fun v => ?_) rfl
  by_cases hh : h = 0 <;> simp [sync, reduced, hh]

/-! ## The order the mirrors' messages arrive in

A master folds its mirrors' records in as their messages arrive, in no fixed order;
`sync` folds them in host order. -/

variable (P) in
/-- `sync` with the mirrors' records of each vertex `v` folded in at its master in the
order `ord v`. -/
def syncIn (ord : Nat → List Nat) (R : Reduce) (B : NodeData → NodeData → NodeData)
    (S : Nat → State) : Nat → State :=
  fun h =>
    { S h with
      data := fun v =>
        let r := (ord v).foldl (fun d h => R.reduce d ((S h).data v)) ((S (P.master v)).data v)
        if h = P.master v then r
        else if h ∈ P.mirrors v then B (R.reset ((S h).data v)) r
        else (S h).data v }

/-- A reduction whose folded records may trade places reduces to the same record in every
arrival order, so the sync leaves the same records. -/
theorem syncIn_perm {ord : Nat → List Nat} (hord : ∀ v, (ord v).Perm (P.mirrors v))
    (hR : R.RightComm) : P.syncIn ord R B S = P.sync R B S := by
  have hred : ∀ v, (ord v).foldl (fun d h => R.reduce d ((S h).data v)) ((S (P.master v)).data v) =
      P.reduced R S v := fun v => (hord v).foldl_eq' (fun _ _ _ _ m => hR m _ _) _
  funext h
  simp only [syncIn, hred]
  rfl

variable (P) in
/-- **The arrival order of the mirrors' messages does not matter.** On every partition,
from any records and with any broadcast, every sync of a `uint32_t` field that `gen.cpp`
compiles leaves every host with the same records whatever the order in which each master
folds its mirrors' records in: `sync`'s host order stands for all of them. -/
theorem sync_arrival_order {ord : Nat → List Nat} (hord : ∀ v, (ord v).Perm (P.mirrors v))
    (B : NodeData → NodeData → NodeData) (S : Nat → State) :
    ∀ R ∈ uint32Reductions, P.syncIn ord R B S = P.sync R B S :=
  fun _ hR => syncIn_perm hord (rightComm_of_mem_uint32Reductions _ hR)

end Partition

section Evaluation

/-- Two edges into `0`, each on its own host, and every master on host `0`: `0` has the
mirrors `1` and `2`. -/
def fanIn : Partition ⟨[[], [0], [0]], by decide⟩ where
  numHosts := 3
  localGraph h := if h = 1 then ⟨[[], [0], []], by decide⟩
    else if h = 2 then ⟨[[], [], [0]], by decide⟩ else ⟨[[], [], []], by decide⟩
  master _ := 0
  size_localGraph h := by dsimp only; split <;> (try split) <;> rfl
  master_lt _ := Nat.zero_lt_succ 2
  edges_perm
    | 0 | 1 | 2 => by decide
    | _ + 3 => by simp [Graph.edges, List.range_succ]

/-- The `trim2` sync of `0` on `fanIn`, host `h` holding `h + 1` pushes: the mirrors'
messages arriving from host `2` before host `1` leave what host order leaves, the master
holding all `6`. -/
theorem sync_arrival_order_fanIn :
    fanIn.syncIn (fun v => if v = 0 then [2, 1] else fanIn.mirrors v) reduceAddTrim2 broadcastTrim
        (fun h => State.zero.modify 0 fun d => { d with trim2 := h + 1 }) =
      fanIn.sync reduceAddTrim2 broadcastTrim
        (fun h => State.zero.modify 0 fun d => { d with trim2 := h + 1 }) ∧
    ((fanIn.sync reduceAddTrim2 broadcastTrim
        (fun h => State.zero.modify 0 fun d => { d with trim2 := h + 1 }) 0).data 0).trim2 = 6 :=
  ⟨fanIn.sync_arrival_order (fun v => by
    split
    · subst_vars
      rw [show fanIn.mirrors 0 = [1, 2] by decide]
      exact List.Perm.swap 1 2 []
    · exact List.Perm.refl _) _ _ reduceAddTrim2
    (by simp only [uint32Reductions, List.mem_cons, true_or, or_true]), by decide⟩

end Evaluation

end DistGalois.BcPull
