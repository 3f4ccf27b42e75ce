import DistGalois.BcPull.NodeData

/-!
# Pull-style BFS: `SSSP::go`

One superstep runs `SSSP::operator()` on every vertex with edges, in whatever
order the thread pool picks: the model takes that order as the list `order`,
and each operator reads its neighbours' *current* lengths, including those
lowered earlier in the same superstep.  `Galois::min` lowers the vertex's
length in place and the accumulator counts the lowerings.

Main results:

* `Sound` — every finite length is the length of a walk to the source — holds
  from the reset on (`go_sound_runRounds`);
* after `k` supersteps every vertex at most `k` hops away is exact
  (`exactUpTo_runRounds`), whatever the orders;
* a superstep that lowers nothing leaves a relaxation fixpoint, and a sound
  fixpoint is exact (`exact_of_fixpoint`);
* `go_correct`: the loop stops after at most `D + 1` supersteps with every
  length exact, provided the graph has fewer than `2 ^ 32` edges, so that the
  `uint32_t` accumulator cannot wrap to zero.
-/

namespace DistGalois.BcPull

namespace SSSP

/-- One iteration of the edge loop of `SSSP::operator()` on the edge `(src, dst)`:
`Galois::min` lowers the length of `src` to `new_dist = 1 + dst`'s length and
returns the old length; each lowering adds one to the accumulator. -/
def edge (src : Nat) (p : State × Nat) (dst : Nat) : State × Nat :=
  let newDist := u32 (1 + (p.1.data dst).currentLength)
  let old := (p.1.data src).currentLength
  (p.1.modify src fun d => { d with currentLength := min old newDist },
    if old > newDist then p.2 + 1 else p.2)

/-- `SSSP::operator()` on `src`, continuing the superstep's accumulator. -/
def operator (G : Graph) (p : State × Nat) (src : Nat) : State × Nat :=
  (G.edges src).foldl (edge src) p

/-- One superstep over the vertices in processing order `order`. -/
def superstep (G : Graph) (order : List Nat) (s : State) : State × Nat :=
  order.foldl (operator G) (s, 0)

/-- Round `i` of `SSSP::go`'s loop processes the vertices in the order `sched i`. -/
def body (G : Graph) (sched : Nat → List Nat) (i : Nat) (s : State) : State × Nat :=
  superstep G (sched i) s

/-- `SSSP::go`. -/
def go (G : Graph) (sched : Nat → List Nat) (fuel : Nat) (s : State) : Option (State × Nat) :=
  doWhile (body G sched) fuel 0 s

/-- The length of `v`. -/
abbrev len (s : State) (v : Nat) : Nat := (s.data v).currentLength

/-- `s'` differs from `s` at most in the `current_length` fields. -/
def LengthFrame (s s' : State) : Prop :=
  s'.asserts = s.asserts ∧ ∀ v, s'.data v = { s.data v with currentLength := len s' v }

/-- What a length can be between operators: at most `infinity`, and when finite
the length of a walk to the source `t`. -/
def Sound (G : Graph) (t : Nat) (s : State) : Prop :=
  ∀ v < G.size, len s v ≤ infinity ∧ (len s v < infinity → Reach G t v (len s v))

theorem LengthFrame.refl (s : State) : LengthFrame s s := ⟨rfl, fun _ => rfl⟩

theorem LengthFrame.trans {s s' s'' : State} (h : LengthFrame s s') (h' : LengthFrame s' s'') :
    LengthFrame s s'' :=
  ⟨h'.1.trans h.1, fun v => by rw [h'.2 v, h.2 v]⟩

/-- Lengths sound for a subgraph with the same vertices are sound for the graph. -/
theorem Sound.mono {G G' : Graph} {t : Nat} {s : State} (hs : Sound G' t s) (hsize : G'.size = G.size)
    (hsub : ∀ u, ∀ w ∈ G'.edges u, w ∈ G.edges u) : Sound G t s :=
  fun v hv => ⟨(hs v (hsize ▸ hv)).1, fun h => ((hs v (hsize ▸ hv)).2 h).mono hsub⟩

/-! ## One edge -/

section Edge

variable {src dst : Nat} {p : State × Nat}

theorem edge_len (v : Nat) : len (edge src p dst).1 v =
    if v = src then min (len p.1 src) (u32 (1 + len p.1 dst)) else len p.1 v := by
  by_cases h : v = src
  · subst h; simp [edge, len]
  · simp [edge, len, h]

theorem edge_len_le (v : Nat) : len (edge src p dst).1 v ≤ len p.1 v := by
  rw [edge_len]
  by_cases h : v = src
  · subst h; simp
  · simp [h]

theorem edge_frame : LengthFrame p.1 (edge src p dst).1 := by
  refine ⟨rfl, fun v => ?_⟩
  by_cases h : v = src
  · subst h; simp [edge, len]
  · simp [edge, len, h]

/-- An edge adds work exactly when it lowers, and otherwise changes nothing. -/
theorem edge_work :
    ((edge src p dst).2 = p.2 + 1 ∧ u32 (1 + len p.1 dst) < len p.1 src) ∨
      ((edge src p dst).2 = p.2 ∧ (edge src p dst).1 = p.1) := by
  by_cases h : u32 (1 + len p.1 dst) < len p.1 src
  · exact .inl ⟨by simp [edge, h], h⟩
  · refine .inr ⟨by simp [edge, h], ?_⟩
    obtain ⟨s, acc⟩ := p
    simp only [edge, State.modify, Nat.min_eq_left (Nat.le_of_not_lt h)]
    simp [Function.update_eq_self]

theorem edge_sound {G : Graph} {t : Nat} (hs : Sound G t p.1) (hdst : dst ∈ G.edges src) :
    Sound G t (edge src p dst).1 := by
  intro v hv
  have hd := hs dst (Graph.lt_size_of_mem_edges hdst)
  have hu : u32 (1 + len p.1 dst) = len p.1 dst + 1 := by
    rw [u32_of_lt (by rw [infinity_eq] at hd; omega)]; omega
  rw [edge_len, hu]
  by_cases h : v = src
  · subst h
    simp only [if_true]
    rcases Nat.le_total (len p.1 v) (len p.1 dst + 1) with hle | hle
    · rw [Nat.min_eq_left hle]; exact hs v hv
    · rw [Nat.min_eq_right hle]
      have := (hs v hv).1
      exact ⟨by omega, fun _ => .step hdst (hd.2 (by omega))⟩
  · simp only [h, if_false]; exact hs v hv

end Edge

/-! ## One operator: the edge loop of a vertex -/

section Operator

variable {G : Graph} {t src : Nat}

theorem edges_len_le (l : List Nat) (p : State × Nat) (v : Nat) :
    len (l.foldl (edge src) p).1 v ≤ len p.1 v :=
  List.foldlRecOn (motive := fun q => len q.1 v ≤ len p.1 v) l _ p (Nat.le_refl _)
    fun _ hq _ _ => (edge_len_le v).trans hq

theorem edges_frame (l : List Nat) (p : State × Nat) : LengthFrame p.1 (l.foldl (edge src) p).1 :=
  List.foldlRecOn (motive := fun q => LengthFrame p.1 q.1) l _ p (LengthFrame.refl _)
    fun _ hq _ _ => hq.trans edge_frame

/-- Work counts lowerings: at most one per edge, and none means no change. -/
theorem edges_work (l : List Nat) (p : State × Nat) :
    p.2 ≤ (l.foldl (edge src) p).2 ∧ (l.foldl (edge src) p).2 ≤ p.2 + l.length ∧
      ((l.foldl (edge src) p).2 = p.2 → (l.foldl (edge src) p).1 = p.1) := by
  induction l generalizing p with
  | nil => simp
  | cons dst l ih =>
    obtain ⟨h₁, h₂, h₃⟩ := ih (edge src p dst)
    simp only [List.foldl_cons, List.length_cons]
    rcases @edge_work src dst p with ⟨hw, -⟩ | ⟨hw, hs⟩
    · exact ⟨by omega, by omega, fun h => by omega⟩
    · exact ⟨by omega, by omega, fun h => (h₃ (by omega)).trans hs⟩

/-- After its edge loop a vertex is at most one hop above each neighbour's length
as it was when the loop started. -/
theorem edges_relax (l : List Nat) (p : State × Nat) (hl : ∀ w ∈ l, len p.1 w ≤ infinity) :
    ∀ w ∈ l, len (l.foldl (edge src) p).1 src ≤ len p.1 w + 1 := by
  induction l generalizing p with
  | nil => simp
  | cons dst l ih =>
    intro w hw
    simp only [List.foldl_cons]
    have hmono := @edges_len_le src l (edge src p dst)
    rcases List.mem_cons.mp hw with rfl | hw
    · have hd := hl w (List.mem_cons_self _ _)
      have h := @edge_len src w p src
      rw [if_pos rfl, u32_of_lt (by rw [infinity_eq] at hd; omega)] at h
      have := hmono src
      omega
    · have := ih (edge src p dst)
        (fun w hw => (edge_len_le w).trans (hl w (List.mem_cons_of_mem _ hw))) w hw
      have := @edge_len_le src dst p w
      omega

/-- When no edge can lower the vertex, its edge loop changes nothing. -/
theorem edges_stable (l : List Nat) (p : State × Nat)
    (hl : ∀ w ∈ l, len p.1 src ≤ u32 (1 + len p.1 w)) : l.foldl (edge src) p = p := by
  induction l generalizing p with
  | nil => rfl
  | cons dst l ih =>
    rcases @edge_work src dst p with ⟨-, hlt⟩ | ⟨hw, hs⟩
    · exact absurd (hl dst (List.mem_cons_self _ _)) (Nat.not_le.mpr hlt)
    · have hp : edge src p dst = p := Prod.ext hs hw
      simp only [List.foldl_cons, hp]
      exact ih p fun w hw => hl w (List.mem_cons_of_mem _ hw)

/-- Copies of an edge that cannot lower the vertex change nothing, however many. -/
theorem foldl_replicate_of_stable {dst : Nat} {p : State × Nat} (n : Nat)
    (h : len p.1 src ≤ u32 (1 + len p.1 dst)) : (List.replicate n dst).foldl (edge src) p = p :=
  edges_stable _ p fun w hw => by rw [(List.mem_replicate.mp hw).2]; exact h

theorem operator_sound {G' : Graph} {p : State × Nat} (hs : Sound G t p.1)
    (hsub : ∀ w ∈ G'.edges src, w ∈ G.edges src) : Sound G t (operator G' p src).1 :=
  List.foldlRecOn (motive := fun q => Sound G t q.1) (G'.edges src) _ p hs
    fun _ hq _ hdst => edge_sound hq (hsub _ hdst)

end Operator

/-! ## One superstep -/

section Superstep

variable {G : Graph} {t : Nat}

theorem steps_len_le (order : List Nat) (p : State × Nat) (v : Nat) :
    len (order.foldl (operator G) p).1 v ≤ len p.1 v :=
  List.foldlRecOn (motive := fun q => len q.1 v ≤ len p.1 v) order _ p (Nat.le_refl _)
    fun q hq _ _ => (edges_len_le _ q v).trans hq

theorem steps_frame (order : List Nat) (p : State × Nat) :
    LengthFrame p.1 (order.foldl (operator G) p).1 :=
  List.foldlRecOn (motive := fun q => LengthFrame p.1 q.1) order _ p (LengthFrame.refl _)
    fun q hq _ _ => hq.trans (edges_frame _ q)

/-- A superstep over the edges of a subgraph keeps the lengths sound for the graph. -/
theorem steps_sound {G' : Graph} (order : List Nat) {p : State × Nat} (hs : Sound G t p.1)
    (hsub : ∀ u, ∀ w ∈ G'.edges u, w ∈ G.edges u) : Sound G t (order.foldl (operator G') p).1 :=
  List.foldlRecOn (motive := fun q => Sound G t q.1) order _ p hs
    fun _ hq u _ => operator_sound hq (hsub u)

theorem steps_work (order : List Nat) (p : State × Nat) :
    p.2 ≤ (order.foldl (operator G) p).2 ∧
      (order.foldl (operator G) p).2 ≤ p.2 + (order.map fun v => (G.edges v).length).sum ∧
      ((order.foldl (operator G) p).2 = p.2 → (order.foldl (operator G) p).1 = p.1) := by
  induction order generalizing p with
  | nil => simp
  | cons v order ih =>
    obtain ⟨h₁, h₂, h₃⟩ := ih (operator G p v)
    obtain ⟨e₁, e₂, e₃⟩ : p.2 ≤ (operator G p v).2 ∧
        (operator G p v).2 ≤ p.2 + (G.edges v).length ∧
        ((operator G p v).2 = p.2 → (operator G p v).1 = p.1) := edges_work (G.edges v) p
    simp only [List.foldl_cons, List.map_cons, List.sum_cons]
    exact ⟨by omega, by omega, fun h => (h₃ (by omega)).trans (e₃ (by omega))⟩

/-- Whatever the order, after the superstep each processed vertex is at most one
hop above each neighbour's length from before the superstep. -/
theorem steps_relax (order : List Nat) (p : State × Nat)
    (hb : ∀ w < G.size, len p.1 w ≤ infinity) :
    ∀ v ∈ order, ∀ w ∈ G.edges v, len (order.foldl (operator G) p).1 v ≤ len p.1 w + 1 := by
  induction order generalizing p with
  | nil => simp
  | cons u order ih =>
    intro v hv w hw
    simp only [List.foldl_cons]
    rcases List.mem_cons.mp hv with rfl | hv
    · exact (steps_len_le order _ v).trans
        (edges_relax (G.edges v) p (fun w hw => hb w (Graph.lt_size_of_mem_edges hw)) w hw)
    · exact (ih _ (fun w hw => (edges_len_le _ p w).trans (hb w hw)) v hv w hw).trans
        (Nat.add_le_add_right (edges_len_le _ p w) 1)

/-- A superstep where no edge can lower its vertex changes nothing. -/
theorem steps_stable (order : List Nat) (p : State × Nat)
    (h : ∀ v ∈ order, ∀ w ∈ G.edges v, len p.1 v ≤ u32 (1 + len p.1 w)) :
    order.foldl (operator G) p = p := by
  induction order with
  | nil => rfl
  | cons v order ih =>
    have hv : operator G p v = p := edges_stable _ p (h v (List.mem_cons_self _ _))
    simp only [List.foldl_cons, hv]
    exact ih fun u hu => h u (List.mem_cons_of_mem _ hu)

end Superstep

/-! ## Exact lengths -/

section Exact

variable {G : Graph} {t : Nat} {s : State}

/-- Every vertex of the graph holds its hop distance to `t`, or `infinity` when no
walk reaches `t`. -/
def Exact (G : Graph) (t : Nat) (s : State) : Prop :=
  ∀ v < G.size, (∀ d, IsDist G t v d → len s v = d) ∧ (Unreachable G t v → len s v = infinity)

/-- Every vertex at most `k` hops from `t` holds its distance. -/
def ExactUpTo (G : Graph) (t k : Nat) (s : State) : Prop :=
  ∀ v < G.size, ∀ d ≤ k, IsDist G t v d → len s v = d

theorem Sound.dist_le (hs : Sound G t s) (hn : G.size ≤ infinity) {v d : Nat}
    (hv : v < G.size) (hd : IsDist G t v d) : d ≤ len s v := by
  rcases Nat.lt_or_ge (len s v) infinity with hlt | hge
  · exact ((hs v hv).2 hlt).isDist_le hd
  · have := hd.lt_size hv; omega

theorem Sound.len_of_unreachable (hs : Sound G t s) {v : Nat} (hv : v < G.size)
    (hu : Unreachable G t v) : len s v = infinity := by
  have := hs v hv
  by_contra hne
  exact hu _ (this.2 (by omega))

/-- A sound state where the source holds `0` and no edge can lower its vertex is exact. -/
theorem exact_of_fixpoint (hs : Sound G t s) (hn : G.size ≤ infinity)
    (ht : t < G.size → len s t = 0)
    (hfix : ∀ v, G.edges v ≠ [] → ∀ w ∈ G.edges v, len s v ≤ len s w + 1) : Exact G t s := by
  refine fun v hv => ⟨fun d hd => ?_, hs.len_of_unreachable hv⟩
  induction d generalizing v with
  | zero => obtain rfl := isDist_zero_iff.mp hd; exact ht hv
  | succ d ih =>
    obtain ⟨w, hw, hwd⟩ := hd.pred
    have hfw := hfix v (List.ne_nil_of_mem hw) w hw
    rw [ih w (Graph.lt_size_of_mem_edges hw) hwd] at hfw
    have := hs.dist_le hn hv hd
    omega

theorem exactUpTo_zero (ht : t < G.size → len s t = 0) : ExactUpTo G t 0 s := by
  intro v hv d hd hvd
  obtain rfl : d = 0 := by omega
  obtain rfl := isDist_zero_iff.mp hvd
  exact ht hv

/-- One round of relaxation extends exactness by one hop: the new lengths are sound and
no higher than the old, and each vertex ends at most one hop above every neighbour's old
length. -/
theorem ExactUpTo.succ {s' : State} {k : Nat} (he : ExactUpTo G t k s) (hs : Sound G t s')
    (hn : G.size ≤ infinity) (hle : ∀ v, len s' v ≤ len s v)
    (hrelax : ∀ v, ∀ w ∈ G.edges v, len s' v ≤ len s w + 1) : ExactUpTo G t (k + 1) s' := by
  intro v hv d hd hvd
  have hlow := hs.dist_le hn hv hvd
  rcases Nat.lt_or_ge d (k + 1) with hlt | hge
  · have := he v hv d (by omega) hvd
    have := hle v
    omega
  · obtain rfl : d = k + 1 := by omega
    obtain ⟨w, hw, hwd⟩ := hvd.pred
    have := he w (Graph.lt_size_of_mem_edges hw) k (Nat.le_refl _) hwd
    have := hrelax v w hw
    omega

theorem Exact.len_le (he : Exact G t s) (hn : G.size ≤ infinity) {v : Nat} (hv : v < G.size) :
    len s v ≤ infinity := by
  by_cases hr : ∃ d, IsDist G t v d
  · obtain ⟨d, hd⟩ := hr
    rw [(he v hv).1 d hd]
    have := hd.lt_size hv
    omega
  · rw [(he v hv).2 (unreachable_of_not_isDist (not_exists.mp hr))]

/-- An exact state is a fixpoint: no edge can lower its vertex. -/
theorem Exact.stable (he : Exact G t s) (hn : G.size ≤ infinity) {v w : Nat}
    (hw : w ∈ G.edges v) : len s v ≤ u32 (1 + len s w) := by
  have hinf : infinity = 1073741823 := rfl
  have hv := Graph.lt_size_of_edges_ne_nil (List.ne_nil_of_mem hw)
  have hw' := Graph.lt_size_of_mem_edges hw
  have hlv := he.len_le hn hv
  have hlw := he.len_le hn hw'
  rw [u32_of_lt (by omega)]
  by_cases hr : ∃ d, IsDist G t w d
  · obtain ⟨d, hd⟩ := hr
    obtain ⟨dv, -, hdv⟩ := (Reach.step hw hd.1).exists_isDist
    rw [(he v hv).1 dv hdv, (he w hw').1 d hd]
    have := hdv.le_succ_of_mem hd hw
    omega
  · rw [(he w hw').2 (unreachable_of_not_isDist (not_exists.mp hr))]
    omega

/-- The graph determines exact lengths. -/
theorem Exact.len_eq {s' : State} (he : Exact G t s) (he' : Exact G t s') {v : Nat}
    (hv : v < G.size) : len s v = len s' v := by
  by_cases hr : ∃ d, IsDist G t v d
  · obtain ⟨d, hd⟩ := hr
    rw [(he v hv).1 d hd, (he' v hv).1 d hd]
  · have hu := unreachable_of_not_isDist (not_exists.mp hr)
    rw [(he v hv).2 hu, (he' v hv).2 hu]

end Exact

/-! ## The loop -/

section Run

variable {G : Graph} {t : Nat} {sched : Nat → List Nat} {s : State}

theorem runRounds_sound (hs : Sound G t s) (k : Nat) :
    Sound G t (runRounds (body G sched) s k) := by
  induction k with
  | zero => exact hs
  | succ k ih => exact steps_sound _ ih fun _ _ => id

theorem runRounds_len_le (k v : Nat) : len (runRounds (body G sched) s k) v ≤ len s v := by
  induction k with
  | zero => exact Nat.le_refl _
  | succ k ih => exact (steps_len_le _ _ v).trans ih

theorem runRounds_frame (k : Nat) : LengthFrame s (runRounds (body G sched) s k) := by
  induction k with
  | zero => exact LengthFrame.refl _
  | succ k ih => exact ih.trans (steps_frame _ _)

/-- After `k` supersteps, whatever their orders, every vertex at most `k` hops
from the source holds its distance. -/
theorem exactUpTo_runRounds (hsched : ∀ i v, G.edges v ≠ [] → v ∈ sched i)
    (hs : Sound G t s) (hn : G.size ≤ infinity) (ht : t < G.size → len s t = 0) (k : Nat) :
    ExactUpTo G t k (runRounds (body G sched) s k) := by
  induction k with
  | zero => exact exactUpTo_zero ht
  | succ k ih =>
    rw [runRounds_succ]
    exact ih.succ (steps_sound _ (runRounds_sound hs k) fun _ _ => id) hn (steps_len_le _ _)
      fun v w hw => steps_relax (sched k) _ (fun w hw => (runRounds_sound hs k w hw).1) v
        (hsched k v (List.ne_nil_of_mem hw)) w hw

/-- The lengths `InitializeIteration::go` leaves are sound, and the source's is `0`. -/
theorem sound_initializeIteration (G : Graph) (t : Nat) (s : State) :
    Sound G t (InitializeIteration.go G t s) := by
  intro v hv
  simp only [len, InitializeIteration.go_data_of_lt hv, InitializeIteration.operator_currentLength]
  by_cases h : v = t
  · subst h; simpa using fun _ => Reach.refl
  · simp [h]

/-- Whenever `SSSP::go` returns from the state `InitializeIteration::go` leaves, on a
graph with fewer than `2 ^ 32` edges, its lengths are exact: a round without work changed
nothing, so every edge is relaxed. -/
theorem exact_of_go {G : Graph} (hn : G.size ≤ infinity) (hm : G.numEdges < 2 ^ 32) {t : Nat}
    {sched : Nat → List Nat} (hsched : ∀ i, (sched i).Perm G.nodesWithEdges) {s₀ s' : State}
    {fuel k : Nat} (hgo : go G sched fuel (InitializeIteration.go G t s₀) = some (s', k)) :
    Exact G t s' ∧ LengthFrame (InitializeIteration.go G t s₀) s' := by
  set s := InitializeIteration.go G t s₀
  have hs : Sound G t s := sound_initializeIteration G t s₀
  have ht : t < G.size → len s t = 0 := fun h => by
    simp [s, len, InitializeIteration.go_data_of_lt h]
  obtain ⟨j, -, hr', hstop⟩ := doWhile_eq_some (s := s) (i := 0) hgo
  obtain rfl : s' = runRounds (body G sched) s (j + 1) := congrArg Prod.fst hr'
  set r := runRounds (body G sched) s j
  obtain ⟨-, hbound, hsame⟩ := steps_work (G := G) (sched j) (r, 0)
  have hsum : ((sched j).map fun v => (G.edges v).length).sum = G.numEdges := by
    rw [((hsched j).map _).sum_eq, Graph.sum_length_nodesWithEdges]
  have hzero : (body G sched j r).2 = 0 := by
    rw [← u32_of_lt (x := (body G sched j r).2) (by simp only [body, superstep] at *; omega)]
    exact hstop
  have hr : (body G sched j r).1 = r := hsame hzero
  refine ⟨?_, runRounds_frame _⟩
  rw [runRounds_succ, hr]
  refine exact_of_fixpoint (runRounds_sound hs j) hn
    (fun h => Nat.le_antisymm ((runRounds_len_le j t).trans (ht h).le) (Nat.zero_le _))
    fun v hv w hw => ?_
  have := steps_relax (sched j) (r, 0) (fun w hw => (runRounds_sound hs j w hw).1) v
    ((hsched j).mem_iff.mpr (Graph.mem_nodesWithEdges.mpr hv)) w hw
  simp only [body, superstep] at hr
  rwa [hr] at this

/-- `SSSP::go` from the state `InitializeIteration::go` leaves stops after at most
`D + 1` supersteps, `D` bounding the finite distances: by then every length is exact and
no edge lowers anything. -/
theorem go_eq_some (G : Graph) (hn : G.size ≤ infinity) (t : Nat) {sched : Nat → List Nat}
    (hsched : ∀ i, (sched i).Perm G.nodesWithEdges) (s₀ : State) {D : Nat}
    (hD : ∀ v < G.size, ∀ d, IsDist G t v d → d ≤ D) {fuel : Nat} (hfuel : D < fuel) :
    ∃ s' k, go G sched fuel (InitializeIteration.go G t s₀) = some (s', k) ∧ k ≤ D + 1 := by
  set s := InitializeIteration.go G t s₀
  have hs : Sound G t s := sound_initializeIteration G t s₀
  have ht : t < G.size → len s t = 0 := fun h => by
    simp [s, len, InitializeIteration.go_data_of_lt h]
  have hcover : ∀ i v, G.edges v ≠ [] → v ∈ sched i := fun i v hv =>
    (hsched i).mem_iff.mpr (Graph.mem_nodesWithEdges.mpr hv)
  have hexD : Exact G t (runRounds (body G sched) s D) := fun v hv =>
    ⟨fun d hd => exactUpTo_runRounds hcover hs hn ht D v hv d (hD v hv d hd) hd,
      (runRounds_sound hs D).len_of_unreachable hv⟩
  have hstopD : u32 (body G sched D (runRounds (body G sched) s D)).2 = 0 := by
    rw [body, superstep, steps_stable _ _ fun v _ w hw => hexD.stable hn hw]
    rfl
  obtain ⟨k, -, hgo, -, hmin⟩ := doWhile_of_exists_stop s ⟨D, hfuel, hstopD⟩
  exact ⟨_, _, hgo, Nat.succ_le_succ (Nat.le_of_not_lt fun h => hmin D h hstopD)⟩

/-- `SSSP::go` from the state `InitializeIteration::go` leaves, for a graph with
fewer than `2 ^ 32` edges: whatever order each superstep processes its vertices
in, the loop stops after at most `D + 1` supersteps, `D` bounding the finite
distances, with every vertex holding its hop distance to the source, or
`infinity` when it cannot reach it; nothing but the lengths changes. -/
theorem go_correct (G : Graph) (hn : G.size ≤ infinity) (hm : G.numEdges < 2 ^ 32)
    (t : Nat) (sched : Nat → List Nat) (hsched : ∀ i, (sched i).Perm G.nodesWithEdges)
    (s₀ : State) (D : Nat) (hD : ∀ v < G.size, ∀ d, IsDist G t v d → d ≤ D)
    (fuel : Nat) (hfuel : D < fuel) :
    ∃ s' k, go G sched fuel (InitializeIteration.go G t s₀) = some (s', k) ∧ k ≤ D + 1 ∧
      Exact G t s' ∧ LengthFrame (InitializeIteration.go G t s₀) s' := by
  obtain ⟨s', k, hgo, hk⟩ := go_eq_some G hn t hsched s₀ hD hfuel
  exact ⟨s', k, hgo, hk, exact_of_go hn hm hsched hgo⟩

/-- The diamond `3 → {1, 2} → 0` with source `0`; every distance is below the size. -/
theorem go_correct_diamond :
    let G : Graph := ⟨[[], [0], [0], [1, 2]], by decide⟩
    ∃ s' k, go G (fun _ => G.nodesWithEdges) 4 (InitializeIteration.go G 0 State.zero) =
        some (s', k) ∧ k ≤ 3 + 1 ∧
      Exact G 0 s' ∧ LengthFrame (InitializeIteration.go G 0 State.zero) s' :=
  go_correct ⟨[[], [0], [0], [1, 2]], by decide⟩ (by decide) (by decide) 0 _
    (fun _ => List.Perm.refl _) State.zero 3 (fun _ hv _ hd => Nat.le_of_lt_succ (hd.lt_size hv))
    4 (by decide)

end Run

/-! ## A superstep of `2 ^ 32` lowerings

The accumulator is a `uint32_t`: a superstep that lowers lengths `2 ^ 32` times
reads as one that lowered none.  The fan graph does so in its first superstep:
a path `K + 1 → ⋯ → 2 → 1` to the source `1`, processed in increasing order so
that each vertex takes its distance at once, and `F` vertices with edges to
`K + 1, K, …, 1` in that order, each lowered `K + 1` times; `K + F (K + 1) =
2 ^ 32` for `K = 640` and `F = 6700416`, since `2 ^ 32 + 1 = 641 · 6700417`.
Vertex `0 → 2` comes first and is left unreached.  Proofs about the graph
follow the lengths and the accumulator (`LenWork`) and never unfold its edge
lists or its size. -/

section Fan

/-- The length of the path `K + 1 → ⋯ → 2 → 1` of the fan graph. -/
def fanLength : Nat := 640

/-- The number of fan vertices, each with an edge to every path vertex. -/
def fanWidth : Nat := 6700416

/-- `0 → 2`; the path `v → v - 1` for `2 ≤ v ≤ K + 1`; and each fan vertex
`→ K + 1, K, …, 1`, in that order. -/
def fanEdges (v : Nat) : List Nat :=
  if v = 0 then [2] else if v = 1 then [] else if v ≤ fanLength + 1 then [v - 1]
  else (List.range (fanLength + 1)).reverse.map (· + 1)

theorem lt_of_mem_fanEdges {v w : Nat} (hw : w ∈ fanEdges v) (hv : v < fanLength + fanWidth + 2) :
    w < fanLength + fanWidth + 2 := by
  unfold fanEdges at hw
  split at hw
  · simp at hw; subst hw; decide
  · split at hw
    · simp at hw
    · split at hw
      · simp at hw; omega
      · simp only [List.mem_map, List.mem_reverse, List.mem_range] at hw
        obtain ⟨a, ha, rfl⟩ := hw
        simp only [fanLength, fanWidth] at *; omega

/-- The fan graph, with `K = fanLength` and `F = fanWidth` fan vertices. -/
def fanGraph : Graph :=
  ⟨(List.range (fanLength + fanWidth + 2)).map fanEdges, by
    intro l hl w hw
    obtain ⟨v, hv, rfl⟩ := List.mem_map.mp hl
    rw [List.length_map, List.length_range]
    exact lt_of_mem_fanEdges hw (List.mem_range.mp hv)⟩

theorem fanGraph_size : fanGraph.size = fanLength + fanWidth + 2 := by
  simp [fanGraph, Graph.size]

theorem fanGraph_edges {v : Nat} (hv : v < fanLength + fanWidth + 2) :
    fanGraph.edges v = fanEdges v := by
  simp [fanGraph, Graph.edges, List.getD_eq_getElem?_getD, hv]

theorem fanGraph_nodesWithEdges :
    fanGraph.nodesWithEdges = 0 :: List.range' 2 (fanLength + fanWidth) := by
  have hne : ∀ v, v ≠ 1 → v < fanLength + fanWidth + 2 → fanGraph.edges v ≠ [] := fun v h1 hv => by
    rw [fanGraph_edges hv, fanEdges]
    split_ifs <;> simp_all
  rw [Graph.nodesWithEdges, fanGraph_size, List.range_eq_range', List.range'_succ,
    List.range'_succ, List.filter_cons, List.filter_cons,
    List.filter_eq_self.mpr fun v hv => ?_]
  · simp [fanGraph_edges, fanEdges]
  · obtain ⟨h2, hv⟩ := List.mem_range'_1.mp hv
    simpa using hne v (by omega) (by omega)

/-- A superstep's accumulator and the lengths it has left so far. -/
def LenWork (p : State × Nat) (L : Nat → Nat) (W : Nat) : Prop :=
  (∀ v, (p.1.data v).currentLength = L v) ∧ p.2 = W

theorem edge_lenWork_lower {src dst : Nat} {p : State × Nat} {L : Nat → Nat} {W : Nat}
    (h : LenWork p L W) (hlt : u32 (1 + L dst) < L src) :
    LenWork (edge src p dst) (Function.update L src (u32 (1 + L dst))) (W + 1) := by
  refine ⟨fun v => ?_, ?_⟩
  · have hl := @edge_len src dst p v
    simp only [len] at hl
    rw [hl, h.1, h.1]
    by_cases hv : v = src
    · subst hv; simp [Nat.min_eq_right hlt.le]
    · simp [hv, h.1]
  · simp only [edge]
    rw [show (p.1.data src).currentLength = L src from h.1 src,
      show (p.1.data dst).currentLength = L dst from h.1 dst, if_pos hlt, h.2]

theorem edge_lenWork_stay {src dst : Nat} {p : State × Nat} {L : Nat → Nat} {W : Nat}
    (h : LenWork p L W) (hle : ¬ u32 (1 + L dst) < L src) : LenWork (edge src p dst) L W := by
  have hs := h.1 src
  have hd := h.1 dst
  refine ⟨fun v => ?_, ?_⟩
  · by_cases hv : v = src
    · subst hv
      simp only [edge, State.modify_data_self, hs, hd]
      omega
    · simp only [edge, State.modify_data_ne hv, h.1]
  · simp only [edge, hs, hd, gt_iff_lt, if_neg hle, h.2]

theorem LenWork.congr {p : State × Nat} {L L' : Nat → Nat} {W W' : Nat} (h : LenWork p L W)
    (hL : ∀ v, L v = L' v) (hW : W = W') : LenWork p L' W' :=
  ⟨fun v => (h.1 v).trans (hL v), h.2.trans hW⟩

/-- The lengths `InitializeIteration::go` leaves for the source `1` on zeroed records. -/
def fanStart (v : Nat) : Nat :=
  if v = 1 then 0 else if v < fanLength + fanWidth + 2 then infinity else 0

/-- The lengths after the first `j` path vertices. -/
def pathLengths (j v : Nat) : Nat := if 2 ≤ v ∧ v < 2 + j then v - 1 else fanStart v

/-- The lengths after the path and the first `j` fan vertices. -/
def fanLengths (j v : Nat) : Nat :=
  if fanLength + 2 ≤ v ∧ v < fanLength + 2 + j then 1 else pathLengths fanLength v

theorem operator_fan_path {j : Nat} (hj : j < fanLength) (p : State × Nat) :
    operator fanGraph p (2 + j) = edge (2 + j) p (1 + j) := by
  rw [operator, fanGraph_edges (by simp only [fanLength, fanWidth] at *; omega), fanEdges,
    if_neg (by omega), if_neg (by omega), if_pos (by simp only [fanLength] at *; omega)]
  simp only [List.foldl_cons, List.foldl_nil]
  congr 2; omega

/-- The path vertices, in increasing order, each take their distance in one go. -/
theorem path_lenWork {j : Nat} (hj : j ≤ fanLength) (p : State × Nat) {W : Nat}
    (h : LenWork p fanStart W) :
    LenWork ((List.range' 2 j).foldl (operator fanGraph) p) (pathLengths j) (W + j) := by
  have hK : fanLength = 640 := rfl
  have hF : fanWidth = 6700416 := rfl
  induction j with
  | zero => exact h.congr (fun v => (if_neg (by omega)).symm) rfl
  | succ j ih =>
    rw [List.range'_1_concat, List.foldl_append, List.foldl_cons, List.foldl_nil,
      operator_fan_path (by omega)]
    have hsmall : 1 + j < 2 ^ 32 := by omega
    have hprev : pathLengths j (1 + j) = j := by
      unfold pathLengths fanStart; split_ifs <;> omega
    have hinf : pathLengths j (2 + j) = infinity := by
      rw [pathLengths, if_neg (by omega), fanStart, if_neg (by omega), if_pos (by omega)]
    have hlt : u32 (1 + pathLengths j (1 + j)) < pathLengths j (2 + j) := by
      rw [hprev, hinf, u32_of_lt hsmall, infinity_eq]; omega
    refine (edge_lenWork_lower (ih (by omega)) hlt).congr (fun v => ?_) (by omega)
    rw [hprev, u32_of_lt hsmall]
    by_cases hv : v = 2 + j
    · subst hv; rw [Function.update_same, pathLengths, if_pos (by omega)]; omega
    · rw [Function.update_noteq hv]
      unfold pathLengths
      split_ifs <;> omega

/-- A fan vertex relaxes its edges to `m + 1, m, …, 1` in turn and is lowered by every
one of them. -/
theorem fanVertex_lenWork {f : Nat} (m : Nat) (p : State × Nat) {L : Nat → Nat} {W : Nat}
    (h : LenWork p L W) (hpath : ∀ u, 1 ≤ u → u ≤ m + 1 → L u = u - 1) (hf : m + 1 < L f)
    (hfm : m + 1 < f) (hsmall : m + 2 < 2 ^ 32) :
    LenWork (((List.range (m + 1)).reverse.map (· + 1)).foldl (edge f) p)
      (Function.update L f 1) (W + (m + 1)) := by
  induction m generalizing p L W with
  | zero =>
    have hlt : u32 (1 + L 1) < L f := by rw [hpath 1 le_rfl le_rfl]; simpa using hf
    exact (edge_lenWork_lower h hlt).congr (fun v => by rw [hpath 1 le_rfl le_rfl]; rfl) rfl
  | succ m ih =>
    have hL : L (m + 2) = m + 1 := hpath (m + 2) (by omega) le_rfl
    have hlt : u32 (1 + L (m + 2)) < L f := by
      rw [hL, u32_of_lt (by omega)]; omega
    have hlist : (List.range (m + 2)).reverse.map (· + 1) =
        (m + 2) :: (List.range (m + 1)).reverse.map (· + 1) := by
      rw [List.range_succ, List.reverse_append]; rfl
    rw [hlist, List.foldl_cons]
    have h' := edge_lenWork_lower h hlt
    rw [hL, u32_of_lt (by omega)] at h'
    refine (ih _ h' (fun u hu hum => ?_) (by simp) (by omega) (by omega)).congr
      (fun v => by rw [Function.update_idem]) (by omega)
    rw [Function.update_noteq (by omega)]
    exact hpath u hu (by omega)

theorem operator_fan_vertex {j : Nat} (hj : j < fanWidth) (p : State × Nat) :
    operator fanGraph p (fanLength + 2 + j) =
      ((List.range (fanLength + 1)).reverse.map (· + 1)).foldl (edge (fanLength + 2 + j)) p := by
  rw [operator, fanGraph_edges (by omega), fanEdges, if_neg (by simp [fanLength]),
    if_neg (by simp only [fanLength]; omega), if_neg (by omega)]

/-- The fan vertices, each lowered `K + 1` times. -/
theorem fan_lenWork {j : Nat} (hj : j ≤ fanWidth) (p : State × Nat) {W : Nat}
    (h : LenWork p (pathLengths fanLength) W) :
    LenWork ((List.range' (fanLength + 2) j).foldl (operator fanGraph) p) (fanLengths j)
      (W + j * (fanLength + 1)) := by
  have hK : fanLength = 640 := rfl
  have hF : fanWidth = 6700416 := rfl
  induction j with
  | zero => exact h.congr (fun v => (if_neg (by omega)).symm) rfl
  | succ j ih =>
    rw [List.range'_1_concat, List.foldl_append, List.foldl_cons, List.foldl_nil,
      operator_fan_vertex (by omega)]
    have hpath : ∀ u, 1 ≤ u → u ≤ fanLength + 1 → fanLengths j u = u - 1 := fun u h1 h2 => by
      unfold fanLengths pathLengths fanStart; split_ifs <;> omega
    have hf : fanLength + 1 < fanLengths j (fanLength + 2 + j) := by
      rw [fanLengths, if_neg (by omega), pathLengths, if_neg (by omega), fanStart, if_neg (by omega),
        if_pos (by omega), infinity_eq]
      omega
    refine (fanVertex_lenWork fanLength _ (ih (by omega)) hpath hf (by omega)
      (by omega)).congr (fun v => ?_) (by rw [Nat.succ_mul]; omega)
    by_cases hv : v = fanLength + 2 + j
    · subst hv; rw [Function.update_same, fanLengths, if_pos (by omega)]
    · rw [Function.update_noteq hv]
      unfold fanLengths
      split_ifs <;> omega

theorem lenWork_fanStart :
    LenWork (InitializeIteration.go fanGraph 1 State.zero, 0) fanStart 0 := by
  refine ⟨fun v => ?_, rfl⟩
  by_cases hv : v < fanGraph.size
  · rw [InitializeIteration.go_data_of_lt hv, InitializeIteration.operator_currentLength]
    rw [fanGraph_size] at hv
    unfold fanStart; split_ifs <;> rfl
  · rw [InitializeIteration.go, doAll_data_of_le (Nat.le_of_not_lt hv)]
    rw [fanGraph_size] at hv
    unfold fanStart; rw [if_neg (by omega), if_neg hv]; rfl

/-- The first superstep lowers lengths `K + F (K + 1) = 2 ^ 32` times, but never
reaches `0`, which was processed before `2`. -/
theorem body_fanGraph :
    LenWork (body fanGraph (fun _ => fanGraph.nodesWithEdges) 0
      (InitializeIteration.go fanGraph 1 State.zero)) (fanLengths fanWidth) (2 ^ 32) := by
  have h0 : LenWork (operator fanGraph (InitializeIteration.go fanGraph 1 State.zero, 0) 0)
      fanStart 0 := by
    rw [operator, fanGraph_edges (by decide), fanEdges, if_pos rfl, List.foldl_cons,
      List.foldl_nil]
    exact edge_lenWork_stay lenWork_fanStart (by decide)
  rw [body, superstep, fanGraph_nodesWithEdges, List.foldl_cons, Nat.add_comm fanLength,
    ← List.range'_append_1, List.foldl_append, Nat.add_comm 2]
  exact (fan_lenWork le_rfl _ (path_lenWork le_rfl _ h0)).congr (fun _ => rfl) (by decide)

theorem go_fanGraph (fuel : Nat) (hfuel : 0 < fuel) :
    go fanGraph (fun _ => fanGraph.nodesWithEdges) fuel (InitializeIteration.go fanGraph 1 State.zero) =
      some ((body fanGraph (fun _ => fanGraph.nodesWithEdges) 0
        (InitializeIteration.go fanGraph 1 State.zero)).1, 1) := by
  obtain ⟨f, rfl⟩ : ∃ f, fuel = f + 1 := ⟨fuel - 1, by omega⟩
  have hw : u32 (body fanGraph (fun _ => fanGraph.nodesWithEdges) 0
      (InitializeIteration.go fanGraph 1 State.zero)).2 = 0 := by rw [body_fanGraph.2]; rfl
  rw [go, doWhile, if_pos hw]

/-- Vertex `0` is two hops from `1`: `0 → 2 → 1`. -/
theorem isDist_fanGraph_zero : IsDist fanGraph 1 0 2 := by
  have h02 : 2 ∈ fanGraph.edges 0 := by
    rw [fanGraph_edges (by decide)]; exact List.mem_singleton_self 2
  have h21 : 1 ∈ fanGraph.edges 2 := by
    rw [fanGraph_edges (by decide)]; exact List.mem_singleton_self 1
  refine ⟨.step h02 (.step h21 .refl), fun k hk hr => ?_⟩
  rcases hr with _ | @⟨_, w, j, hw, hr'⟩
  rw [fanGraph_edges (by decide), fanEdges, if_pos rfl, List.mem_singleton] at hw
  subst hw
  obtain rfl : j = 0 := by omega
  exact absurd (reach_zero_iff.mp hr') (by decide)

/-- With `2 ^ 32` lowerings in its first superstep the `uint32_t` accumulator reads `0`:
`SSSP::go` stops after one superstep, whatever the fuel, and leaves vertex `0` at
`infinity` although it is two hops from the source `1`. -/
theorem go_stops_early_fanGraph :
    ∃ s, (∀ fuel, 0 < fuel → go fanGraph (fun _ => fanGraph.nodesWithEdges) fuel
        (InitializeIteration.go fanGraph 1 State.zero) = some (s, 1)) ∧
      IsDist fanGraph 1 0 2 ∧ (s.data 0).currentLength = infinity := by
  have hlen : fanLengths fanWidth 0 = infinity := by
    unfold fanLengths pathLengths fanStart
    rw [if_neg (by omega), if_neg (by omega), if_neg (by omega), if_pos (by omega)]
  exact ⟨(body fanGraph (fun _ => fanGraph.nodesWithEdges) 0
    (InitializeIteration.go fanGraph 1 State.zero)).1, go_fanGraph, isDist_fanGraph_zero,
    (body_fanGraph.1 0).trans hlen⟩

end Fan

end SSSP

end DistGalois.BcPull
