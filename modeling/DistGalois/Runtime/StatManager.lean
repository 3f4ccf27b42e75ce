import DistGalois.Machine
import Mathlib.Data.List.Sort

/-!
# The statistics manager's loop-instance table

`StatManager` (`Support.cpp`) interns loop and category names in a
`std::set<std::string>` and keeps, for each loop name whose instances have
begun, a `(symbol pointer, count)` pair in the vector `loopInstances`, sorted by
pointer and searched with `std::lower_bound`.  Statistic records are pushed onto
per-thread lists, each tagged with the loop's current instance number.

Names are any type with decidable equality.  The pointer of an interned name is
`addr name`: the node of a name in the set never moves, and distinct names have
distinct nodes, so every run of the manager is a run of this model for some
injective `addr`.  Calls are executed one at a time.

Main results:

* `lowerBound_eq` — libstdc++'s `lower_bound` loop returns the partition point
  of a sorted table;
* `Tracks.run` — after any sequence of calls the table is sorted by pointer
  with distinct pointers, every pointer is that of an interned name, and each
  loop name `L` begun `k` times holds the count `(k - 1) mod 2 ^ 32`;
* `run_instanceNumbers` — so `getInstanceNum L` returns `(k - 1) mod 2 ^ 32`, and the
  records of the next call carry it;
* `stats_run` — each thread's record list is exactly the records the calls pushed
  onto it, once each and in call order.
-/

namespace DistGalois.Runtime

/-! ## `std::lower_bound` on the table -/

/-- `std::__lower_bound` on `v[first, first + len)` as libstdc++ runs it, with the
comparator `s1.first < s2` of lines 85 and 93. -/
def lowerBoundFrom (v : List (Nat × Nat)) (s first len : Nat) : Nat :=
  if h : len = 0 then first
  else if (v.getD (first + len / 2) (0, 0)).1 < s then
    lowerBoundFrom v s (first + len / 2 + 1) (len - len / 2 - 1)
  else lowerBoundFrom v s first (len / 2)
termination_by len

/-- `std::lower_bound(loopInstances.begin(), loopInstances.end(), s, …)`, as an index. -/
def lowerBound (v : List (Nat × Nat)) (s : Nat) : Nat := lowerBoundFrom v s 0 v.length

/-- The table is sorted by pointer, with pairwise distinct pointers. -/
def KeysSorted (v : List (Nat × Nat)) : Prop := (v.map Prod.fst).Sorted (· < ·)

section LowerBound

variable {v : List (Nat × Nat)} {s : Nat}

/-- The number of entries whose pointer is below `s`: a prefix, on a sorted table. -/
def below (v : List (Nat × Nat)) (s : Nat) : Nat := (v.takeWhile fun e => e.1 < s).length

theorem getD_mem {i : Nat} (hi : i < v.length) : v.getD i (0, 0) ∈ v := by
  rw [List.getD_eq_getElem?_getD, List.getElem?_eq_getElem hi]; exact List.getElem_mem hi

theorem KeysSorted.tail {e : Nat × Nat} (hs : KeysSorted (e :: v)) : KeysSorted v :=
  List.Sorted.of_cons hs

theorem KeysSorted.head_lt {e : Nat × Nat} (hs : KeysSorted (e :: v)) :
    ∀ f ∈ v, e.1 < f.1 := fun f hf =>
  List.rel_of_sorted_cons hs f.1 (List.mem_map_of_mem _ hf)

/-- On a sorted table, the entry at index `i` has its pointer below `s` exactly when
`i` is below the partition point. -/
theorem key_lt_iff (hs : KeysSorted v) {i : Nat} (hi : i < v.length) :
    (v.getD i (0, 0)).1 < s ↔ i < below v s := by
  induction v generalizing i with
  | nil => simp at hi
  | cons e v ih =>
    by_cases he : e.1 < s
    · cases i with
      | zero => simp [below, List.takeWhile_cons, he]
      | succ i =>
        have := ih hs.tail (by simpa using hi)
        simpa [below, List.takeWhile_cons, he] using this
    · cases i with
      | zero => simp [below, List.takeWhile_cons, he]
      | succ i =>
        have := hs.head_lt _ (getD_mem (v := v) (i := i) (by simpa using hi))
        simp only [below, List.takeWhile_cons, he, decide_False, Bool.false_eq_true, if_false,
          List.length_nil, List.getD_cons_succ]
        omega

theorem below_le_length : below v s ≤ v.length := (List.takeWhile_sublist _).length_le

/-- Each round of the loop keeps the partition point inside `[first, first + len]`. -/
theorem lowerBoundFrom_eq (hs : KeysSorted v) {first len : Nat}
    (hlen : first + len ≤ v.length) (hlo : first ≤ below v s) (hhi : below v s ≤ first + len) :
    lowerBoundFrom v s first len = below v s := by
  induction first, len using lowerBoundFrom.induct v s with
  | case1 first => rw [lowerBoundFrom, dif_pos rfl]; omega
  | case2 first len h hmid ih =>
    have hlt := (key_lt_iff hs (by omega)).mp hmid
    rw [lowerBoundFrom, dif_neg h, if_pos hmid]
    exact ih (by omega) (by omega) (by omega)
  | case3 first len h hmid ih =>
    have hge : ¬ first + len / 2 < below v s := mt (key_lt_iff hs (by omega)).mpr hmid
    rw [lowerBoundFrom, dif_neg h, if_neg hmid]
    exact ih (by omega) hlo (by omega)

/-- `lower_bound` returns the partition point of a sorted table. -/
theorem lowerBound_eq (hs : KeysSorted v) : lowerBound v s = below v s :=
  lowerBoundFrom_eq hs (by simp) (Nat.zero_le _) (by simpa using below_le_length)

/-- On a sorted table, an entry holding `s` sits at the partition point. -/
theorem getElem?_below (hs : KeysSorted v) {c : Nat} (h : (s, c) ∈ v) :
    v[below v s]? = some (s, c) := by
  induction v with
  | nil => simp at h
  | cons e v ih =>
    by_cases he : e.1 < s
    · have hne : (s, c) ≠ e := fun h' => by rw [← h'] at he; exact Nat.lt_irrefl _ he
      have := ih hs.tail ((List.mem_cons.mp h).resolve_left hne)
      simpa [below, List.takeWhile_cons, he] using this
    · rcases List.mem_cons.mp h with rfl | h
      · simp [below, List.takeWhile_cons]
      · have := hs.head_lt _ h
        omega

/-- So on a sorted table the entry found at the partition point is the one holding `s`. -/
theorem eq_of_getElem?_below (hs : KeysSorted v) {c k d : Nat} (h : (s, c) ∈ v)
    (hget : v[below v s]? = some (k, d)) : s = k ∧ c = d :=
  Prod.mk.inj (Option.some.inj ((getElem?_below hs h).symm.trans hget))

theorem KeysSorted.sublist {w : List (Nat × Nat)} (h : w.Sublist v) (hs : KeysSorted v) : KeysSorted w :=
  List.Pairwise.sublist (h.map _) hs

/-- Where the entry at the partition point holds `s`, the table is the entries below
`s`, that entry, and entries above `s`. -/
theorem split_of_getElem? (hs : KeysSorted v) {c : Nat} (h : v[below v s]? = some (s, c)) :
    ∃ pre rest, v = pre ++ (s, c) :: rest ∧ pre.length = below v s ∧
      (∀ e ∈ pre, e.1 < s) ∧ ∀ e ∈ rest, s < e.1 := by
  have hsplit := (List.takeWhile_append_dropWhile (fun e : Nat × Nat => e.1 < s) v).symm
  have hhead : (v.dropWhile fun e => e.1 < s)[0]? = some (s, c) := by
    have := @List.getElem?_append_right _ (v.takeWhile fun e => e.1 < s)
      (v.dropWhile fun e => e.1 < s) _ (Nat.le_refl _)
    rw [← hsplit, Nat.sub_self] at this
    exact this.symm.trans h
  obtain ⟨rest, hrest⟩ : ∃ rest, v.dropWhile (fun e => e.1 < s) = (s, c) :: rest := by
    cases hd : v.dropWhile (fun e => e.1 < s) with
    | nil => rw [hd] at hhead; simp at hhead
    | cons f rest => rw [hd] at hhead; simp at hhead; exact ⟨rest, by rw [hhead]⟩
  have hsorted : KeysSorted ((s, c) :: rest) := hrest ▸ hs.sublist (List.dropWhile_suffix _).sublist
  refine ⟨_, rest, hrest ▸ hsplit, rfl, fun e he => ?_, hsorted.head_lt⟩
  simpa using List.mem_takeWhile_imp he

end LowerBound

/-! ## The two updates of `addInstanceNum` -/

/-- The order `std::sort` is given at line 96, `s1.first < s2.first`, read as the total
preorder it induces: with pairwise distinct pointers every sorting algorithm yields
the same vector. -/
def KeyLe (a b : Nat × Nat) : Prop := a.1 ≤ b.1

instance : DecidableRel KeyLe := fun a b => inferInstanceAs (Decidable (a.1 ≤ b.1))

instance : IsTotal (Nat × Nat) KeyLe := ⟨fun a b => le_total a.1 b.1⟩

instance : IsTrans (Nat × Nat) KeyLe := ⟨fun _ _ _ => le_trans⟩

/-- `loopInstances.emplace_back(s, 0)` followed by `std::sort`. -/
def emplaceSorted (v : List (Nat × Nat)) (s : Nat) : List (Nat × Nat) :=
  (v ++ [(s, 0)]).insertionSort KeyLe

section Update

variable {v : List (Nat × Nat)} {s : Nat}

/-- Line 98, `++ii->second`, on the entry at the partition point: only that count
changes. -/
theorem set_below (hs : KeysSorted v) {c x : Nat} (h : v[below v s]? = some (s, c)) :
    KeysSorted (v.set (below v s) (s, x)) ∧
      ∀ k d, (k, d) ∈ v.set (below v s) (s, x) ↔ ((k, d) ∈ v ∧ k ≠ s) ∨ (k = s ∧ d = x) := by
  obtain ⟨pre, rest, rfl, hpre, hlt, hgt⟩ := split_of_getElem? hs h
  have hset : (pre ++ (s, c) :: rest).set (below (pre ++ (s, c) :: rest) s) (s, x) =
      pre ++ (s, x) :: rest := by
    rw [← hpre, List.set_append_right _ _ (Nat.le_refl _), Nat.sub_self, List.set_cons_zero]
  rw [hset]
  refine ⟨by simpa [KeysSorted] using hs, fun k d => ?_⟩
  have hpre' : (k, d) ∈ pre → k ≠ s := fun hk => Nat.ne_of_lt (hlt _ hk)
  have hrest' : (k, d) ∈ rest → k ≠ s := fun hk => Nat.ne_of_gt (hgt _ hk)
  simp only [List.mem_append, List.mem_cons, Prod.mk.injEq]
  constructor
  · rintro (hk | ⟨rfl, rfl⟩ | hk)
    · exact .inl ⟨.inl hk, hpre' hk⟩
    · exact .inr ⟨rfl, rfl⟩
    · exact .inl ⟨.inr (.inr hk), hrest' hk⟩
  · rintro (⟨hk | ⟨rfl, -⟩ | hk, hne⟩ | ⟨rfl, rfl⟩)
    · exact .inl hk
    · exact absurd rfl hne
    · exact .inr (.inr hk)
    · exact .inr (.inl ⟨rfl, rfl⟩)

/-- Lines 95-96 when `s` is not in the table: it gains the entry `(s, 0)`, still sorted. -/
theorem emplaceSorted_spec (hs : KeysSorted v) (h : ∀ c, (s, c) ∉ v) :
    KeysSorted (emplaceSorted v s) ∧
      ∀ k d, (k, d) ∈ emplaceSorted v s ↔ (k, d) ∈ v ∨ (k = s ∧ d = 0) := by
  have hperm := List.perm_insertionSort KeyLe (v ++ [(s, 0)])
  refine ⟨?_, fun k d => by simp [emplaceSorted, hperm.mem_iff]⟩
  have hle : ((emplaceSorted v s).map Prod.fst).Sorted (· ≤ ·) :=
    List.pairwise_map.mpr (List.sorted_insertionSort KeyLe _)
  have hnodup : ((emplaceSorted v s).map Prod.fst).Nodup := by
    refine (hperm.map Prod.fst).nodup_iff.mpr ?_
    rw [List.map_append, List.nodup_append]
    refine ⟨hs.nodup, List.nodup_singleton _, ?_⟩
    simp only [List.map_cons, List.map_nil, List.disjoint_singleton, List.mem_map, not_exists,
      not_and]
    exact fun e he hes => h e.2 (hes ▸ he)
  exact hle.lt_of_le hnodup

end Update

/-! ## The manager and its calls -/

/-- `RecordTy`: the pointers of the record's loop and category names and its
instance number.  The value and its mode are left out: nothing modelled reads them. -/
structure RecordTy where
  loop : Nat
  category : Nat
  instanceNum : Nat
deriving DecidableEq

/-- `StatManager`: the symbol table, the loop-instance table and the per-thread
record lists of `Stats`. -/
structure StatManager (Name : Type) where
  symbols : List Name
  loopInstances : List (Nat × Nat)
  stats : Nat → List RecordTy

/-- The calls that create loop instances or records, as `SM` receives them. -/
inductive Call (Name : Type)
  /-- `beginLoopInstance(loop)`. -/
  | beginLoopInstance (loop : Name)
  /-- One of the three `addToStat(loop, category, value)` overloads, on thread `tid`. -/
  | addToStat (tid : Nat) (loop category : Name)
  /-- `addToStat(Statistic*)` for the statistic `stat` of loop `loop`. -/
  | addStatistic (activeThreads : Nat) (loop stat : Name)
  /-- `addPageAllocToStat(loop, category)`. -/
  | addPageAllocToStat (activeThreads : Nat) (loop category : Name)
deriving DecidableEq

variable {Name : Type} [DecidableEq Name] (addr : Name → Nat)

namespace StatManager

/-- The manager `SM` constructs: no symbols, no loop instances, no records. -/
def empty : StatManager Name := ⟨[], [], fun _ => []⟩

/-- `getSymbol(str)`: the pointer of an interned name, `nullptr` otherwise. -/
def getSymbol (sm : StatManager Name) (str : Name) : Option Nat :=
  if str ∈ sm.symbols then some (addr str) else none

/-- `getOrInsertSymbol(str)`: `symbols.insert(str)` and the pointer of its node. -/
def getOrInsertSymbol (sm : StatManager Name) (str : Name) : StatManager Name × Nat :=
  ({ sm with symbols := sm.symbols.insert str }, addr str)

/-- `getInstanceNum(str)` (lines 81-89). -/
def getInstanceNum (sm : StatManager Name) (str : Name) : Nat :=
  match sm.getSymbol addr str with
  | none => 0
  | some s =>
    match sm.loopInstances[lowerBound sm.loopInstances s]? with
    | some (k, c) => if s ≠ k then 0 else c
    | none => 0

/-- `addInstanceNum(str)` (lines 91-100). -/
def addInstanceNum (sm : StatManager Name) (str : Name) : StatManager Name :=
  let sm' := (sm.getOrInsertSymbol addr str).1
  let s := (sm.getOrInsertSymbol addr str).2
  let ii := lowerBound sm'.loopInstances s
  match sm'.loopInstances[ii]? with
  | some (k, c) =>
    if s ≠ k then { sm' with loopInstances := emplaceSorted sm'.loopInstances s }
    else { sm' with loopInstances := sm'.loopInstances.set ii (k, u32 (c + 1)) }
  | none => { sm' with loopInstances := emplaceSorted sm'.loopInstances s }

/-- `RecordList::insertStat` on thread `x`'s list: `stats.push_back`. -/
def insertStat (sm : StatManager Name) (x : Nat) (r : RecordTy) : StatManager Name :=
  { sm with stats := Function.update sm.stats x (sm.stats x ++ [r]) }

/-- `insertStat(getOrInsertSymbol(loop), getOrInsertSymbol(category), inst, …)` on
thread `x`, the arguments evaluated left to right; `inst` reads the instance number. -/
def insertStatFor (sm : StatManager Name) (x : Nat) (loop category : Name)
    (inst : StatManager Name → Nat) : StatManager Name :=
  let l := sm.getOrInsertSymbol addr loop
  let c := l.1.getOrInsertSymbol addr category
  c.1.insertStat x ⟨l.2, c.2, inst c.1⟩

/-- The three `addToStat(loop, category, value)` overloads, on the calling thread `tid`. -/
def addToStat (sm : StatManager Name) (tid : Nat) (loop category : Name) : StatManager Name :=
  sm.insertStatFor addr tid loop category fun sm => sm.getInstanceNum addr loop

/-- `addToStat(Statistic*)`: a record with instance `0` on every active thread. -/
def addStatistic (sm : StatManager Name) (activeThreads : Nat) (loop stat : Name) :
    StatManager Name :=
  (List.range activeThreads).foldl (fun sm x => sm.insertStatFor addr x loop stat fun _ => 0) sm

/-- `addPageAllocToStat(loop, category)`: a record on every active thread. -/
def addPageAllocToStat (sm : StatManager Name) (activeThreads : Nat) (loop category : Name) :
    StatManager Name :=
  (List.range activeThreads).foldl
    (fun sm x => sm.insertStatFor addr x loop category fun sm => sm.getInstanceNum addr loop) sm

/-- `beginLoopInstance(str)`. -/
def beginLoopInstance (sm : StatManager Name) (str : Name) : StatManager Name :=
  sm.addInstanceNum addr str

/-- One call. -/
def step (sm : StatManager Name) : Call Name → StatManager Name
  | .beginLoopInstance loop => sm.beginLoopInstance addr loop
  | .addToStat tid loop category => sm.addToStat addr tid loop category
  | .addStatistic n loop stat => sm.addStatistic addr n loop stat
  | .addPageAllocToStat n loop category => sm.addPageAllocToStat addr n loop category

/-- A sequence of calls, one at a time. -/
def run (sm : StatManager Name) (cs : List (Call Name)) : StatManager Name :=
  cs.foldl (step addr) sm

end StatManager

/-- The loop a call of `addToStat(loop, category, value)` or `addPageAllocToStat` records
statistics for. -/
def Call.statLoop : Call Name → Option Name
  | .addToStat _ loop _ => some loop
  | .addPageAllocToStat _ loop _ => some loop
  | _ => none

/-- `k_L`: the number of `beginLoopInstance(L)` calls in `cs`. -/
def beginCount (L : Name) (cs : List (Call Name)) : Nat := cs.count (.beginLoopInstance L)

/-! ## What the table tracks -/

/-- After the calls `cs`: the table is sorted by pointer with distinct pointers, every
pointer is that of an interned name, and a loop name begun `k > 0` times has the one
entry `(k - 1) mod 2 ^ 32`, the others none. -/
structure Tracks (cs : List (Call Name)) (sm : StatManager Name) : Prop where
  sorted : KeysSorted sm.loopInstances
  interned : ∀ e ∈ sm.loopInstances, ∃ str ∈ sm.symbols, addr str = e.1
  count : ∀ L c, (addr L, c) ∈ sm.loopInstances ↔
    0 < beginCount L cs ∧ c = u32 (beginCount L cs - 1)

namespace StatManager

variable {addr} {sm : StatManager Name} {cs : List (Call Name)}

@[simp] theorem getOrInsertSymbol_loopInstances (str : Name) :
    (sm.getOrInsertSymbol addr str).1.loopInstances = sm.loopInstances := rfl

@[simp] theorem getOrInsertSymbol_symbols (str : Name) :
    (sm.getOrInsertSymbol addr str).1.symbols = sm.symbols.insert str := rfl

@[simp] theorem getOrInsertSymbol_snd (str : Name) :
    (sm.getOrInsertSymbol addr str).2 = addr str := rfl

@[simp] theorem getOrInsertSymbol_stats (str : Name) :
    (sm.getOrInsertSymbol addr str).1.stats = sm.stats := rfl

end StatManager

namespace Tracks

open StatManager

variable {addr} {sm : StatManager Name} {cs : List (Call Name)}

theorem empty : Tracks addr [] (StatManager.empty : StatManager Name) :=
  ⟨List.sorted_nil, by simp [StatManager.empty], by simp [StatManager.empty, beginCount]⟩

/-- Interning more names and leaving the table alone keeps what it tracks. -/
theorem of_symbols {sm' : StatManager Name} (h : Tracks addr cs sm)
    (hsym : sm.symbols ⊆ sm'.symbols) (htab : sm'.loopInstances = sm.loopInstances) :
    Tracks addr cs sm' :=
  ⟨htab ▸ h.sorted, fun e he => by
    obtain ⟨str, hs, hstr⟩ := h.interned e (htab ▸ he); exact ⟨str, hsym hs, hstr⟩,
   fun L c => htab ▸ h.count L c⟩

/-- Calls that begin no loop leave every count alone. -/
theorem of_counts {cs' : List (Call Name)} (h : Tracks addr cs sm)
    (hcount : ∀ L, beginCount L cs' = beginCount L cs) : Tracks addr cs' sm :=
  ⟨h.sorted, h.interned, fun L c => by rw [hcount]; exact h.count L c⟩

/-- `getInstanceNum(L)` returns the tracked count, `0` for a loop never begun. -/
theorem getInstanceNum (haddr : Function.Injective addr) (h : Tracks addr cs sm)
    (L : Name) : sm.getInstanceNum addr L = u32 (beginCount L cs - 1) := by
  have hnone : (∀ c, (addr L, c) ∉ sm.loopInstances) → u32 (beginCount L cs - 1) = 0 := by
    intro hno
    by_cases hk : 0 < beginCount L cs
    · exact absurd ((h.count L _).mpr ⟨hk, rfl⟩) (hno _)
    · rw [Nat.eq_zero_of_not_pos hk]; rfl
  unfold StatManager.getInstanceNum getSymbol
  by_cases hL : L ∈ sm.symbols
  · simp only [hL, if_true, lowerBound_eq h.sorted]
    split
    · rename_i k c hget
      split
      · rename_i hne
        exact (hnone fun c' hc' => hne (eq_of_getElem?_below h.sorted hc' hget).1).symm
      · rename_i heq
        rw [not_not] at heq
        subst heq
        exact ((h.count L c).mp (List.getElem?_mem hget)).2
    · rename_i hget
      exact (hnone fun c' hc' => by simp [getElem?_below h.sorted hc'] at hget).symm
  · simp only [hL, if_false]
    refine (hnone fun c hc => hL ?_).symm
    obtain ⟨str, hstr, heq⟩ := h.interned _ hc
    exact haddr heq ▸ hstr

end Tracks

namespace StatManager

variable {addr} {sm : StatManager Name} {cs : List (Call Name)}

@[simp] theorem addInstanceNum_symbols (str : Name) :
    (sm.addInstanceNum addr str).symbols = sm.symbols.insert str := by
  unfold addInstanceNum; dsimp only; split <;> (try split) <;> rfl

variable (addr) in
/-- `addInstanceNum(str)` on a sorted table: it stays sorted, and only the entry of
`str`'s pointer changes, to the incremented count or to a new `0`. -/
theorem addInstanceNum_table (hs : KeysSorted sm.loopInstances) (str : Name) :
    KeysSorted (sm.addInstanceNum addr str).loopInstances ∧
      ∀ k d, (k, d) ∈ (sm.addInstanceNum addr str).loopInstances ↔
        ((k, d) ∈ sm.loopInstances ∧ k ≠ addr str) ∨
        (k = addr str ∧ ((∃ c, (addr str, c) ∈ sm.loopInstances ∧ d = u32 (c + 1)) ∨
          ((∀ c, (addr str, c) ∉ sm.loopInstances) ∧ d = 0))) := by
  have hemplace (habs : ∀ c, (addr str, c) ∉ sm.loopInstances) :
      KeysSorted (emplaceSorted sm.loopInstances (addr str)) ∧
        ∀ k d, (k, d) ∈ emplaceSorted sm.loopInstances (addr str) ↔
          ((k, d) ∈ sm.loopInstances ∧ k ≠ addr str) ∨
          (k = addr str ∧ ((∃ c, (addr str, c) ∈ sm.loopInstances ∧ d = u32 (c + 1)) ∨
            ((∀ c, (addr str, c) ∉ sm.loopInstances) ∧ d = 0))) := by
    refine ⟨(emplaceSorted_spec hs habs).1, fun k d => ?_⟩
    rw [(emplaceSorted_spec hs habs).2]
    constructor
    · rintro (hk | ⟨rfl, rfl⟩)
      · exact .inl ⟨hk, fun he => habs d (he ▸ hk)⟩
      · exact .inr ⟨rfl, .inr ⟨habs, rfl⟩⟩
    · rintro (⟨hk, -⟩ | ⟨rfl, ⟨c, hc, -⟩ | ⟨-, rfl⟩⟩)
      · exact .inl hk
      · exact absurd hc (habs c)
      · exact .inr ⟨rfl, rfl⟩
  unfold addInstanceNum
  simp only [getOrInsertSymbol_loopInstances, lowerBound_eq hs]
  simp only [getOrInsertSymbol]
  split
  · rename_i k c hget
    split
    · rename_i hne
      exact hemplace fun c' hc' => hne (eq_of_getElem?_below hs hc' hget).1
    · rename_i heq
      rw [not_not] at heq
      subst heq
      obtain ⟨hsorted, hmem⟩ := set_below (x := u32 (c + 1)) hs hget
      refine ⟨hsorted, fun k d => (hmem k d).trans ?_⟩
      have huniq : ∀ c', (addr str, c') ∈ sm.loopInstances → c' = c := fun c' hc' =>
        (eq_of_getElem?_below hs hc' hget).2
      constructor
      · rintro (hk | ⟨rfl, rfl⟩)
        · exact .inl hk
        · exact .inr ⟨rfl, .inl ⟨c, List.getElem?_mem hget, rfl⟩⟩
      · rintro (hk | ⟨rfl, ⟨c', hc', rfl⟩ | ⟨habs, -⟩⟩)
        · exact .inl hk
        · exact .inr ⟨rfl, by rw [huniq c' hc']⟩
        · exact absurd (List.getElem?_mem hget) (habs c)
  · rename_i hget
    exact hemplace fun c hc => by simp [getElem?_below hs hc] at hget

end StatManager

/-! ## Every call keeps what the table tracks -/

theorem beginCount_append_begin (L L' : Name) (cs : List (Call Name)) :
    beginCount L' (cs ++ [.beginLoopInstance L]) = beginCount L' cs + if L' = L then 1 else 0 := by
  simp only [beginCount, List.count_append, List.count_singleton, beq_iff_eq,
    Call.beginLoopInstance.injEq]
  by_cases h : L' = L
  · simp [h]
  · simp [h, Ne.symm h]

theorem beginCount_append_of_ne {c : Call Name} (hc : ∀ L, c ≠ .beginLoopInstance L)
    (L : Name) (cs : List (Call Name)) : beginCount L (cs ++ [c]) = beginCount L cs := by
  simp [beginCount, List.count_append, List.count_singleton, hc L]

namespace Tracks

open StatManager

variable {addr} {sm : StatManager Name} {cs : List (Call Name)}

/-- `beginLoopInstance(L)` adds one to the count of `L`. -/
theorem beginLoopInstance (haddr : Function.Injective addr) (h : Tracks addr cs sm) (L : Name) :
    Tracks addr (cs ++ [.beginLoopInstance L]) (sm.beginLoopInstance addr L) := by
  obtain ⟨hsorted, hmem⟩ := addInstanceNum_table addr h.sorted L
  refine ⟨hsorted, fun ⟨k, d⟩ he => ?_, fun L' c => (hmem _ c).trans ?_⟩
  · rcases (hmem k d).mp he with ⟨hk, -⟩ | ⟨rfl, -⟩
    · obtain ⟨str, hstr, heq⟩ := h.interned _ hk
      exact ⟨str, by simpa [StatManager.beginLoopInstance] using .inr hstr, heq⟩
    · exact ⟨L, by simp [StatManager.beginLoopInstance], rfl⟩
  rw [beginCount_append_begin]
  by_cases hL : L' = L
  · subst hL
    simp only [if_true, ne_eq, not_true_eq_false, and_false, true_and, false_or,
      Nat.add_sub_cancel, Nat.succ_pos]
    by_cases hk : 0 < beginCount L' cs
    · have hold : ∀ c₀, (addr L', c₀) ∈ sm.loopInstances ↔ c₀ = u32 (beginCount L' cs - 1) :=
        fun c₀ => (h.count L' c₀).trans (and_iff_right hk)
      simp only [hold, exists_eq_left, forall_eq, not_true_eq_false, false_and, or_false]
      rw [u32_add_u32, Nat.sub_add_cancel hk]
    · have hno : ∀ c₀, (addr L', c₀) ∉ sm.loopInstances := fun c₀ hc₀ => hk ((h.count L' c₀).mp hc₀).1
      simp only [hno, false_and, exists_false, false_or, not_false_eq_true, implies_true, true_and,
        Nat.eq_zero_of_not_pos hk]
      rfl
  · have hne : addr L' ≠ addr L := fun h' => hL (haddr h')
    simp [hL, hne, h.count]

/-- A record for `loop` on thread `x`, its instance number read from a state with the
same counts as `sm`. -/
theorem insertStatFor (h : Tracks addr cs sm) {inst : StatManager Name → Nat} {val : Nat}
    (hinst : ∀ t, Tracks addr cs t → inst t = val) (x : Nat) (loop category : Name) :
    Tracks addr cs (sm.insertStatFor addr x loop category inst) ∧
      ∀ y, (sm.insertStatFor addr x loop category inst).stats y =
        sm.stats y ++ if y = x then [⟨addr loop, addr category, val⟩] else [] := by
  have h₂ : Tracks addr cs ((sm.getOrInsertSymbol addr loop).1.getOrInsertSymbol addr category).1 :=
    h.of_symbols (fun a ha => by simp [ha]) rfl
  refine ⟨h₂.of_symbols (fun _ ha => ha) rfl, fun y => ?_⟩
  by_cases hy : y = x
  · subst hy; simp [StatManager.insertStatFor, insertStat, hinst _ h₂]
  · simp [StatManager.insertStatFor, insertStat, hy]

/-- The same record on every thread of `xs`, in turn. -/
theorem foldl_insertStatFor (h : Tracks addr cs sm) {inst : StatManager Name → Nat} {val : Nat}
    (hinst : ∀ t, Tracks addr cs t → inst t = val) (xs : List Nat) (loop category : Name) :
    Tracks addr cs (xs.foldl (fun sm x => sm.insertStatFor addr x loop category inst) sm) ∧
      ∀ y, (xs.foldl (fun sm x => sm.insertStatFor addr x loop category inst) sm).stats y =
        sm.stats y ++ List.replicate (xs.count y) ⟨addr loop, addr category, val⟩ := by
  induction xs generalizing sm with
  | nil => simpa using h
  | cons x xs ih =>
    obtain ⟨h', hstats⟩ := h.insertStatFor hinst x loop category
    refine ⟨(ih h').1, fun y => ?_⟩
    rw [List.foldl_cons, (ih h').2, hstats, List.count_cons]
    by_cases hy : y = x
    · subst hy; simp [List.replicate_succ]
    · simp [hy, Ne.symm hy]

/-- One call of any kind. -/
theorem step (haddr : Function.Injective addr) (h : Tracks addr cs sm) (c : Call Name) :
    Tracks addr (cs ++ [c]) (sm.step addr c) := by
  have hget : ∀ L t, Tracks addr cs t → t.getInstanceNum addr L = u32 (beginCount L cs - 1) :=
    fun L t ht => ht.getInstanceNum haddr L
  cases c with
  | beginLoopInstance L => exact h.beginLoopInstance haddr L
  | addToStat tid loop category =>
    exact (h.insertStatFor (hget loop) tid loop category).1.of_counts
      (beginCount_append_of_ne (by simp) · cs)
  | addStatistic n loop stat =>
    exact (h.foldl_insertStatFor (fun _ _ => (rfl : (0 : Nat) = 0)) _ loop stat).1.of_counts
      (beginCount_append_of_ne (by simp) · cs)
  | addPageAllocToStat n loop category =>
    exact (h.foldl_insertStatFor (hget loop) _ loop category).1.of_counts
      (beginCount_append_of_ne (by simp) · cs)

/-- What the table tracks holds after every sequence of calls. -/
theorem run (haddr : Function.Injective addr) (cs : List (Call Name)) :
    Tracks addr cs (StatManager.empty.run addr cs) := by
  induction cs using List.reverseRecOn with
  | nil => exact empty
  | append_singleton cs c ih =>
    rw [StatManager.run, List.foldl_append, List.foldl_cons, List.foldl_nil]
    exact ih.step haddr c

end Tracks

/-! ## Instance numbers -/

namespace StatManager

variable {addr}

/-- Over every sequence of calls on the manager, one at a time: the loop-instance table
stays sorted by pointer with pairwise distinct pointers, each that of an interned name;
`getInstanceNum(L)` returns `k_L - 1` modulo `2 ^ 32` (`0` while `k_L = 0`); and the
records the next `addToStat(L, …)` or `addPageAllocToStat(L, …)` pushes, on whatever
thread, carry that instance number. -/
theorem run_instanceNumbers (haddr : Function.Injective addr) (cs : List (Call Name)) :
    (((empty.run addr cs).loopInstances.map Prod.fst).Sorted (· < ·) ∧
      ∀ e ∈ (empty.run addr cs).loopInstances, ∃ str ∈ (empty.run addr cs).symbols, addr str = e.1) ∧
      (∀ L, (empty.run addr cs).getInstanceNum addr L = u32 (beginCount L cs - 1)) ∧
      ∀ c L, c.statLoop = some L → ∀ x, ∃ new,
        ((empty.run addr cs).step addr c).stats x = (empty.run addr cs).stats x ++ new ∧
        ∀ r ∈ new, r.loop = addr L ∧ r.instanceNum = u32 (beginCount L cs - 1) := by
  have h := Tracks.run haddr cs
  have hget : ∀ L t, Tracks addr cs t → t.getInstanceNum addr L = u32 (beginCount L cs - 1) :=
    fun L t ht => ht.getInstanceNum haddr L
  refine ⟨⟨h.sorted, h.interned⟩, (hget · _ h), fun c L hc x => ?_⟩
  cases c with
  | addToStat tid loop category =>
    obtain rfl : loop = L := Option.some.inj hc
    refine ⟨_, (h.insertStatFor (hget loop) tid loop category).2 x, fun r hr => ?_⟩
    split at hr
    · simp_all
    · simp at hr
  | addPageAllocToStat n loop category =>
    obtain rfl : loop = L := Option.some.inj hc
    refine ⟨_, (h.foldl_insertStatFor (hget loop) _ loop category).2 x, fun r hr => ?_⟩
    rw [(List.mem_replicate.mp hr).2]
    exact ⟨rfl, rfl⟩
  | beginLoopInstance => cases hc
  | addStatistic => cases hc

/-- Two instances of loop `7` with a statistic between them: `getInstanceNum(7)` is `1`. -/
theorem run_instanceNumbers_two :
    (empty.run id [.beginLoopInstance 7, .addToStat 0 7 3, .beginLoopInstance 7]).getInstanceNum
      id 7 = 1 :=
  ((run_instanceNumbers Function.injective_id _).2.1 7).trans (by decide)

/-- After `2 ^ 32 + 1` instances of one loop the count has wrapped: `getInstanceNum`
returns `0`, not `2 ^ 32`. -/
theorem getInstanceNum_wraps :
    (empty.run id (List.replicate (2 ^ 32 + 1) (Call.beginLoopInstance 0))).getInstanceNum id 0 = 0 ∧
      beginCount 0 (List.replicate (2 ^ 32 + 1) (Call.beginLoopInstance (0 : Nat))) - 1 = 2 ^ 32 := by
  have hk : beginCount 0 (List.replicate (2 ^ 32 + 1) (Call.beginLoopInstance (0 : Nat))) =
      2 ^ 32 + 1 := by
    rw [beginCount, List.count_replicate_self]
  rw [(Tracks.run Function.injective_id _).getInstanceNum Function.injective_id 0, hk]
  exact ⟨rfl, rfl⟩

end StatManager

/-! ## The record lists

What the per-thread lists hold after a run, stated from the calls alone: every call's
records, once each, in call order, each tagged with the number of instances its loop had
begun before it. -/

/-- The records a call pushes onto thread `y`'s list after the calls `cs`: an
`addToStat(loop, category, value)` one on its own thread, an `addToStat(Statistic*)` and
an `addPageAllocToStat` one on each active thread. -/
def Call.records (cs : List (Call Name)) (y : Nat) : Call Name → List RecordTy
  | .beginLoopInstance _ => []
  | .addToStat tid loop category =>
    if y = tid then [⟨addr loop, addr category, u32 (beginCount loop cs - 1)⟩] else []
  | .addStatistic n loop stat => if y < n then [⟨addr loop, addr stat, 0⟩] else []
  | .addPageAllocToStat n loop category =>
    if y < n then [⟨addr loop, addr category, u32 (beginCount loop cs - 1)⟩] else []

/-- Thread `y`'s records after the calls `pre` and then `cs`, call after call. -/
def logAfter (y : Nat) : List (Call Name) → List (Call Name) → List RecordTy
  | _, [] => []
  | pre, c :: cs => c.records addr pre y ++ logAfter y (pre ++ [c]) cs

/-- Thread `y`'s records after the calls `cs`. -/
def log (cs : List (Call Name)) (y : Nat) : List RecordTy := logAfter addr y [] cs

theorem logAfter_append_singleton (y : Nat) (pre cs : List (Call Name)) (c : Call Name) :
    logAfter addr y pre (cs ++ [c]) = logAfter addr y pre cs ++ c.records addr (pre ++ cs) y := by
  induction cs generalizing pre with
  | nil => simp [logAfter]
  | cons c' cs ih => simp [logAfter, ih]

/-- One record on every thread below `n`. -/
theorem replicate_count_range (n y : Nat) (r : RecordTy) :
    List.replicate ((List.range n).count y) r = if y < n then [r] else [] := by
  split
  · rw [List.count_eq_one_of_mem (List.nodup_range n) (List.mem_range.2 ‹_›)]; rfl
  · rw [List.count_eq_zero_of_not_mem (mt List.mem_range.1 ‹_›)]; rfl

namespace StatManager

variable {addr}

@[simp] theorem addInstanceNum_stats (sm : StatManager Name) (str : Name) :
    (sm.addInstanceNum addr str).stats = sm.stats := by
  simp only [addInstanceNum]
  split
  · split <;> rfl
  · rfl

end StatManager

namespace Tracks

variable {addr} {sm : StatManager Name} {cs : List (Call Name)}

/-- One call appends its own records to every thread's list. -/
theorem stats_step (haddr : Function.Injective addr) (h : Tracks addr cs sm) (c : Call Name)
    (y : Nat) : (sm.step addr c).stats y = sm.stats y ++ c.records addr cs y := by
  have hget : ∀ L t, Tracks addr cs t → t.getInstanceNum addr L = u32 (beginCount L cs - 1) :=
    fun L t ht => ht.getInstanceNum haddr L
  cases c with
  | beginLoopInstance L =>
    simp [StatManager.step, StatManager.beginLoopInstance, Call.records]
  | addToStat tid loop category => exact (h.insertStatFor (hget loop) tid loop category).2 y
  | addStatistic n loop stat =>
    rw [StatManager.step, StatManager.addStatistic,
      (h.foldl_insertStatFor (fun _ _ => (rfl : (0 : Nat) = 0)) _ loop stat).2 y,
      replicate_count_range]
    rfl
  | addPageAllocToStat n loop category =>
    rw [StatManager.step, StatManager.addPageAllocToStat,
      (h.foldl_insertStatFor (hget loop) _ loop category).2 y, replicate_count_range]
    rfl

end Tracks

namespace StatManager

variable {addr}

/-- **Every record once, in call order.** Over every sequence of calls on the manager,
one at a time, each thread's list holds exactly the records the calls pushed onto it, in
the order of the calls: none is lost, none is duplicated, and each carries its loop's
instance number `k_L - 1` modulo `2 ^ 32` at the time of its call (a statistic's `0`). -/
theorem stats_run (haddr : Function.Injective addr) (cs : List (Call Name)) (y : Nat) :
    (empty.run addr cs).stats y = log addr cs y := by
  induction cs using List.reverseRecOn with
  | nil => rfl
  | append_singleton cs c ih =>
    rw [run, List.foldl_append, List.foldl_cons, List.foldl_nil, log, logAfter_append_singleton,
      List.nil_append, ← log, ← ih]
    exact (Tracks.run haddr cs).stats_step haddr c y

/-- Two instances of loop `7`, a page-allocation record on two threads between them and a
statistic on thread `1` after: thread `1` holds the two records, of instances `0` and `1`. -/
theorem stats_run_two :
    (empty.run id [.beginLoopInstance 7, .addPageAllocToStat 2 7 3, .beginLoopInstance 7,
      .addToStat 1 7 4]).stats 1 = [⟨7, 3, 0⟩, ⟨7, 4, 1⟩] :=
  (stats_run Function.injective_id _ 1).trans (by decide)

end StatManager

end DistGalois.Runtime
