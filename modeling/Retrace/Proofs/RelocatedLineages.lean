import Retrace.Proofs.RelocatedRecords
import Retrace.Proofs.Routes

/-!
# Lineages in records with another path

The way from a recorded dataset down to the source of its samples, and from there through the
splits, reads kinds, classes and numbers of splits.  None of them stands under the key of paths, so
in a tree whose paths were set the way leads through the same objects, relocated.

Main results:

- Theorem `lineage_relocate`: the way through the datasets.
- Theorem `splitChain_relocate`: the way through the splits.
- Theorem `route_relocate`: the whole way from the record of a model.
- Theorem `rebuild_relocate`: what is built along it.
-/

namespace Retrace

/-- A lineage with the path of every data source in its objects set. -/
def Lineage.relocate (path : String) (l : Lineage) : Lineage :=
  ⟨l.leaf.relocate path, l.wrapper.relocate path, l.outer.map (Occurrence.relocate path)⟩

namespace Occurrence

variable {path : String} {o : Occurrence}

/-- An object keeps its kind when its paths are set. -/
@[simp] theorem kind_relocate (path : String) (o : Occurrence) :
    (o.relocate path).record.kind = o.record.kind := rfl

@[simp] theorem className_relocate (path : String) (o : Occurrence) :
    (o.relocate path).record.className = o.record.className := rfl

@[simp] theorem configurable_relocate (path : String) (o : Occurrence) :
    (o.relocate path).record.configurable = o.record.configurable := rfl

theorem long?_relocate {key : String} (hkey : key ≠ "path") (o : Occurrence) :
    (o.relocate path).record.long? key = o.record.long? key :=
  Record.long?_relocate hkey

/-! ## Through the datasets -/

/-- The way through the datasets leads through the same objects, relocated. -/
theorem lineage_relocate (path : String) (o : Occurrence) (hplain : o.record.pathsPlain = true) :
    (o.relocate path).lineage = o.lineage.map (Lineage.relocate path) := by
  fun_induction Occurrence.lineage o with
  | case1 o hkind hinner =>
      rw [lineage_eq, kind_relocate, if_pos hkind, inner?_relocate hplain (by decide), hinner]
      rfl
  | case2 o hkind source hinner hsource ih =>
      have hinside := pathsPlain_of_mem_inside hplain (mem_of_inner? hinner)
      rw [lineage_eq, kind_relocate, if_pos hkind, inner?_relocate hplain (by decide), hinner]
      simp only [Option.map_some, kind_relocate, hsource, ih hinside]
      cases source.lineage <;> rfl
  | case3 o hkind source hinner hsource =>
      rw [lineage_eq, kind_relocate, if_pos hkind, inner?_relocate hplain (by decide), hinner]
      simp only [Option.map_some, kind_relocate, hsource]
      rfl
  | case4 o hkind source hinner hsource =>
      rw [lineage_eq, kind_relocate, if_pos hkind, inner?_relocate hplain (by decide), hinner]
      simp only [Option.map_some, kind_relocate, hsource]
      rfl
  | case5 o hkind source hinner hdataset hdata hsplit =>
      rw [lineage_eq, kind_relocate, if_pos hkind, inner?_relocate hplain (by decide), hinner]
      simp only [Option.map_some, kind_relocate, className_relocate]
      rfl
  | case6 o hkind =>
      rw [lineage_eq, kind_relocate, if_neg hkind]
      rfl

/-! ## Through the splits -/

/-- The source that a side of a split was made from is relocated with it. -/
theorem map_splitSource_relocate (hplain : o.record.pathsPlain = true) :
    (o.relocate path).splitSource.map Subtype.val =
      (o.splitSource.map Subtype.val).map (Occurrence.relocate path) := by
  rw [map_splitSource, map_splitSource, inner?_relocate hplain (by decide)]
  cases hinner : o.inner? "source" with
  | none => rfl
  | some inner =>
      have hinside := pathsPlain_of_mem_inside hplain (mem_of_inner? hinner)
      simp only [Option.map_some]
      by_cases hkind : inner.record.kind = .dataset
      · have hsame : (inner.relocate path).record.kind = .dataset := hkind
        rw [if_pos hkind, if_pos hsame, lineage_relocate path inner hinside]
        cases inner.lineage <;> rfl
      · have hsame : ¬(inner.relocate path).record.kind = .dataset := hkind
        rw [if_neg hkind, if_neg hsame]
        rfl

end Occurrence

/-- A split does not depend on paths. -/
theorem Record.splitStep_relocate (path : String) (r : Record) :
    (r.relocate path).splitStep = r.splitStep := by
  have hclass : (r.relocate path).className = r.className := rfl
  rw [splitStep, splitStep, record?_relocate (by decide), Option.isNone_map,
    long?_relocate (by decide), double?, boolean?, primitive?_relocate (by decide),
    primitive?_relocate (by decide), hclass]
  rfl

namespace Occurrence

variable {path : String} {o : Occurrence}

/-- The way through the splits leads through the same objects, relocated. -/
theorem splitChain_relocate (path : String) (o : Occurrence) (hplain : o.record.pathsPlain = true) :
    (o.relocate path).splitChain =
      o.splitChain.map fun found => (found.1.relocate path, found.2) := by
  fun_induction Occurrence.splitChain o with
  | case1 o hkind e hstep =>
      rw [splitChain_eq, kind_relocate, hkind, relocate]
      simp only [Record.splitStep_relocate, hstep]
      rfl
  | case2 o hkind step hstep e hsource =>
      rw [splitChain_eq, kind_relocate, hkind]
      have hstepAfter : (o.relocate path).record.splitStep = .ok step :=
        (Record.splitStep_relocate path _).trans hstep
      simp only [hstepAfter, map_splitSource_relocate hplain, hsource]
      rfl
  | case3 o hkind step hstep inner hlt hsource ih =>
      have hinner : o.splitSource.map Subtype.val = .ok inner := by
        rw [hsource]
        rfl
      have hinside := pathsPlain_of_mem_inside hplain (inside_of_splitSource hinner)
      have hstepAfter : (o.relocate path).record.splitStep = .ok step :=
        (Record.splitStep_relocate path _).trans hstep
      have hinnerAfter : (o.relocate path).splitSource.map Subtype.val =
          .ok (inner.relocate path) := by
        rw [map_splitSource_relocate hplain, hinner]
        rfl
      rw [splitChain_eq, kind_relocate, hkind]
      simp only [hstepAfter, hinnerAfter, ih hinside]
      cases inner.splitChain <;> rfl
  | case4 o hkind =>
      rw [splitChain_eq, kind_relocate, hkind]
      rfl
  | case5 o hsplit hdata =>
      rw [splitChain_eq, kind_relocate, className_relocate]
      cases hkind : o.record.kind with
      | splitDataSource => exact absurd hkind hsplit
      | dataSource => exact absurd hkind hdata
      | _ => rfl

end Occurrence

/-! ## Whole routes -/

/-- A route with the path of every data source in its objects set. -/
def Route.relocate (path : String) (route : Route) : Route :=
  ⟨route.lineage.relocate path, route.leaf.relocate path, route.splits⟩

namespace ModelRecord

/-- An inner object of the record of a model is the same one, relocated. -/
theorem required_relocate {m : ModelRecord} (hplain : m.record.pathsPlain = true) (path : String)
    {key : String} (hkey : key ≠ "path") (kind : RecordKind) :
    (m.relocate path).required key kind =
      (m.required key kind).map (Occurrence.relocate path) := by
  have hinner : (Occurrence.root (m.relocate path).record).inner? key =
      ((Occurrence.root m.record).inner? key).map (Occurrence.relocate path) :=
    Occurrence.inner?_relocate (o := .root m.record) hplain hkey
  rw [required, required, hinner]
  cases (Occurrence.root m.record).inner? key with
  | none => rfl
  | some o =>
      simp only [Option.map_some]
      by_cases hkind : o.record.kind = kind
      · have hsame : (o.relocate path).record.kind = kind := hkind
        rw [if_pos hkind, if_pos hsame]
        rfl
      · have hsame : ¬(o.relocate path).record.kind = kind := hkind
        rw [if_neg hkind, if_neg hsame]
        rfl

/-- The route of a relocated record is the route of the record, relocated. -/
theorem route_relocate {m : ModelRecord} (hplain : m.record.pathsPlain = true) (path : String) :
    (m.relocate path).route = m.route.map (Route.relocate path) := by
  have hdataset : (m.relocate path).dataset = m.dataset.map (Occurrence.relocate path) :=
    required_relocate hplain path (by decide) .dataset
  rw [route, route, hdataset]
  cases hrecorded : m.dataset with
  | error fault => rfl
  | ok recorded =>
      have hinside := Record.pathsPlain_of_mem_occurrences hplain
        (Reproduction.mem_of_dataset hrecorded)
      simp only [Except.map, Except.mapError, bind, Except.bind,
        Occurrence.lineage_relocate path recorded hinside]
      cases hlineage : recorded.lineage with
      | error e => rfl
      | ok lineage =>
          have hleaf := Occurrence.pathsPlain_of_mem_inside hinside
            (Occurrence.inside_of_lineage recorded lineage hlineage).1
          have hchain : (lineage.relocate path).leaf.splitChain =
              lineage.leaf.splitChain.map fun found => (found.1.relocate path, found.2) :=
            Occurrence.splitChain_relocate path lineage.leaf hleaf
          simp only [hchain]
          cases lineage.leaf.splitChain <;> rfl

end ModelRecord

namespace Reproduction

/-- Datasets of the standard classes are made around a dataset as before. -/
theorem rewrap_relocate (path : String) (r : Record) (d : Dataset) :
    Catalog.standard.rewrap (r.relocate path) d = Catalog.standard.rewrap r d := by
  have hclass : (r.relocate path).className = r.className := rfl
  have hreplay : d.replay (r.relocate path) = d.replay r := by
    rw [Dataset.replay, Dataset.replay, Record.long?_relocate (by decide), hclass]
  have hrewrappers : Catalog.standard.rewrappers =
      [("MinimumCardinalityDataset", Dataset.replay)] := rfl
  rw [Catalog.rewrap, Catalog.rewrap, hclass, hrewrappers, Keyed.lookup]
  split
  · rename_i hfound
    split at hfound
    · rw [← Option.some.inj hfound]
      exact hreplay
    · simp at hfound
  · rfl

theorem rewrapAll_relocate (path : String) (d : Dataset) (layers : List Occurrence) :
    rewrapAll .standard d (layers.map (Occurrence.relocate path)) =
      rewrapAll .standard d layers := by
  induction layers generalizing d with
  | nil => rfl
  | cons o rest ih =>
      have hone : Catalog.standard.rewrap (o.relocate path).record d =
          Catalog.standard.rewrap o.record d := rewrap_relocate path o.record d
      rw [List.map_cons, rewrapAll, rewrapAll, hone]
      simp only [ih]

/-- What is built along a relocated route is what is built along the route. -/
theorem rebuild_relocate (path : String) (route : Route) (source : DataSource) :
    rebuild .standard (route.relocate path) source = rebuild .standard route source := by
  have houter : (route.relocate path).lineage.outer.reverse =
      route.lineage.outer.reverse.map (Occurrence.relocate path) := List.map_reverse.symm
  have hclass : (route.relocate path).lineage.wrapper.record.className =
      route.lineage.wrapper.record.className := rfl
  have hsplits : (route.relocate path).splits = route.splits := rfl
  rw [rebuild, rebuild, houter, hclass, hsplits]
  simp only [rewrapAll_relocate]

end Reproduction
end Retrace
