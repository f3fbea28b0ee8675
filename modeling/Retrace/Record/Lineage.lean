import Retrace.Error

/-!
# Lineages of datasets

The record of a dataset names the source that the dataset was made from.  The source may be another
dataset, so a lineage leads down through datasets to a source that is none.

Main results:

- Theorem `Occurrence.lineage_spec`: a lineage ends at a data source or at a side of a split, and
  the object around its end is a dataset.
-/

namespace Retrace

/-- The way from a dataset to the source of its samples. -/
structure Lineage where
  /-- the source at the end -/
  leaf : Occurrence
  /-- the dataset directly around the source -/
  wrapper : Occurrence
  /-- the datasets around that one, the outermost first -/
  outer : List Occurrence

/-- The lineage of a dataset. -/
def Occurrence.lineage (o : Occurrence) : Result Lineage :=
  if o.record.kind = .dataset then
    match _h : o.inner? "source-provenance" with
    | none => .error (.recovery (.noSource o.record.className))
    | some source =>
        match source.record.kind with
        | .dataset => (source.lineage).map fun l => { l with outer := o :: l.outer }
        | .dataSource => .ok ⟨source, o, []⟩
        | .splitDataSource => .ok ⟨source, o, []⟩
        | kind =>
            .error (.recovery (.backedBy o.record.className kind source.record.className))
  else .error (.recovery (.notDataset o.record.kind o.record.className))
termination_by o.record.objects
decreasing_by exact Occurrence.objects_lt_of_inner _h

/-- The lineage of a record of a dataset. -/
def Record.lineage (r : Record) : Result Lineage :=
  (Occurrence.root r).lineage

/-! ## Laws -/

/-- A lineage ends at a data source or at a side of a split, and the object around its end is a
dataset. -/
theorem Occurrence.lineage_spec (o : Occurrence) : ∀ l, o.lineage = .ok l →
    (l.leaf.record.kind = .dataSource ∨ l.leaf.record.kind = .splitDataSource) ∧
      l.wrapper.record.kind = .dataset := by
  fun_induction Occurrence.lineage o with
  | case1 => simp
  | case2 o hkind source hinner hsource ih =>
      intro l h
      cases hl : source.lineage with
      | error e => simp [hl, Except.map] at h
      | ok inner =>
          simp only [hl, Except.map, Except.ok.injEq] at h
          subst h
          exact ih inner hl
  | case3 o hkind source hinner hsource =>
      intro l h
      simp only [Except.ok.injEq] at h
      subst h
      exact ⟨.inl hsource, hkind⟩
  | case4 o hkind source hinner hsource =>
      intro l h
      simp only [Except.ok.injEq] at h
      subst h
      exact ⟨.inr hsource, hkind⟩
  | case5 => simp
  | case6 => simp

end Retrace
