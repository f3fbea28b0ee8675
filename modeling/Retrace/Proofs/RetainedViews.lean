import Retrace.Proofs.ReproductionCalls

/-!
# What computations leave as it was

A view of a state stays if a computation leaves it as it was, however the computation ends.  Over
any catalog the work of a workshop that makes components, and the training, leave the catalog and
the configurations as they were.

Main results:

- Theorem `Workshop.retains_lookup`: looking components up keeps the configurations.
- Theorem `Reproduction.retains_inWorkshop`: work that keeps the configurations keeps every view
  that overlooks what was made.
-/

namespace Retrace

/-! ## Views that stay -/

section Retains

variable {σ τ β γ : Type}

/-- Whether a computation from a state leaves a view of it as it was, however it ends. -/
def Retains (view : σ → τ) (s : σ) (x : ExceptT Error (StateM σ) β) : Prop :=
  view (x.run s).2 = view s

namespace Retains

variable {view : σ → τ} {s : σ} {x : ExceptT Error (StateM σ) β}

theorem pure (b : β) : Retains view s (Pure.pure b : ExceptT Error (StateM σ) β) := rfl

theorem throw (e : Error) :
    Retains view s (MonadExcept.throw e : ExceptT Error (StateM σ) β) := rfl

/-- A change that the view does not see retains it. -/
theorem of_modify {g : σ → σ} (h : view (g s) = view s) :
    Retains view s (modify g : ExceptT Error (StateM σ) PUnit) := h

/-- Steps that retain a view one after the other retain it. -/
theorem bind {f : β → ExceptT Error (StateM σ) γ} (h : Retains view s x)
    (hnext : ∀ b t, view t = view s → Retains view t (f b)) : Retains view s (x >>= f) := by
  rw [Retains] at h
  rcases hx : x.run s with ⟨found, t⟩
  rw [hx] at h
  cases found with
  | error e =>
      rw [Retains, run_bind_error hx]
      exact h
  | ok b =>
      rw [Retains, run_bind_ok hx]
      exact (hnext b t h).trans h

/-- What a computation yields may be left aside. -/
theorem discard (h : Retains view s x) :
    Retains view s (do
      let _ ← x
      return ()) :=
  h.bind fun _ _ _ => pure ()

/-- What follows a look at the state may depend on it. -/
theorem get_bind {f : σ → ExceptT Error (StateM σ) β} (h : Retains view s (f s)) :
    Retains view s (get >>= f) := by
  rw [Retains, run_get_bind]
  exact h

theorem adapt (h : Retains view s x) (f : Error → Error) : Retains view s (x.adapt f) := by
  rw [Retains, run_adapt]
  exact h

/-- Work and the handling of its errors retain a view together. -/
theorem tryCatch {handler : Error → ExceptT Error (StateM σ) β} (h : Retains view s x)
    (hnext : ∀ e t, view t = view s → Retains view t (handler e)) :
    Retains view s (MonadExcept.tryCatch x handler) := by
  rw [Retains] at h
  rcases hx : x.run s with ⟨found, t⟩
  rw [hx] at h
  cases found with
  | error e =>
      have hcatch : (MonadExcept.tryCatch x handler).run s = (handler e).run t :=
        run_tryCatch_error hx
      rw [Retains, hcatch]
      exact (hnext e t h).trans h
  | ok b =>
      have hcatch : (MonadExcept.tryCatch x handler).run s = (.ok b, t) := run_tryCatch_ok hx
      rw [Retains, hcatch]
      exact h

end Retains

end Retains

/-! ## Work that keeps the configurations -/

namespace Workshop

variable {directory : Directory}

/-- What a workshop works from. -/
def orders (w : Workshop) : Catalog × List Configuration :=
  (w.catalog, w.configurations)

/-- Putting a product into a workshop changes neither configurations nor catalog. -/
theorem retains_keep (w : Workshop) (product : Product) : Retains orders w (keep product) := by
  cases product <;> rfl

/-- Following a recipe changes no more than looking up does. -/
theorem retains_follow {look : String → Work Component}
    (hlook : ∀ name v, Retains orders v (look name)) (recipe : Recipe) (w : Workshop) :
    Retains orders w (follow look recipe) := by
  induction recipe generalizing w with
  | done product => exact .pure product
  | fail e => exact .throw e
  | use name next ih => exact (hlook name w).bind fun c v _ => ih c v

/-- Making a component changes no more than looking up does. -/
theorem retains_make {look : String → Work Component}
    (hlook : ∀ name v, Retains orders v (look name)) (c : Configuration) (w : Workshop) :
    Retains orders w (make look directory c) := by
  rw [make]
  apply Retains.get_bind
  split
  · exact .throw _
  · apply ((retains_follow hlook _ w).adapt _).bind
    intro product v _
    split
    · exact retains_keep v product
    · exact .throw _

/-- The names that are being made are not part of the view. -/
theorem retains_whileMaking {β : Type} {work : Work β} (name : String)
    (h : ∀ v, Retains orders v work) (w : Workshop) : Retains orders w (whileMaking name work) := by
  rw [whileMaking]
  apply Retains.bind (.of_modify rfl)
  intro _ v _
  apply Retains.tryCatch
  · exact (h v).bind fun value u _ => Retains.bind (.of_modify rfl) fun _ t _ => .pure value
  · intro e u _
    split
    · exact .throw e
    · exact Retains.bind (.of_modify rfl) fun _ t _ => .throw e

/-- Looking up changes neither configurations nor catalog, to whatever depth references go. -/
theorem retains_lookupWithin (fuel : Nat) (name : String) (w : Workshop) :
    Retains orders w (lookupWithin directory fuel name) := by
  induction fuel generalizing name w with
  | zero =>
      rw [lookupWithin]
      apply Retains.get_bind
      split
      · exact .pure _
      · split
        · exact .throw _
        · split <;> exact .throw _
  | succ fuel ih =>
      rw [lookupWithin]
      apply Retains.get_bind
      split
      · exact .pure _
      · split
        · exact .throw _
        · split
          · exact .throw _
          · apply (retains_whileMaking name (fun v => retains_make ih _ v) w).bind
            intro c v _
            exact Retains.bind (.of_modify rfl) fun _ u _ => .pure c

/-- Looking a component up changes neither configurations nor catalog. -/
theorem retains_lookup (name : String) (w : Workshop) :
    Retains orders w (lookup directory name) := by
  rw [lookup]
  exact (retains_lookupWithin _ name w).get_bind

/-- Looking several components up changes neither configurations nor catalog. -/
theorem retains_lookupAll (names : List String) (w : Workshop) :
    Retains orders w (lookupAll directory names) := by
  induction names generalizing w with
  | nil => exact .pure _
  | cons name rest ih =>
      apply (retains_lookup name w).bind
      intro c v _
      exact (ih v).bind fun more u _ => .pure _

/-- Looking all components of a class up changes neither configurations nor catalog. -/
theorem retains_allOfClass (className : String) (w : Workshop) :
    Retains orders w (allOfClass directory className) := by
  rw [allOfClass]
  exact (retains_lookupAll _ w).get_bind

/-- Looking all components of a kind up changes neither configurations nor catalog. -/
theorem retains_allOfKind (kind : ComponentKind) (w : Workshop) :
    Retains orders w (allOfKind directory kind) := by
  rw [allOfKind]
  exact (retains_lookupAll _ w).get_bind

/-- A training changes neither configurations nor catalog. -/
theorem retains_train (occasion : Occasion) (handle : Nat) (d : Dataset) (w : Workshop) :
    Retains orders w (train occasion handle d) := by
  rw [train]
  apply Retains.get_bind
  split
  · exact .throw _
  · apply Retains.bind (.of_modify rfl)
    intro _ v _
    split
    · exact .pure _
    · exact .throw _

end Workshop

namespace Reproduction

variable {directory : Directory}

/-! ## Views of reproductions -/

/-- Whether a view of a reproduction overlooks what its workshop has made. -/
def Overlooks {τ : Type} (view : Reproduction → τ) : Prop :=
  ∀ (r : Reproduction) (w : Workshop), w.orders = r.workshop.orders →
    view { r with workshop := w } = view r

/-- Ending with a result changes nothing. -/
theorem retains_ofResult {β τ : Type} (view : Reproduction → τ) (r : Reproduction)
    (result : Result β) : Retains view r (ofResult result) := by
  cases result with
  | ok b => exact .pure b
  | error e => exact .throw e

/-- Work that keeps the configurations keeps a view that overlooks what was made. -/
theorem retains_inWorkshop {β τ : Type} {view : Reproduction → τ} (hview : Overlooks view)
    {work : Work β} (r : Reproduction) (h : Retains Workshop.orders r.workshop work) :
    Retains view r (inWorkshop work) := by
  rw [Retains, run_inWorkshop]
  exact hview r _ h

/-- Making a source anew changes what looking up changes. -/
theorem retains_recoverLeaf {τ : Type} {view : Reproduction → τ} (hview : Overlooks view)
    (r : Reproduction) (order : DependencyOrder) (leaf : Occurrence) :
    Retains view r (recoverLeaf directory order leaf) := by
  rw [recoverLeaf]
  split
  · exact Retains.throw _
  · apply Retains.get_bind
    cases order.nameOf? leaf with
    | none =>
        simp only
        split <;> exact Retains.throw _
    | some name =>
        simp only
        split
        · exact Retains.throw _
        · apply (retains_inWorkshop hview r (Workshop.retains_lookup name _)).bind
          intro c s _
          split
          · exact .pure _
          · exact .throw _

end Reproduction
end Retrace
