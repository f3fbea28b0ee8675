import Retrace.Proofs.LookupOutcomes

/-!
# The recursion of looking up

Looking a component up follows its recipe, and the recipe looks other components up.  Nothing in the
configurations keeps them from referring to each other in circles, so the recursion has no end in
them; it has one in the names that are being made.  Each of them is the name of a configuration and
stands there once, so there is room for fewer and fewer of them.  Unfolding the recursion as often
as there are configurations, and once more, therefore never gets to its bottom, and what would be
done there does not matter.

Where a chain of lookups comes back to a name that is being made, every lookup of the chain fails.

Main results:

- Theorem `run_iterate_lookupBy`: the recursion never gets to its bottom.
- Theorem `run_lookup_eq`: a lookup is one step of the recursion.
- Theorem `ComesTo.run_lookup`: a chain that comes back to a name being made fails.
-/

namespace Retrace
namespace Workshop

variable {directory : Directory} {refers : Configuration → String → Prop} {u w v : Workshop}

/-! ## One step of the recursion -/

/-- Look a component up, and what its recipe asks for by `look`. -/
def lookupBy (directory : Directory) (look : String → Work Component) (name : String) :
    Work Component := do
  let w ← get
  match Keyed.lookup name w.instances with
  | some c => pure c
  | none =>
      match w.configuration? name with
      | none => throw (.component name .notRegistered)
      | some config =>
          if w.making.contains name then
            throw (.component name (.cycle (w.making ++ [name])))
          else do
            let c ← whileMaking name (make look directory config)
            modify fun w => { w with instances := Keyed.insert name c w.instances }
            pure c

theorem lookupWithin_succ (directory : Directory) (fuel : Nat) :
    lookupWithin directory (fuel + 1) = lookupBy directory (lookupWithin directory fuel) := by
  funext name
  rw [lookupWithin]
  rfl

theorem lookupWithin_add (directory : Directory) (n fuel : Nat) :
    lookupWithin directory (n + fuel) =
      (lookupBy directory)^[n] (lookupWithin directory fuel) := by
  induction n with
  | zero => rw [Nat.zero_add, Function.iterate_zero_apply]
  | succ n ih =>
      rw [Nat.add_right_comm, lookupWithin_succ, ih, Function.iterate_succ_apply']

/-! ## Room for names -/

/-- How many configurations there are whose names are not being made. -/
def room (w : Workshop) : Nat :=
  (w.configurations.filter fun c => !w.making.contains c.name).length

/-- There is more depth than room for names. -/
theorem room_lt_depth (w : Workshop) : w.room < w.depth :=
  Nat.lt_succ_of_le (List.length_filter_le _ _)

/-- Where a name is being made there is less room. -/
theorem room_busy_lt {name : String} {config : Configuration}
    (hconfig : w.configuration? name = some config) (hmaking : name ∉ w.making) :
    ({ w with making := w.making ++ [name] } : Workshop).room < w.room := by
  have hfilter : (w.configurations.filter fun c => !(w.making ++ [name]).contains c.name) =
      (w.configurations.filter fun c => !w.making.contains c.name).filter fun c =>
        !decide (c.name = name) := by
    rw [List.filter_filter]
    apply List.filter_congr
    intro c _
    simp [Bool.and_comm]
  have hmem := List.mem_of_find?_eq_some hconfig
  have hname := name_of_configuration? hconfig
  rw [room, room, hfilter, List.length_filter_lt_length_iff_exists]
  exact ⟨config, by simp [hmem, hname, hmaking], by simp [hname]⟩

/-- Whether two workshops have the same plans, and the same components are being made. -/
structure AtWorkAs (w v : Workshop) : Prop where
  catalog : v.catalog = w.catalog
  configurations : v.configurations = w.configurations
  making : v.making = w.making

theorem AtWorkAs.refl (w : Workshop) : w.AtWorkAs w :=
  ⟨rfl, rfl, rfl⟩

theorem AtWorkAs.trans (huw : u.AtWorkAs w) (hwv : w.AtWorkAs v) : u.AtWorkAs v :=
  ⟨hwv.catalog.trans huw.catalog, hwv.configurations.trans huw.configurations,
    hwv.making.trans huw.making⟩

/-- Workshops at the same work have the same room. -/
theorem AtWorkAs.room_eq (h : w.AtWorkAs v) : v.room = w.room := by
  rw [room, room, h.configurations, h.making]

/-- A lookup that ends well leaves the workshop at the same work. -/
theorem atWorkAs_of_run_lookupWithin {fuel : Nat} {name : String} {c : Component}
    (hcatalog : w.catalog.Orderly refers)
    (h : (lookupWithin directory fuel name).run w = (.ok c, v)) : w.AtWorkAs v := by
  cases @concludes_lookupWithin directory refers w fuel name hcatalog with
  | error e u run => exact absurd (Prod.mk.inj (h.symm.trans run)).1 (by simp)
  | ok d u run advances making yields =>
      obtain rfl := (Prod.mk.inj (h.symm.trans run)).2
      exact ⟨advances.grows.catalog, advances.grows.configurations, making⟩

/-! ## Lookups that agree -/

section

variable {look other : String → Work Component}

/-- Following a recipe with lookups that agree as long as the workshop is at its work. -/
theorem run_follow_congr
    (hsame : ∀ name v, w.AtWorkAs v → (look name).run v = (other name).run v)
    (hkeeps : ∀ name v c u, w.AtWorkAs v → (other name).run v = (.ok c, u) → v.AtWorkAs u)
    (recipe : Recipe) (hv : w.AtWorkAs v) :
    (follow look recipe).run v = (follow other recipe).run v := by
  induction recipe generalizing v with
  | done product => rfl
  | fail e => rfl
  | use name next ih =>
      rw [follow, follow, run_bind, run_bind, hsame name v hv]
      rcases hrun : (other name).run v with ⟨found, u⟩
      cases found with
      | error e => rfl
      | ok c => exact ih c (hv.trans (hkeeps name v c u hv hrun))

/-- Making depends on looking up in workshops at the same work only. -/
theorem run_make_congr
    (hsame : ∀ name v, w.AtWorkAs v → (look name).run v = (other name).run v)
    (hkeeps : ∀ name v c u, w.AtWorkAs v → (other name).run v = (.ok c, u) → v.AtWorkAs u)
    (config : Configuration) :
    (make look directory config).run w = (make other directory config).run w := by
  rw [make, make, run_get_bind, run_get_bind]
  cases w.catalog.entry? config.className with
  | none => rfl
  | some entry =>
      simp only
      rw [run_bind, run_bind, run_adapt, run_adapt,
        run_follow_congr hsame hkeeps (entry.recipe directory config) (.refl w)]

/-- Work under a name depends on what it does with the name set. -/
theorem run_whileMaking_congr {name : String} {x y : Work Component}
    (h : x.run { w with making := w.making ++ [name] } =
      y.run { w with making := w.making ++ [name] }) :
    (whileMaking name x).run w = (whileMaking name y).run w := by
  rcases hy : y.run { w with making := w.making ++ [name] } with ⟨found, v⟩
  rw [hy] at h
  cases found with
  | error e => rw [run_whileMaking_error h, run_whileMaking_error hy]
  | ok c => rw [run_whileMaking_ok h, run_whileMaking_ok hy]

/-- One step of the recursion with lookups that agree while the component is being made. -/
theorem run_lookupBy_congr {name : String}
    (hsame : ∀ config, w.configuration? name = some config → name ∉ w.making → ∀ asked v,
      ({ w with making := w.making ++ [name] } : Workshop).AtWorkAs v →
        (look asked).run v = (other asked).run v)
    (hkeeps : ∀ asked v c u, ({ w with making := w.making ++ [name] } : Workshop).AtWorkAs v →
      (other asked).run v = (.ok c, u) → v.AtWorkAs u) :
    (lookupBy directory look name).run w = (lookupBy directory other name).run w := by
  rw [lookupBy, lookupBy, run_get_bind, run_get_bind]
  cases Keyed.lookup name w.instances with
  | some c => rfl
  | none =>
      cases hconfig : w.configuration? name with
      | none => rfl
      | some config =>
          by_cases hmaking : w.making.contains name = true
          · simp only [hmaking, if_true]
          · have hmake := @run_make_congr directory _ look other
              (hsame config hconfig (by simpa using hmaking)) hkeeps config
            simp only [hmaking, if_false, Bool.false_eq_true]
            rw [run_bind, run_bind, run_whileMaking_congr hmake]

end

/-! ## The bottom of the recursion -/

/-- The recursion never gets to its bottom: where there is room for fewer names than it is unfolded,
it does not matter what would be done there. -/
theorem run_iterate_lookupBy_of_room {n : Nat} (look : String → Work Component) (name : String)
    (hcatalog : w.catalog.Orderly refers) (hroom : w.room < n) :
    (((lookupBy directory)^[n] look) name).run w = (lookupWithin directory n name).run w := by
  induction n generalizing w name with
  | zero => exact absurd hroom (Nat.not_lt_zero _)
  | succ n ih =>
      rw [Function.iterate_succ_apply', lookupWithin_succ]
      apply run_lookupBy_congr
      · intro config hconfig hmaking asked v hv
        have hless := room_busy_lt hconfig hmaking
        exact ih asked (hv.catalog ▸ hcatalog) (by rw [hv.room_eq]; omega)
      · intro asked v c u hv
        exact atWorkAs_of_run_lookupWithin (hv.catalog ▸ hcatalog)

/-- With enough room it does not matter how deep references may go. -/
theorem run_lookupWithin_eq {n m : Nat} (name : String) (hcatalog : w.catalog.Orderly refers)
    (hn : w.room < n) (hm : w.room < m) :
    (lookupWithin directory n name).run w = (lookupWithin directory m name).run w := by
  wlog hle : n ≤ m generalizing n m
  · exact (this hm hn (Nat.le_of_not_le hle)).symm
  obtain ⟨k, rfl⟩ := Nat.exists_eq_add_of_le hle
  rw [lookupWithin_add, run_iterate_lookupBy_of_room _ name hcatalog hn]

/-- More depth than room finds nothing else. -/
theorem run_lookup_of_room {n : Nat} (name : String) (hcatalog : w.catalog.Orderly refers)
    (hn : w.room < n) :
    (lookup directory name).run w = (lookupWithin directory n name).run w := by
  rw [lookup, run_get_bind]
  exact run_lookupWithin_eq name hcatalog w.room_lt_depth hn

/-- The recursion never gets to its bottom: unfolded as often as there are configurations and once
more, it is the lookup, whatever would be done below. -/
theorem run_iterate_lookupBy {n : Nat} (look : String → Work Component) (name : String)
    (hcatalog : w.catalog.Orderly refers) (hn : w.depth ≤ n) :
    (((lookupBy directory)^[n] look) name).run w = (lookup directory name).run w := by
  have hroom := Nat.lt_of_lt_of_le w.room_lt_depth hn
  rw [run_iterate_lookupBy_of_room look name hcatalog hroom, run_lookup_of_room name hcatalog hroom]

/-- A lookup is one step of the recursion. -/
theorem run_lookup_eq (name : String) (hcatalog : w.catalog.Orderly refers) :
    (lookup directory name).run w = (lookupBy directory (lookup directory) name).run w := by
  have hdepth : w.room < w.room + 1 := Nat.lt_succ_self _
  rw [run_lookup_of_room name hcatalog hdepth, lookupWithin_succ]
  apply Eq.symm
  apply run_lookupBy_congr
  · intro config hconfig hmaking asked v hv
    have hless := room_busy_lt hconfig hmaking
    exact run_lookup_of_room asked (hv.catalog ▸ hcatalog) (by rw [hv.room_eq]; exact hless)
  · intro asked v c u hv
    exact atWorkAs_of_run_lookupWithin (hv.catalog ▸ hcatalog)

/-! ## Chains of lookups -/

/-- Whether following a recipe gets to ask for a name, and in which workshop. -/
inductive Asks (look : String → Work Component) (other : String) (v : Workshop) :
    Recipe → Workshop → Prop
  | here {next : Component → Recipe} : Asks look other v (.use other next) v
  | later {name : String} {next : Component → Recipe} {c : Component} {w u : Workshop}
      (found : (look name).run w = (.ok c, u)) (rest : Asks look other v (next c) u) :
      Asks look other v (.use name next) w

/-- Whether looking a name up gets to look another name up, and in which workshop. -/
structure Follows (directory : Directory) (w : Workshop) (name : String) (v : Workshop)
    (other : String) (config : Configuration) (entry : CatalogEntry) : Prop where
  free : w.made? name = none
  configured : w.configuration? name = some config
  registered : w.catalog.entry? config.className = some entry
  idle : name ∉ w.making
  asks : Asks (lookup directory) other v (entry.recipe directory config)
    { w with making := w.making ++ [name] }

/-- Whether looking a name up gets to look another name up, directly or through others. -/
inductive ComesTo (directory : Directory) (other : String) (v : Workshop) :
    Workshop → String → Prop
  | here : ComesTo directory other v v other
  | through {w u : Workshop} {name next : String} {config : Configuration} {entry : CatalogEntry}
      (follows : Follows directory w name u next config entry)
      (rest : ComesTo directory other v u next) : ComesTo directory other v w name

/-- Whether what is being made has a configuration and is not there yet. -/
def Unfinished (w : Workshop) : Prop :=
  ∀ name ∈ w.making, w.made? name = none ∧ ∃ config, w.configuration? name = some config

/-- What a lookup that ends well leaves unfinished. -/
theorem unfinished_of_run_lookup {name : String} {c : Component}
    (hcatalog : w.catalog.Orderly refers) (hw : w.Unfinished)
    (h : (lookup directory name).run w = (.ok c, v)) : v.Unfinished ∧ w.AtWorkAs v := by
  rw [run_lookup_of_room name hcatalog w.room_lt_depth] at h
  have hwork := atWorkAs_of_run_lookupWithin hcatalog h
  cases @concludes_lookupWithin directory refers w w.depth name hcatalog with
  | error e u run => exact absurd (Prod.mk.inj (h.symm.trans run)).1 (by simp)
  | ok d u run advances =>
      obtain rfl := (Prod.mk.inj (h.symm.trans run)).2
      refine ⟨fun other hother => ?_, hwork⟩
      rw [hwork.making] at hother
      rw [advances.spared other hother, advances.grows.configuration?]
      exact hw other hother

/-- A workshop that a recipe asks in is as unfinished as before. -/
theorem unfinished_of_asks {other : String} {recipe : Recipe}
    (hcatalog : w.catalog.Orderly refers) (hw : w.Unfinished)
    (h : Asks (lookup directory) other v recipe w) : v.Unfinished ∧ w.AtWorkAs v := by
  induction h with
  | here => exact ⟨hw, .refl v⟩
  | later found rest ih =>
      obtain ⟨hu, hwork⟩ := unfinished_of_run_lookup hcatalog hw found
      obtain ⟨hv, hmore⟩ := ih (hwork.catalog ▸ hcatalog) hu
      exact ⟨hv, hwork.trans hmore⟩

/-- A recipe fails where a lookup that it gets to fails. -/
theorem run_follow_of_asks {look : String → Work Component} {other : String} {recipe : Recipe}
    {e : Error} (h : Asks look other v recipe w) (hfails : (look other).run v = (.error e, u)) :
    (follow look recipe).run w = (.error e, u) := by
  induction h with
  | here => rw [follow, run_bind_error hfails]
  | later found rest ih => rw [follow, run_bind_ok found, ih]

namespace Follows

variable {name other : String} {config : Configuration} {entry : CatalogEntry}

/-- Where a lookup gets to, what is being made is unfinished. -/
theorem unfinished (hcatalog : w.catalog.Orderly refers) (hw : w.Unfinished)
    (h : Follows directory w name v other config entry) :
    v.Unfinished ∧ v.catalog = w.catalog := by
  have hbusy : ({ w with making := w.making ++ [name] } : Workshop).Unfinished := by
    intro asked hasked
    rcases List.mem_append.1 hasked with hold | hnew
    · exact hw asked hold
    · rw [List.mem_singleton.1 hnew]
      exact ⟨h.free, config, h.configured⟩
  have hsame : ({ w with making := w.making ++ [name] } : Workshop).catalog.Orderly refers :=
    hcatalog
  obtain ⟨hv, hwork⟩ := unfinished_of_asks hsame hbusy h.asks
  exact ⟨hv, hwork.catalog⟩

/-- A lookup fails where a lookup that it gets to fails, with the same error if it is about a
component. -/
theorem run_lookup (hcatalog : w.catalog.Orderly refers)
    (h : Follows directory w name v other config entry) {e : Error} {about : String}
    (habout : e.component? = some about) (hfails : (lookup directory other).run v = (.error e, u)) :
    ∃ t, (lookup directory name).run w = (.error e, t) := by
  have hfollow := run_follow_of_asks h.asks hfails
  have hmake : (make (lookup directory) directory config).run
      { w with making := w.making ++ [name] } = (.error e, u) := by
    have hregistered : ({ w with making := w.making ++ [name] } : Workshop).catalog.entry?
        config.className = some entry := h.registered
    rw [run_make_of_follow_error hregistered hfollow, Error.within_of_component? habout]
  have hfree : Keyed.lookup name w.instances = none := h.free
  have hidle : ¬w.making.contains name = true := by simpa using h.idle
  rw [run_lookup_eq name hcatalog, lookupBy, run_get_bind, hfree]
  simp only [h.configured, hidle, if_false, Bool.false_eq_true]
  rw [run_bind_error (run_whileMaking_error hmake)]
  exact ⟨_, rfl⟩

end Follows

/-- A name that is being made and is not there yet cannot be looked up. -/
theorem run_lookup_of_mem_making {name : String} (hw : w.Unfinished) (hname : name ∈ w.making) :
    (lookup directory name).run w =
      (.error (.component name (.cycle (w.making ++ [name]))), w) := by
  obtain ⟨hfree, config, hconfig⟩ := hw name hname
  have hnone : Keyed.lookup name w.instances = none := hfree
  have hbusy : w.making.contains name = true := by simpa using hname
  rw [lookup, run_get_bind, depth, lookupWithin, run_get_bind, hnone]
  simp only [hconfig, hbusy, if_true]
  rfl

/-- Where a chain of lookups comes back to a name that is being made, the first lookup of the chain
fails, and its error shows the circle. -/
theorem ComesTo.run_lookup {name other : String} (h : ComesTo directory other v w name)
    (hcatalog : w.catalog.Orderly refers) (hw : w.Unfinished) (hback : other ∈ v.making) :
    ∃ t, (lookup directory name).run w =
      (.error (.component other (.cycle (v.making ++ [other]))), t) := by
  induction h with
  | here => exact ⟨_, run_lookup_of_mem_making hw hback⟩
  | through follows rest ih =>
      obtain ⟨hu, hsame⟩ := follows.unfinished hcatalog hw
      obtain ⟨t, hfails⟩ := ih (hsame ▸ hcatalog) hu
      exact follows.run_lookup hcatalog rfl hfails

end Workshop
end Retrace
