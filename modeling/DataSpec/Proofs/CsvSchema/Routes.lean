import DataSpec.Proofs.CsvSchema.Tables
import Mathlib.Data.List.Induction

/-!
# Routes to the tables of a group

The walk to the tables of a group takes each route that comes to no class twice, once
(`Nested.mem_routes_iff`, `Nested.nodup_routes`), so a class has as many tables as routes lead
to it (`tables_of_routes`). It has one if no other association leads to it, and may have more
(`two_tables_for_class`).
-/

set_option autoImplicit false

namespace DataSpec.CsvSchema

variable {p : Publication} {m : StructuralModel} {stack : List Iri} {url : String}
  {count place : Nat} {q : StructuralProperty} {qs : List StructuralProperty} {schema : CsvSchema}

/-! ## Steps and routes -/

/-- A step leads along its association to a class that is described. -/
structure Step.Leads (m : StructuralModel) (step : Step) : Prop where
  source : ∃ c : m.Member, sourceOf m step.association = .ok (.object c) ∧ c.val = step.target
  ne_nil : step.target.properties ≠ []
  isCodelist : step.target.isCodelist = false

/-- Steps that begin at a class, each at the class to which the one before leads. -/
def Walk (m : StructuralModel) : StructuralClass → List Step → Prop
  | _, [] => True
  | c, step :: steps =>
    c.properties[step.place]? = some step.association ∧ step.Leads m ∧ Walk m step.target steps

/-- The steps of a walk that comes to no class twice. -/
structure IsRoute (m : StructuralModel) (root : StructuralClass) (steps : List Step) : Prop where
  walk : Walk m root steps
  nodup : (root.iri :: steps.map fun step => step.target.iri).Nodup

/-- Steps that begin with one of some properties, the first of which has a place, come to no
class twice and to none of `stack`. -/
def Starts (m : StructuralModel) (stack : List Iri) (place : Nat) (qs : List StructuralProperty) :
    List Step → Prop
  | [] => False
  | step :: steps => ∃ k, step.place = place + k ∧ qs[k]? = some step.association ∧ step.Leads m ∧
      Walk m step.target steps ∧
      ((step :: steps).map fun step => step.target.iri).Nodup ∧
      ∀ s ∈ step :: steps, s.target.iri ∉ stack

theorem Step.Leads.isLeaf_eq_false {step : Step} (h : step.Leads m)
    (hnot : step.target.iri ∉ stack) : isLeaf stack step.target = false := by
  simp [isLeaf, h.ne_nil, h.isCodelist, hnot]

theorem leads_of_source (place : Nat) {c : m.Member} (h : sourceOf m q = .ok (.object c))
    (hleaf : isLeaf stack c.val = false) : (⟨place, q, c.val⟩ : Step).Leads m := by
  simp only [isLeaf, Bool.or_eq_false_iff, List.isEmpty_eq_false_iff] at hleaf
  exact ⟨⟨c, h, rfl⟩, hleaf.1.1, hleaf.1.2⟩

/-- Steps begin with the first property or with one of the others. -/
theorem starts_cons_iff {step : Step} {steps : List Step} :
    Starts m stack place (q :: qs) (step :: steps) ↔
      (step.place = place ∧ Starts m stack place [q] (step :: steps)) ∨
        Starts m stack (place + 1) qs (step :: steps) := by
  constructor
  · rintro ⟨_ | k, hplace, hk, hrest⟩
    · exact Or.inl ⟨hplace, 0, hplace, hk, hrest⟩
    · exact Or.inr ⟨k, by omega, hk, hrest⟩
  · rintro (⟨-, _ | k, hplace, hk, hrest⟩ | ⟨k, hplace, hk, hrest⟩)
    · exact ⟨0, hplace, hk, hrest⟩
    · simp at hk
    · exact ⟨k + 1, by omega, hk, hrest⟩

/-- Steps do not begin with a property that leads to no class, or to an open one. -/
theorem starts_cons_iff_of_closed {steps : List Step}
    (hq : ∀ step : Step, step.association = q → step.Leads m → step.target.iri ∈ stack) :
    Starts m stack place (q :: qs) steps ↔ Starts m stack (place + 1) qs steps := by
  cases steps with
  | nil => exact Iff.rfl
  | cons step steps =>
    rw [starts_cons_iff]
    refine or_iff_right ?_
    rintro ⟨-, _ | k, -, hk, hleads, -, -, hnot⟩
    · exact hnot step List.mem_cons_self (hq step (Option.some.inj hk).symm hleads)
    · simp at hk

/-- Steps that begin with an association to a class that is described go on from that class, if
they go on. -/
theorem starts_singleton_iff {c : m.Member} {step : Step} {steps : List Step}
    (hsource : sourceOf m q = .ok (.object c)) (hleaf : isLeaf stack c.val = false) :
    (step.place = place ∧ Starts m stack place [q] (step :: steps)) ↔
      step = ⟨place, q, c.val⟩ ∧
        (steps = [] ∨ Starts m (c.val.iri :: stack) 0 c.val.properties steps) := by
  constructor
  · rintro ⟨hplace, _ | k, -, hk, hleads, hwalk, hnodup, hnot⟩
    · obtain ⟨place', association, target⟩ := step
      obtain rfl : place' = place := hplace
      obtain rfl : q = association := Option.some.inj hk
      obtain ⟨d, hd, rfl⟩ := hleads.source
      obtain rfl : c = d := Source.object.inj (Except.ok.inj (hsource.symm.trans hd))
      refine ⟨rfl, ?_⟩
      cases steps with
      | nil => exact Or.inl rfl
      | cons s rest =>
        obtain ⟨hs, hleads, hwalk⟩ := hwalk
        obtain ⟨hfirst, hnodup⟩ := List.nodup_cons.mp hnodup
        refine Or.inr ⟨s.place, by omega, hs, hleads, hwalk, hnodup, fun t ht => ?_⟩
        rw [List.mem_cons, not_or]
        refine ⟨fun heq => hfirst ?_, hnot t (List.mem_cons_of_mem _ ht)⟩
        exact List.mem_map.mpr ⟨t, ht, heq⟩
    · simp at hk
  · rintro ⟨rfl, hsteps⟩
    have hleads := leads_of_source place hsource hleaf
    have hopen : c.val.iri ∉ stack := not_mem_of_isLeaf_eq_false (by simp [hleaf])
    refine ⟨rfl, 0, rfl, rfl, hleads, ?_⟩
    cases steps with
    | nil => exact ⟨trivial, List.nodup_singleton _, by simpa using hopen⟩
    | cons s rest =>
      obtain ⟨k, hplace, hk, hleads, hwalk, hnodup, hnot⟩ :=
        hsteps.resolve_left (List.cons_ne_nil _ _)
      obtain rfl : s.place = k := by omega
      refine ⟨⟨hk, hleads, hwalk⟩, List.nodup_cons.mpr ⟨fun hmem => ?_, hnodup⟩, fun t ht => ?_⟩
      · obtain ⟨t, ht, heq⟩ := List.mem_map.mp hmem
        exact hnot t ht (heq ▸ List.mem_cons_self)
      · rcases List.mem_cons.mp ht with rfl | ht
        · exact hopen
        · exact fun hmem => hnot t ht (List.mem_cons_of_mem _ hmem)

/-- The routes of the stops behind properties are those that begin with one of them. -/
theorem Nested.mem_routes_iff {stops : List Stop} {steps : List Step}
    (h : Nested p m stack url count place qs stops) :
    steps ∈ stops.map Stop.route ↔ Starts m stack place qs steps := by
  induction h generalizing steps with
  | nil =>
    cases steps with
    | nil => simp [Starts]
    | cons step steps => simp [Starts]
  | values hsource _ ih =>
    rw [ih, starts_cons_iff_of_closed]
    rintro step rfl hleads
    obtain ⟨d, hd, -⟩ := hleads.source
    simp [hsource] at hd
  | @closed stack url count place q c qs stops hsource hleaf _ ih =>
    rw [ih, starts_cons_iff_of_closed]
    rintro step rfl hleads
    obtain ⟨d, hd, htarget⟩ := hleads.source
    obtain rfl : c = d := Source.object.inj (Except.ok.inj (hsource.symm.trans hd))
    by_contra hnot
    rw [htarget, hleads.isLeaf_eq_false hnot] at hleaf
    simp at hleaf
  | @opened stack url count place q c qs inner stops hsource hleaf _ _ ihinner ih =>
    have hinner : (inner.map (Stop.behind ⟨place, q, c.val⟩)).map Stop.route =
        (inner.map Stop.route).map (List.cons ⟨place, q, c.val⟩) := by
      simp [Stop.behind, Function.comp_def]
    rw [List.cons_append, List.map_cons, List.map_append, hinner]
    cases steps with
    | nil => simp [Starts, ih]
    | cons step steps =>
      rw [starts_cons_iff, starts_singleton_iff hsource hleaf, List.mem_cons, List.mem_append, ih,
        ← ihinner, ← or_assoc]
      refine or_congr_left ?_
      simp only [List.mem_map (f := List.cons _), List.cons.injEq]
      constructor
      · rintro (⟨rfl, rfl⟩ | ⟨steps', hsteps, rfl, rfl⟩)
        · exact ⟨rfl, Or.inl rfl⟩
        · exact ⟨rfl, Or.inr hsteps⟩
      · rintro ⟨rfl, rfl | hsteps⟩
        · exact Or.inl ⟨rfl, rfl⟩
        · exact Or.inr ⟨steps, hsteps, rfl, rfl⟩

/-- The walk takes no route twice. -/
theorem Nested.nodup_routes {stops : List Stop} (h : Nested p m stack url count place qs stops) :
    (stops.map Stop.route).Nodup := by
  induction h with
  | nil => exact List.nodup_nil
  | values _ _ ih => exact ih
  | closed _ _ _ ih => exact ih
  | @opened stack url count place q c qs inner stops _ _ hinner hstops ihinner ih =>
    have hroutes : (inner.map (Stop.behind ⟨place, q, c.val⟩)).map Stop.route =
        (inner.map Stop.route).map (List.cons ⟨place, q, c.val⟩) := by
      simp [Stop.behind, Function.comp_def]
    -- The routes behind later properties begin at later places.
    have hlater : ∀ steps ∈ stops.map Stop.route, ∀ rest : List Step,
        steps ≠ ⟨place, q, c.val⟩ :: rest := by
      rintro _ hsteps rest rfl
      obtain ⟨k, hk, -⟩ := hstops.mem_routes_iff.mp hsteps
      change place = place + 1 + k at hk
      omega
    rw [List.cons_append, List.map_cons, List.map_append, hroutes]
    refine List.nodup_cons.mpr ⟨fun hmem => ?_, List.nodup_append.mpr ⟨?_, ih, ?_⟩⟩
    · rcases List.mem_append.mp hmem with hmem | hmem
      · obtain ⟨steps, hsteps, heq⟩ := List.mem_map.mp hmem
        obtain rfl := (List.cons.inj heq).2
        exact hinner.mem_routes_iff.mp hsteps
      · exact hlater _ hmem [] rfl
    · exact ihinner.map List.cons_injective
    · rintro _ hsteps _ hsteps' rfl
      obtain ⟨steps, -, rfl⟩ := List.mem_map.mp hsteps
      exact hlater _ hsteps' steps rfl

variable {root c d : StructuralClass} {step : Step} {steps steps' : List Step}

theorem isRoute_cons_iff : IsRoute m root (step :: steps) ↔
    Starts m [root.iri] 0 root.properties (step :: steps) := by
  have hnot : (∀ s ∈ step :: steps, s.target.iri ∉ [root.iri]) ↔
      root.iri ∉ (step :: steps).map fun step => step.target.iri := by
    simp only [List.mem_map, List.mem_singleton]
    exact ⟨fun h ⟨s, hs, heq⟩ => h s hs heq, fun h s hs heq => h ⟨s, hs, heq⟩⟩
  constructor
  · rintro ⟨⟨hfirst, hleads, hwalk⟩, hnodup⟩
    obtain ⟨hroot, hnodup⟩ := List.nodup_cons.mp hnodup
    exact ⟨step.place, (Nat.zero_add _).symm, hfirst, hleads, hwalk, hnodup, hnot.mpr hroot⟩
  · rintro ⟨k, hplace, hk, hleads, hwalk, hnodup, hroot⟩
    obtain rfl : step.place = k := by omega
    exact ⟨⟨hk, hleads, hwalk⟩, List.nodup_cons.mpr ⟨hnot.mp hroot, hnodup⟩⟩

theorem isRoute_nil : IsRoute m root [] := ⟨trivial, List.nodup_singleton _⟩

theorem endOf_append (c : StructuralClass) (steps steps' : List Step) :
    endOf c (steps ++ steps') = endOf (endOf c steps) steps' := by
  induction steps generalizing c with
  | nil => rfl
  | cons step steps ih => exact ih step.target

theorem walk_append_iff :
    Walk m c (steps ++ steps') ↔ Walk m c steps ∧ Walk m (endOf c steps) steps' := by
  induction steps generalizing c with
  | nil => exact (and_iff_right trivial).symm
  | cons step steps ih =>
    rw [List.cons_append, Walk, ih, Walk, endOf, and_assoc, and_assoc]

/-- A route is one up to any of its steps. -/
theorem IsRoute.of_append (h : IsRoute m root (steps ++ steps')) : IsRoute m root steps := by
  refine ⟨(walk_append_iff.mp h.walk).1, h.nodup.sublist ?_⟩
  rw [List.map_append]
  exact (List.sublist_append_left _ _).cons_cons _

/-- A class has an association to one that is described. -/
def Associates (m : StructuralModel) (c d : StructuralClass) : Prop :=
  ∃ q ∈ c.properties, (∃ e : m.Member, sourceOf m q = .ok (.object e) ∧ e.val = d) ∧
    d.properties ≠ [] ∧ d.isCodelist = false

theorem associates_iff : Associates m c d ↔ ∃ step : Step,
    c.properties[step.place]? = some step.association ∧ step.Leads m ∧ step.target = d := by
  constructor
  · rintro ⟨q, hq, hsource, hne, hcodelist⟩
    obtain ⟨place, hplace⟩ := List.getElem?_of_mem hq
    exact ⟨⟨place, q, d⟩, hplace, ⟨hsource, hne, hcodelist⟩, rfl⟩
  · rintro ⟨step, hplace, hleads, rfl⟩
    exact ⟨_, List.mem_of_getElem? hplace, hleads.source, hleads.ne_nil, hleads.isCodelist⟩

theorem Walk.reaches (h : Walk m c steps) :
    Relation.ReflTransGen (Associates m) c (endOf c steps) := by
  induction steps generalizing c with
  | nil => exact .refl
  | cons step steps ih =>
    exact .head (associates_iff.mpr ⟨step, h.1, h.2.1, rfl⟩) (ih h.2.2)

/-- There is a route to each class that associations lead to from the root : one that comes to a
class twice can be cut short. -/
theorem exists_isRoute_iff (hkeyed : ∀ {k c}, m.class? k = some c → c.iri = k)
    (hroot : root ∈ m.classes.values) :
    (∃ steps, IsRoute m root steps ∧ endOf root steps = c) ↔
      Relation.ReflTransGen (Associates m) root c := by
  refine ⟨fun ⟨steps, hsteps, hend⟩ => hend ▸ hsteps.walk.reaches, fun h => ?_⟩
  induction h with
  | refl => exact ⟨[], isRoute_nil, rfl⟩
  | @tail b c _ hbc ih =>
    obtain ⟨steps, hsteps, rfl⟩ := ih
    obtain ⟨step, hplace, hleads, rfl⟩ := associates_iff.mp hbc
    obtain ⟨e, -, he⟩ := hleads.source
    by_cases hmem : step.target.iri ∈ root.iri :: steps.map fun step => step.target.iri
    · rcases List.mem_cons.mp hmem with hiri | hmem
      · have hsame := StructuralModel.eq_of_iri_eq hkeyed ⟨root, hroot⟩ e (by rw [he, hiri])
        exact ⟨[], isRoute_nil, by rw [← he, ← hsame]; rfl⟩
      · obtain ⟨s, hs, hiri⟩ := List.mem_map.mp hmem
        obtain ⟨before, after, rfl⟩ := List.append_of_mem hs
        rw [List.append_cons] at hsteps
        obtain ⟨-, hs, -⟩ := (walk_append_iff.mp hsteps.of_append.walk).2
        obtain ⟨e', -, he'⟩ := hs.source
        have hsame := StructuralModel.eq_of_iri_eq hkeyed e' e (by rw [he, he', hiri])
        exact ⟨_, hsteps.of_append, by rw [endOf_append, ← he, ← hsame, he']; rfl⟩
    · refine ⟨steps ++ [step], ⟨walk_append_iff.mpr ⟨hsteps.walk, hplace, hleads, trivial⟩, ?_⟩,
        endOf_append _ _ _⟩
      rw [List.map_append, ← List.cons_append]
      exact List.nodup_append.mpr ⟨hsteps.nodup, List.nodup_singleton _, fun x hx y hy heq =>
        hmem (by rwa [heq, List.mem_singleton.mp hy] at hx)⟩

/-- No class but the root is at the end of two associations. -/
def OneWay (m : StructuralModel) (root : StructuralClass) : Prop :=
  ∀ c ∈ m.classes.values, ∀ c' ∈ m.classes.values, ∀ step step' : Step,
    c.properties[step.place]? = some step.association → step.Leads m →
    c'.properties[step'.place]? = some step'.association → step'.Leads m →
    step.target = step'.target → step.target ≠ root → c = c' ∧ step.place = step'.place

theorem Walk.mem (h : Walk m c steps) (hc : c ∈ m.classes.values) :
    endOf c steps ∈ m.classes.values := by
  induction steps generalizing c with
  | nil => exact hc
  | cons step steps ih =>
    obtain ⟨e, -, he⟩ := h.2.1.source
    exact ih h.2.2 (he ▸ e.property)

/-- The last step of a route does not lead to its first class. -/
theorem IsRoute.ne_root (h : IsRoute m root (steps ++ [step])) : step.target ≠ root := by
  rintro rfl
  exact (List.nodup_cons.mp h.nodup).1 (by simp)

/-- Routes are told by where they end, if no class is at the end of two associations. -/
theorem OneWay.unique (hway : OneWay m root) (hroot : root ∈ m.classes.values)
    (h : IsRoute m root steps) (h' : IsRoute m root steps')
    (hend : endOf root steps = endOf root steps') : steps = steps' := by
  induction steps using List.reverseRecOn generalizing steps' with
  | nil =>
    rcases List.eq_nil_or_concat steps' with rfl | ⟨steps', step', rfl⟩
    · rfl
    · rw [List.concat_eq_append] at h' hend
      rw [endOf_append] at hend
      exact absurd hend.symm h'.ne_root
  | append_singleton steps step ih =>
    rcases List.eq_nil_or_concat steps' with rfl | ⟨steps', step', rfl⟩
    · rw [endOf_append] at hend
      exact absurd hend h.ne_root
    · rw [List.concat_eq_append] at h' hend ⊢
      rw [endOf_append, endOf_append] at hend
      have hwalk := walk_append_iff.mp h.walk
      have hwalk' := walk_append_iff.mp h'.walk
      obtain ⟨hbefore, hplace⟩ := hway _ (hwalk.1.mem hroot) _ (hwalk'.1.mem hroot) step step'
        hwalk.2.1 hwalk.2.2.1 hwalk'.2.1 hwalk'.2.2.1 hend h.ne_root
      obtain rfl := ih h.of_append h'.of_append hbefore
      have hassociation : some step.association = some step'.association := by
        rw [← hwalk.2.1, hplace, hwalk'.2.1]
      obtain ⟨place, association, target⟩ := step
      obtain ⟨place', association', target'⟩ := step'
      obtain rfl : place = place' := hplace
      obtain rfl := Option.some.inj hassociation
      obtain rfl : target = target' := hend
      rfl

/-- The tables of a group are those of the stops on the walk from the root, whose routes are all
that come to no class twice. -/
theorem exists_stops_of_ofModel (hlayout : p.config.layout = .multiple)
    (h : ofModel p m = .ok schema) :
    ∃ (root : StructuralClass) (stops : List Stop), m.rootClasses = .ok [root] ∧
      schema.content = .group (stops.map Stop.table) ∧
      (∀ stop ∈ stops, ∃ url keys,
        stop.table = classTable p m url keys (endOf root stop.route)) ∧
      ((stops.map Stop.table).map Table.url).Nodup ∧ (stops.map Stop.route).Nodup ∧
      ∀ steps, steps ∈ stops.map Stop.route ↔ IsRoute m root steps := by
  obtain ⟨root, stops, hroot, hstops, hcontent⟩ := exists_nested_of_ofModel hlayout h
  have hnil : [] ∉ stops.map Stop.route := fun hmem => hstops.mem_routes_iff.mp hmem
  refine ⟨root, rootStop p m root :: stops, hroot, hcontent,
    List.forall_mem_cons.mpr ⟨⟨_, _, rfl⟩, hstops.table_eq root⟩, hstops.nodup_urls,
    List.nodup_cons.mpr ⟨hnil, hstops.nodup_routes⟩, fun steps => ?_⟩
  rw [List.map_cons, List.mem_cons, hstops.mem_routes_iff]
  cases steps with
  | nil => exact iff_of_true (Or.inl rfl) isRoute_nil
  | cons step steps =>
    rw [isRoute_cons_iff]
    exact or_iff_right (List.cons_ne_nil _ _)

/-- A stop is told by its route. -/
theorem existsUnique_stop_iff {stops : List Stop} (hnodup : (stops.map Stop.route).Nodup)
    (hroutes : ∀ steps, steps ∈ stops.map Stop.route ↔ IsRoute m root steps) :
    (∃! stop, stop ∈ stops ∧ endOf root stop.route = c) ↔
      ∃! steps, IsRoute m root steps ∧ endOf root steps = c := by
  constructor
  · rintro ⟨stop, ⟨hstop, hend⟩, hall⟩
    refine ⟨stop.route, ⟨(hroutes _).mp (List.mem_map_of_mem hstop), hend⟩, ?_⟩
    rintro steps ⟨hsteps, hend⟩
    obtain ⟨stop', hstop', rfl⟩ := List.mem_map.mp ((hroutes steps).mpr hsteps)
    rw [hall stop' ⟨hstop', hend⟩]
  · rintro ⟨steps, ⟨hsteps, hend⟩, hall⟩
    obtain ⟨stop, hstop, rfl⟩ := List.mem_map.mp ((hroutes steps).mpr hsteps)
    refine ⟨stop, ⟨hstop, hend⟩, ?_⟩
    rintro stop' ⟨hstop', hend'⟩
    exact List.inj_on_of_nodup_map hnodup hstop' hstop
      (hall _ ⟨(hroutes _).mp (List.mem_map_of_mem hstop'), hend'⟩)

theorem exists_stop_iff {stops : List Stop}
    (hroutes : ∀ steps, steps ∈ stops.map Stop.route ↔ IsRoute m root steps) :
    (∃ stop ∈ stops, endOf root stop.route = c) ↔
      ∃ steps, IsRoute m root steps ∧ endOf root steps = c := by
  simp only [← hroutes, List.mem_map]
  constructor
  · rintro ⟨stop, hstop, hend⟩
    exact ⟨_, ⟨stop, hstop, rfl⟩, hend⟩
  · rintro ⟨_, ⟨stop, hstop, rfl⟩, hend⟩
    exact ⟨stop, hstop, hend⟩

/-- Only the route without steps comes to the root. -/
theorem existsUnique_isRoute_root : ∃! steps, IsRoute m root steps ∧ endOf root steps = root := by
  refine ⟨[], ⟨isRoute_nil, rfl⟩, ?_⟩
  rintro steps ⟨hsteps, hend⟩
  rcases List.eq_nil_or_concat steps with rfl | ⟨steps, step, rfl⟩
  · rfl
  · rw [List.concat_eq_append] at hsteps hend
    rw [endOf_append] at hend
    exact absurd hend hsteps.ne_root

/-- The tables of a group belong to the routes from the root class that come to no class twice,
one to each, and have the columns of the classes at their ends. So the root class has one table,
another class has as many as there are routes to it, and there is one to each class that
associations lead to. If no class but the root is at the end of two associations, each class has
one table. -/
theorem tables_of_routes (hlayout : p.config.layout = .multiple) (h : ofModel p m = .ok schema) :
    ∃ (root : StructuralClass) (stops : List Stop), m.rootClasses = .ok [root] ∧
      schema.content = .group (stops.map Stop.table) ∧
      (∀ stop ∈ stops, ∃ url keys,
        stop.table = classTable p m url keys (endOf root stop.route)) ∧
      ((stops.map Stop.table).map Table.url).Nodup ∧ (stops.map Stop.route).Nodup ∧
      (∀ steps, steps ∈ stops.map Stop.route ↔ IsRoute m root steps) ∧
      (∃! stop, stop ∈ stops ∧ endOf root stop.route = root) ∧
      (∀ c, (∃! stop, stop ∈ stops ∧ endOf root stop.route = c) ↔
        ∃! steps, IsRoute m root steps ∧ endOf root steps = c) ∧
      ((∀ {k c}, m.class? k = some c → c.iri = k) → ∀ c,
        ((∃ stop ∈ stops, endOf root stop.route = c) ↔
          Relation.ReflTransGen (Associates m) root c) ∧
        (OneWay m root → Relation.ReflTransGen (Associates m) root c →
          ∃! stop, stop ∈ stops ∧ endOf root stop.route = c)) := by
  obtain ⟨root, stops, hroot, hcontent, htables, hurls, hnodup, hroutes⟩ :=
    exists_stops_of_ofModel hlayout h
  have hmem : root ∈ m.classes.values := by
    obtain ⟨k, -, hk⟩ := Except.exists_of_mem_mapM hroot List.mem_cons_self
    exact StructuralModel.mem_values_of_class? (StructuralModel.class?_of_requireClass hk)
  refine ⟨root, stops, hroot, hcontent, htables, hurls, hnodup, hroutes,
    (existsUnique_stop_iff hnodup hroutes).mpr existsUnique_isRoute_root,
    fun _ => existsUnique_stop_iff hnodup hroutes, fun hkeyed c => ⟨?_, fun hway hc => ?_⟩⟩
  · rw [exists_stop_iff hroutes, exists_isRoute_iff hkeyed hmem]
  · obtain ⟨steps, hsteps, hend⟩ := (exists_isRoute_iff hkeyed hmem).mpr hc
    refine (existsUnique_stop_iff hnodup hroutes).mpr ⟨steps, ⟨hsteps, hend⟩, ?_⟩
    rintro steps' ⟨hsteps', hend'⟩
    exact hway.unique hmem hsteps' hsteps (hend'.trans hend.symm)

/-! ## Homes and places of work -/

theorem keyed_streetModel {home : Cardinality} {others : List StructuralProperty} {k : Iri}
    (h : (streetModel home others).class? k = some c) : c.iri = k := by
  have hmem := SortedMap.mem_of_get?_ofList h
  simp only [List.mem_cons, List.not_mem_nil, or_false, Prod.mk.injEq] at hmem
  rcases hmem with ⟨rfl, rfl⟩ | ⟨rfl, rfl⟩ <;> rfl

/-- A property whose values are places is a step to the class of places. -/
theorem leads_placeClass (home : Cardinality) (others : List StructuralProperty) (place : Nat)
    (hq : q.range = .ok (.classes ["place"])) :
    (⟨place, q, placeClass⟩ : Step).Leads (streetModel home others) := by
  have hplace := (class?_streetModel home others).2
  refine ⟨⟨⟨placeClass, StructuralModel.mem_values_of_class? hplace⟩, ?_, rfl⟩,
    List.cons_ne_nil _ _, rfl⟩
  rw [sourceOf, hq]
  exact Except.map_eq_ok.mpr ⟨_, StructuralModel.member_of_class? hplace, rfl⟩

/-- If there is nothing else to say of persons, the only step is from them to their homes. -/
theorem oneWay_streetModel :
    OneWay (streetModel ⟨1, some 1⟩ []) (residentClass ⟨1, some 1⟩ []) := by
  have honly : ∀ c ∈ (streetModel ⟨1, some 1⟩ []).classes.values, ∀ step : Step,
      c.properties[step.place]? = some step.association →
      step.Leads (streetModel ⟨1, some 1⟩ []) →
      c = residentClass ⟨1, some 1⟩ [] ∧ step.place = 0 := by
    rintro c hc ⟨place, association, target⟩ hplace hleads
    obtain ⟨k, hk⟩ := SortedMap.mem_values_iff.mp hc
    have hmem := SortedMap.mem_of_get?_ofList hk
    simp only [List.mem_cons, List.not_mem_nil, or_false, Prod.mk.injEq] at hmem
    rcases hmem with ⟨-, rfl⟩ | ⟨-, rfl⟩
    · refine ⟨rfl, ?_⟩
      cases place with
      | zero => rfl
      | succ place => cases hplace
    · cases place with
      | zero =>
        obtain rfl := Option.some.inj hplace
        obtain ⟨d, hd, -⟩ := hleads.source
        cases hd
      | succ place => cases hplace
  intro c hc c' hc' step step' hplace hleads hplace' hleads' _ _
  obtain ⟨rfl, hzero⟩ := honly c hc step hplace hleads
  obtain ⟨rfl, hzero'⟩ := honly c' hc' step' hplace' hleads'
  exact ⟨rfl, hzero.trans hzero'.symm⟩

/-- Places have one table if they are homes only. -/
theorem tables_of_routes_streetModel :
    groupPublication.config.layout = .multiple ∧
      OneWay (streetModel ⟨1, some 1⟩ []) (residentClass ⟨1, some 1⟩ []) ∧
      ∃ schema, ofModel groupPublication (streetModel ⟨1, some 1⟩ []) = .ok schema ∧
        ∃ stops : List Stop, schema.content = .group (stops.map Stop.table) ∧
          ∃! stop, stop ∈ stops ∧
            endOf (residentClass ⟨1, some 1⟩ []) stop.route = placeClass := by
  obtain ⟨schema, hschema⟩ := exists_ofModel_group [] (by decide +kernel) (by decide +kernel)
  obtain ⟨root, stops, hroot, hcontent, -, -, -, -, -, -, hreached⟩ := tables_of_routes rfl hschema
  obtain rfl : residentClass ⟨1, some 1⟩ [] = root := by
    simpa [rootClasses_streetModel] using hroot
  have hplace : Associates (streetModel ⟨1, some 1⟩ []) (residentClass ⟨1, some 1⟩ []) placeClass :=
    associates_iff.mpr
      ⟨⟨0, livesProperty ⟨1, some 1⟩, placeClass⟩, rfl, leads_placeClass _ _ 0 rfl, rfl⟩
  exact ⟨rfl, oneWay_streetModel, schema, hschema, stops, hcontent,
    (hreached keyed_streetModel placeClass).2 oneWay_streetModel (.single hplace)⟩

/-- The place where a person works. -/
def worksProperty : StructuralProperty := { livesProperty ⟨1, some 1⟩ with iri := "work" }

/-- A place is a home and a place of work, so places have two tables. -/
theorem two_tables_for_class :
    ¬ ∀ (p : Publication) (m : StructuralModel) (schema : CsvSchema) (root : StructuralClass)
      (ts : List Table), (∀ {k c}, m.class? k = some c → c.iri = k) →
      p.config.layout = .multiple → m.rootClasses = .ok [root] → ofModel p m = .ok schema →
      schema.content = .group ts → ∀ c, Relation.ReflTransGen (Associates m) root c →
      ∃! t, t ∈ ts ∧ ∃ url keys, t = classTable p m url keys c := by
  intro h
  obtain ⟨schema, hschema⟩ := exists_ofModel_group [worksProperty] (by decide +kernel)
    (by decide +kernel)
  obtain ⟨root, stops, hroot, hcontent, htables, hurls, -, hroutes⟩ :=
    exists_stops_of_ofModel rfl hschema
  obtain rfl : residentClass ⟨1, some 1⟩ [worksProperty] = root := by
    simpa [rootClasses_streetModel] using hroot
  have hlives := leads_placeClass ⟨1, some 1⟩ [worksProperty]
    (q := livesProperty ⟨1, some 1⟩) 0 rfl
  have hworks := leads_placeClass ⟨1, some 1⟩ [worksProperty]
    (q := worksProperty) 1 rfl
  obtain ⟨home, hhome, hhomeRoute⟩ := List.mem_map.mp
    ((hroutes [⟨0, livesProperty ⟨1, some 1⟩, placeClass⟩]).mpr ⟨⟨rfl, hlives, trivial⟩, by decide⟩)
  obtain ⟨work, hwork, hworkRoute⟩ := List.mem_map.mp
    ((hroutes [⟨1, worksProperty, placeClass⟩]).mpr ⟨⟨rfl, hworks, trivial⟩, by decide⟩)
  have hplace : Associates (streetModel ⟨1, some 1⟩ [worksProperty])
      (residentClass ⟨1, some 1⟩ [worksProperty]) placeClass :=
    associates_iff.mpr ⟨⟨0, livesProperty ⟨1, some 1⟩, placeClass⟩, rfl, hlives, rfl⟩
  have hunique := h groupPublication _ schema _ _ keyed_streetModel rfl hroot hschema hcontent
    placeClass (.single hplace)
  have hhomeTable := htables home hhome
  have hworkTable := htables work hwork
  rw [hhomeRoute] at hhomeTable
  rw [hworkRoute] at hworkTable
  have hsame : home.table = work.table := hunique.unique
    ⟨List.mem_map_of_mem hhome, hhomeTable⟩ ⟨List.mem_map_of_mem hwork, hworkTable⟩
  rw [List.map_map] at hurls
  have hstops : home = work := List.inj_on_of_nodup_map hurls hhome hwork (congrArg Table.url hsame)
  rw [hstops, hworkRoute] at hhomeRoute
  exact absurd (congrArg Step.place (List.cons.inj hhomeRoute).1) (by decide)

end DataSpec.CsvSchema
