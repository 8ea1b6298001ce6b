import DataSpec.CsvSchema.Tabulation
import DataSpec.Documentation.Basic
import DataSpec.JsonSchema.Inlining
import DataSpec.Proofs.Structural.Closed
import DataSpec.XmlSchema.Expansion

/-!
# Documents of closed models

Every document format looks classes up : roots, types of properties, parents. In a closed
model each of these is there, so no format fails for want of a class. The recursions of the
formats are followed case by case; `NotMissing` is what their failures have in common.
-/

set_option autoImplicit false
set_option linter.unusedSectionVars false

namespace DataSpec

/-- A failure for another reason than that something is missing. -/
def NotMissing (e : ModelError) : Prop := e.category ≠ .missingResource

namespace StructuralModel

variable {m : StructuralModel} {iri : Iri} {c : StructuralClass}

/-- In a closed model, all that a class refers to is there. -/
theorem Closed.within (h : m.Closed) (hc : c ∈ m.classes.values) : c.Within m.Has := by
  obtain ⟨k, hk⟩ := SortedMap.mem_values_iff.mp hc
  exact h.classes hk

/-- Looking up a class that is there does not fail. -/
theorem fails_requireClass (h : m.Has iri) : (m.requireClass iri).Fails NotMissing := by
  obtain ⟨c, hc, -⟩ := exists_requireClass h
  rw [hc]
  exact .ok c

theorem fails_member (h : m.Has iri) : (m.member iri).Fails NotMissing := by
  obtain ⟨c, hc⟩ := has_iff.mp h
  unfold member
  split
  · rename_i hnone
    simp [hc] at hnone
  · exact .ok _

theorem fails_range (p : StructuralProperty) : p.range.Fails NotMissing := by
  unfold StructuralProperty.range
  split
  · exact .error nofun
  · exact .error nofun
  · exact .ok _
  · exact .ok _

/-- The classes of a range are found if all their keys are there. -/
theorem fails_members : ∀ {iris : List Iri}, (∀ t ∈ iris, m.Has t) →
    (m.members iris).Fails NotMissing
  | [], _ => .ok []
  | iri :: rest, h => by
    have hmember := fails_member (h iri List.mem_cons_self)
    rw [members]
    cases hc : m.member iri with
    | error e => exact .error (hmember e hc)
    | ok c => exact .map (fails_members fun t ht => h t (List.mem_cons_of_mem _ ht)) _

end StructuralModel

/-! ## Documentation -/

namespace Documentation

open StructuralModel

variable {m : StructuralModel} {c : StructuralClass}

/-- The section of a class links to its parents and to the classes of its properties, which a closed
model has. -/
theorem fails_structuralClassSection (h : m.Closed) (hc : c ∈ m.classes.values) (d : Subject)
    (format : String) : (d.structuralClassSection format m c).Fails NotMissing := by
  refine .bind (.mapM fun p hp => ?_) fun rows _ => .ok _
  refine .bind (.bind (fails_range p) fun r hr => ?_) fun types _ => .ok _
  cases r with
  | datatypes iris => exact .ok _
  | classes iris =>
    refine .bind (.mapM fun t ht => fails_requireClass ?_) fun cs _ => .ok _
    exact (h.within hc).types p hp t (range_eq_classes hr ▸ ht)

/-- A documentation page of closed models is not short of a class. -/
theorem fails_document {described : List Described} (h : ∀ x ∈ described, x.model.Closed)
    (d : Subject) : (document d described).Fails NotMissing := by
  refine .bind (.mapM fun x hx => ?_) fun sections _ => .ok _
  refine .bind (.mapM fun t ht => fails_requireClass ((h x hx).roots t ht)) fun roots _ => ?_
  refine .bind (.mapM fun c hc => ?_) fun sections _ => .ok _
  exact fails_structuralClassSection (h x hx) (List.mem_filter.mp hc).1 d _

end Documentation

/-! ## JSON -/

namespace JsonSchema

open StructuralModel

variable {m : StructuralModel}

mutual

/-- The definition of a class, those of its properties and those of the classes behind them need no
other classes than those that are there. -/
theorem fails_defineClass (h : m.Closed) (p : Publication) (stack : List Iri) (s : Naming)
    {key : Iri} (hk : m.Has key) : (defineClass p m stack s key).Fails NotMissing := by
  rw [defineClass]
  cases hm : m.member key with
  | error e => exact .error (fails_member hk e hm)
  | ok member =>
    obtain ⟨c, hc⟩ := member
    simp only
    split
    · exact .ok _
    cases elsewhere? p m c with
    | some target => exact .ok _
    | none =>
      simp only
      split
      · exact .ok _
      have ih := fails_defineProperties h p (c.iri :: stack) s (h.within hc).types
      cases hp : defineProperties p m (c.iri :: stack) s c.properties with
      | error e => exact .error (ih e hp)
      | ok r => exact .ok _
termination_by (m.closedCount stack, 0, 0)
decreasing_by exact Prod.Lex.left _ _ (StructuralModel.closedCount_cons_lt hc ‹_›)

theorem fails_defineClasses (h : m.Closed) (p : Publication) (stack : List Iri) (s : Naming)
    {keys : List Iri} (hk : ∀ t ∈ keys, m.Has t) :
    (defineClasses p m stack s keys).Fails NotMissing := by
  match keys with
  | [] =>
    rw [defineClasses]
    exact .ok _
  | key :: rest =>
    rw [defineClasses]
    have ihc := fails_defineClass h p stack s (hk key List.mem_cons_self)
    cases hd : defineClass p m stack s key with
    | error e => exact .error (ihc e hd)
    | ok r =>
      obtain ⟨d, s'⟩ := r
      have ihr := fails_defineClasses h p stack s' fun t ht => hk t (List.mem_cons_of_mem _ ht)
      simp only
      cases hds : defineClasses p m stack s' rest with
      | error e => exact .error (ihr e hds)
      | ok r => exact .ok _
termination_by (m.closedCount stack, 1, keys.length)
decreasing_by
  · exact Prod.Lex.right _ (Prod.Lex.left _ _ (by omega))
  · exact Prod.Lex.right _ (Prod.Lex.right _ (by simp))

theorem fails_defineProperties (h : m.Closed) (p : Publication) (stack : List Iri) (s : Naming)
    {qs : List StructuralProperty} (hq : ∀ q ∈ qs, ∀ t ∈ q.classes, m.Has t) :
    (defineProperties p m stack s qs).Fails NotMissing := by
  match qs with
  | [] =>
    rw [defineProperties]
    exact .ok _
  | q :: rest =>
    rw [defineProperties]
    have hrest := fun s' => fails_defineProperties h p stack s' fun q hqr =>
      hq q (List.mem_cons_of_mem _ hqr)
    cases hr : q.range with
    | error e => exact .error (fails_range q e hr)
    | ok r =>
      cases r with
      | datatypes iris =>
        simp only
        split
        · exact .error (hrest _ _ ‹_›)
        · exact .ok _
      | classes iris =>
        have hclasses := fails_defineClasses h p stack s fun t ht =>
          hq q List.mem_cons_self t (range_eq_classes hr ▸ ht)
        simp only
        split
        · exact .error (hclasses _ ‹_›)
        · split
          · exact .error (hrest _ _ ‹_›)
          · exact .ok _
termination_by (m.closedCount stack, 2, qs.length)
decreasing_by
  · exact Prod.Lex.right _ (Prod.Lex.right _ (by simp))
  · exact Prod.Lex.right _ (Prod.Lex.left _ _ (by omega))

end

/-- A JSON schema is not short of a class if its model is closed. -/
theorem fails_ofModel (h : m.Closed) (p : Publication) : (ofModel p m).Fails NotMissing := by
  refine .map (.bind (.mapM fun t ht => fails_requireClass (h.roots t ht)) fun roots _ => ?_) _
  exact .bind (fails_defineClasses h p [] .empty h.roots) fun r _ => .ok _

end JsonSchema

/-! ## CSV -/

namespace CsvSchema

open StructuralModel

variable {m : StructuralModel}

/-- Where values come from is known if the classes of the property are there. -/
theorem fails_sourceOf {q : StructuralProperty} (hq : ∀ t ∈ q.classes, m.Has t) :
    (sourceOf m q).Fails NotMissing := by
  unfold sourceOf
  split
  · exact .error (fails_range q _ ‹_›)
  · exact .ok _
  · exact .ok _
  · rename_i iri hr
    refine .map (fails_member (hq iri ?_)) _
    rw [← range_eq_classes hr]
    exact List.mem_cons_self
  · exact .error nofun

/-- The columns of properties lead on to the classes of these, and those have their own. -/
theorem fails_columnsOf (h : m.Closed) (p : Publication) (stack : List Iri) (path : String)
    {qs : List StructuralProperty} (hq : ∀ q ∈ qs, ∀ t ∈ q.classes, m.Has t) :
    (columnsOf p m stack path qs).Fails NotMissing := by
  match qs with
  | [] =>
    rw [columnsOf]
    exact .ok []
  | q :: rest =>
    rw [columnsOf]
    have hrest := fails_columnsOf h p stack path fun q hqr => hq q (List.mem_cons_of_mem _ hqr)
    cases hs : sourceOf m q with
    | error e => exact .error (fails_sourceOf (hq q List.mem_cons_self) e hs)
    | ok source =>
      cases source with
      | values datatype => exact .map hrest _
      | object c =>
        split
        · rename_i e herror
          simp only at herror
          split at herror
          · simp at herror
          · exact .error (fails_columnsOf h p _ _ (h.within c.property).types e herror)
        · exact .map hrest _
termination_by (m.closedCount stack, qs.length)
decreasing_by
  · exact Prod.Lex.right _ (by simp)
  · exact Prod.Lex.left _ _
      (StructuralModel.closedCount_cons_lt c.property (not_mem_of_isLeaf_eq_false ‹_›))

/-- The same is true of the tables of a group. -/
theorem fails_partsOf (h : m.Closed) (p : Publication) (stack : List Iri) (url : String)
    (count : Nat) {qs : List StructuralProperty} (hq : ∀ q ∈ qs, ∀ t ∈ q.classes, m.Has t) :
    (partsOf p m stack url count qs).Fails NotMissing := by
  match qs with
  | [] =>
    rw [partsOf]
    exact .ok _
  | q :: rest =>
    rw [partsOf]
    have hrest := fun count => fails_partsOf h p stack url count fun q hqr =>
      hq q (List.mem_cons_of_mem _ hqr)
    cases hs : sourceOf m q with
    | error e => exact .error (fails_sourceOf (hq q List.mem_cons_self) e hs)
    | ok source =>
      cases source with
      | values datatype =>
        simp only
        split
        · exact .error (hrest _ _ ‹_›)
        · exact .ok _
      | object c =>
        simp only
        split
        · rename_i e herror
          split at herror
          · simp at herror
          · split at herror
            · obtain rfl := Except.error.inj herror
              exact .error (fails_partsOf h p _ _ _ (h.within c.property).types _ ‹_›)
            · simp at herror
        · split
          · exact .error (hrest _ _ ‹_›)
          · exact .ok _
termination_by (m.closedCount stack, qs.length)
decreasing_by
  · exact Prod.Lex.right _ (by simp)
  · exact Prod.Lex.left _ _
      (StructuralModel.closedCount_cons_lt c.property (not_mem_of_isLeaf_eq_false ‹_›))

/-- A table or a group of tables is not short of a class if its model is closed. -/
theorem fails_ofModel (h : m.Closed) (p : Publication) : (ofModel p m).Fails NotMissing := by
  unfold ofModel
  split
  · rename_i iri hroots
    have hiri : m.Has iri := h.roots iri (by simp [hroots])
    refine .bind (fails_requireClass hiri) fun root hroot => ?_
    have hc : root ∈ m.classes.values := by
      unfold requireClass at hroot
      split at hroot
      · obtain rfl := Except.ok.inj hroot
        exact mem_values_of_class? ‹_›
      · simp at hroot
    have hcolumns := fails_columnsOf h p [root.iri] "" (h.within hc).types
    have hparts := fails_partsOf h p [root.iri] (tableUrl p 1) 1 (h.within hc).types
    cases p.config.layout with
    | single => exact .bind (.map (.bind hcolumns fun columns _ => .ok _) _) fun content _ => .ok _
    | multiple => exact .bind (.map (.bind hparts fun r _ => .ok _) _) fun content _ => .ok _
  · exact .error nofun

end CsvSchema

/-! ## XML -/

namespace XmlSchema

open StructuralModel

theorem fails_rangeOf {m : StructuralModel} (h : m.Closed) (q : m.Feature) :
    (rangeOf q).Fails NotMissing := by
  have hq : ∀ t ∈ q.val.classes, m.Has t := by
    obtain ⟨c, hc, hq⟩ := List.mem_flatMap.mp q.property
    exact (h.within hc).types q.val hq
  unfold rangeOf
  split
  · exact .error (fails_members hq _ ‹_›)
  · exact .ok _

/-- To tell the parents of a range from the others, no class is looked up. -/
theorem fails_tops {m : StructuralModel} {iris : List Iri} :
    ∀ {cs : List m.Member}, (tops iris cs).Fails NotMissing
  | [] => .ok []
  | c :: rest => by
    have htop : (isTop iris c.val).Fails NotMissing := by
      unfold isTop
      split
      · exact .ok _
      · split
        · exact .ok _
        · exact .error nofun
      · exact .error nofun
    rw [tops]
    split
    · exact .error (htop _ ‹_›)
    · split
      · exact .error (fails_tops _ ‹_›)
      · exact .ok _

/-- A type is named after the classes that it extends, which are there. -/
theorem fails_baseName {m : StructuralModel} (h : m.Closed) (top : String) (c : m.Member) :
    (baseName m top c.val).Fails NotMissing := by
  unfold baseName
  split
  · exact .ok top
  · rename_i parent hparent
    refine .map (fails_requireClass ((h.within c.property).inheritsFrom parent ?_)) _
    exact List.mem_of_head? hparent

section

variable {x : Source}

mutual

/-- The five functions that expand an XML schema call each other, and look up the same classes. -/
theorem fails_itemOf (h : x.model.Closed) (stack : List String) (s : Parts) (role : Role)
    (c : x.model.Member) : (itemOf x stack s role c).Fails NotMissing := by
  rw [itemOf]
  split
  · exact .ok _
  · split
    · exact .error (fails_contentsOf h stack s (role.features c) _ ‹_›)
    · exact .ok _
termination_by (x.model.closedRanges stack, 2, 0)
decreasing_by exact Prod.Lex.right _ (Prod.Lex.left _ _ (by omega))

theorem fails_contentsOf (h : x.model.Closed) (stack : List String) (s : Parts)
    (ps : List x.model.Feature) : (contentsOf x stack s ps).Fails NotMissing := by
  match ps with
  | [] =>
    rw [contentsOf]
    exact .ok _
  | p :: rest =>
    rw [contentsOf]
    have hrest := fun s' => fails_contentsOf h stack s' rest
    cases hr : p.val.range with
    | error e => exact .error (fails_range p.val e hr)
    | ok r =>
      cases r with
      | datatypes ds =>
        simp only
        split
        · exact .error (hrest _ _ ‹_›)
        · exact .ok _
      | classes iris =>
        simp only
        split
        · rename_i e herror
          split at herror
          · obtain rfl := Except.error.inj herror
            exact .error (fails_rangeOf h p _ ‹_›)
          · split at herror
            · exact .error (fails_typeOf h stack s _ e herror)
            · split at herror
              · simp at herror
              · obtain rfl := Except.error.inj herror
                exact .error nofun
        · split
          · exact .error (hrest _ _ ‹_›)
          · exact .ok _
termination_by (x.model.closedRanges stack, 1, ps.length)
decreasing_by
  · exact Prod.Lex.right _ (Prod.Lex.right _ (by simp))
  · exact Prod.Lex.right _ (Prod.Lex.left _ _ (by omega))

theorem fails_typeOf (h : x.model.Closed) (stack : List String) (s : Parts) (r : x.model.Range) :
    (typeOf x stack s r).Fails NotMissing := by
  rw [typeOf]
  split
  · exact .ok _
  · split
    · exact .error (fails_bodyOf h (rangeKey (classList r.val) :: stack) s r.val _ ‹_›)
    · exact .ok _
termination_by (x.model.closedRanges stack, 0, 0)
decreasing_by exact Prod.Lex.left _ _ (StructuralModel.closedRanges_cons_lt r ‹_›)

theorem fails_bodyOf (h : x.model.Closed) (stack : List String) (s : Parts)
    (cs : List x.model.Member) : (bodyOf x stack s cs).Fails NotMissing := by
  unfold bodyOf
  split
  · split
    · exact .error (fails_itemOf h stack s .value _ _ ‹_›)
    · exact .ok _
  · split
    · exact .error (fails_tops _ ‹_›)
    · split
      · exact .error (fails_itemOf h stack s .value _ _ ‹_›)
      · split
        · exact .error (fails_extendAll h stack _ _ _ _ ‹_›)
        · exact .ok _
    · simp only
      split
      · exact .error (fails_extendAll h stack s _ cs _ ‹_›)
      · exact .ok _
termination_by (x.model.closedRanges stack, 4, 0)
decreasing_by all_goals exact Prod.Lex.right _ (Prod.Lex.left _ _ (by omega))

theorem fails_extendAll (h : x.model.Closed) (stack : List String) (s : Parts) (top : String)
    (cs : List x.model.Member) : (extendAll x stack s top cs).Fails NotMissing := by
  match cs with
  | [] =>
    rw [extendAll]
    exact .ok s
  | c :: rest =>
    rw [extendAll]
    split
    · exact .error (fails_itemOf h stack s .extension c _ ‹_›)
    · split
      · exact .error (fails_baseName h top c _ ‹_›)
      · exact fails_extendAll h stack _ top rest
termination_by (x.model.closedRanges stack, 3, cs.length)
decreasing_by
  · exact Prod.Lex.right _ (Prod.Lex.left _ _ (by omega))
  · exact Prod.Lex.right _ (Prod.Lex.right _ (by simp))

end

theorem fails_rootElements (h : x.model.Closed) (cs : List x.model.Member) (s : Parts) :
    (rootElements x s cs).Fails NotMissing := by
  induction cs generalizing s with
  | nil => exact .ok _
  | cons c rest ih =>
    have hroot : (rootElement x s c).Fails NotMissing := by
      unfold rootElement
      simp only
      split
      · exact .error (fails_itemOf h _ s .root c _ ‹_›)
      · exact .ok _
    rw [rootElements]
    split
    · exact .error (hroot _ ‹_›)
    · split
      · exact .error (ih _ _ ‹_›)
      · exact .ok _

/-- An XML schema is not short of a class if its model is closed. -/
theorem fails_ofModel (h : x.model.Closed) : (ofModel x).Fails NotMissing :=
  .bind (fails_members h.roots) fun cs _ => .bind (fails_rootElements h cs .empty) fun _ _ => .ok _

end

end XmlSchema

end DataSpec
