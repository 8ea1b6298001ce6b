import DataSpec.Generation.Run
import DataSpec.Proofs.Generation.Order
import DataSpec.Proofs.SortedMap

/-!
# Runs over the artefacts of a specification

A run plans first, and then writes one artefact after the other up to the first that fails
(`runSpecification_cases`). `Writes` is the relation of what was written before that. An
output that keeps documents by path gets exactly the documents of these artefacts, each at
its own path where there was none, and keeps all that it had (`Added`, `added_of_writes`).
-/

set_option autoImplicit false

namespace DataSpec

/-- The text is the document that an artefact of a specification asks for. -/
def Workspace.Describes (w : Workspace) (s : DataSpecification) (a : Artefact)
    (text : String) : Prop :=
  ∃ f, Format.ofName? a.generator = some f ∧ w.document s a f = .ok text

namespace Generator

/-! ## Artefacts in turn -/

section Turn

variable {σ : Type} [Output σ] {g : Generator σ} {w : Workspace} {s : DataSpecification}
  {o o' : σ} {iri : Iri} {iris : List Iri} {as : List Artefact} {e : ModelError}

/-- Artefacts are written one after the other, and none fails. -/
inductive Writes (g : Generator σ) (w : Workspace) (s : DataSpecification) :
    σ → List Artefact → σ → Prop
  | nil (o : σ) : Writes g w s o [] o
  | cons {o o₁ o' : σ} {a : Artefact} {as : List Artefact}
      (head : g.write w s o a = (.ok (), o₁)) (tail : Writes g w s o₁ as o') :
      Writes g w s o (a :: as) o'

/-- Either all artefacts are written, or those before the first that fails. -/
theorem writeAll_cases (g : Generator σ) (w : Workspace) (s : DataSpecification) :
    ∀ (as : List Artefact) (o : σ),
      (∃ o', g.writeAll w s o as = (.ok (), o') ∧ g.Writes w s o as o') ∨
      ∃ e o' done a rest o₁, g.writeAll w s o as = (.error e, o') ∧ as = done ++ a :: rest ∧
        g.Writes w s o done o₁ ∧ g.write w s o₁ a = (.error e, o')
  | [], o => .inl ⟨o, rfl, .nil o⟩
  | a :: as, o => by
    match ha : g.write w s o a with
    | (.error e, o') =>
      exact .inr ⟨e, o', [], a, as, o, by simp [writeAll, ha], rfl, .nil o, ha⟩
    | (.ok (), o₁) =>
      have hall : g.writeAll w s o (a :: as) = g.writeAll w s o₁ as := by simp [writeAll, ha]
      rw [hall]
      obtain ⟨o', h, hw⟩ | ⟨e, o', done, b, rest, o₂, h, rfl, hw, hb⟩ := writeAll_cases g w s as o₁
      · exact .inl ⟨o', h, .cons ha hw⟩
      · exact .inr ⟨e, o', a :: done, b, rest, o₂, h, rfl, .cons ha hw, hb⟩

omit [Output σ] in
theorem plan_eq_ok {l : List Artefact} :
    g.plan o iri = .ok (s, l, w) ↔
      g.specifications.get? iri = some s ∧ s.order = .ok l ∧ g.workspace o = .ok w := by
  have hspec : g.specification iri = .ok s ↔ g.specifications.get? iri = some s := by
    unfold specification
    split <;> simp_all
  rw [← hspec]
  refine Except.bind_eq_ok.trans ⟨?_, fun ⟨hs, hl, hw⟩ => ?_⟩
  · rintro ⟨s', hs, h⟩
    obtain ⟨l', hl, h⟩ := Except.bind_eq_ok.mp h
    obtain ⟨w', hw, h⟩ := Except.bind_eq_ok.mp h
    obtain ⟨rfl, rfl, rfl⟩ : s' = s ∧ l' = l ∧ w' = w := by simpa using Except.ok.inj h
    exact ⟨hs, hl, hw⟩
  · exact ⟨s, hs, Except.bind_eq_ok.mpr ⟨l, hl, Except.bind_eq_ok.mpr ⟨w, hw, rfl⟩⟩⟩

/-- A run fails before it writes, or writes all artefacts in the order that was planned, or
those before the first that fails. -/
theorem runSpecification_cases (g : Generator σ) (o : σ) (iri : Iri) :
    (∃ e, g.plan o iri = .error e ∧ g.runSpecification o iri = (.error e, o)) ∨
    ∃ s l w, g.plan o iri = .ok (s, l, w) ∧
      ((∃ o', g.runSpecification o iri = (.ok (l.map Artefact.iri), o') ∧ g.Writes w s o l o') ∨
      ∃ e o' done a rest o₁, g.runSpecification o iri = (.error e, o') ∧ l = done ++ a :: rest ∧
        g.Writes w s o done o₁ ∧ g.write w s o₁ a = (.error e, o')) := by
  unfold runSpecification
  match g.plan o iri with
  | .error e => exact .inl ⟨e, rfl, rfl⟩
  | .ok (s, l, w) =>
    refine .inr ⟨s, l, w, rfl, ?_⟩
    obtain ⟨o', h, hw⟩ | ⟨e, o', done, a, rest, o₁, h, hl, hw, ha⟩ := writeAll_cases g w s l o
    · exact .inl ⟨o', by simp [h], hw⟩
    · exact .inr ⟨e, o', done, a, rest, o₁, by simp [h], hl, hw, ha⟩

theorem runSpecification_eq_ok (h : g.runSpecification o iri = (.ok iris, o')) :
    ∃ s l w, g.plan o iri = .ok (s, l, w) ∧ iris = l.map Artefact.iri ∧
      g.Writes w s o l o' := by
  obtain ⟨e, -, hrun⟩ | ⟨s, l, w, hplan, ⟨o₁, hrun, hw⟩ | ⟨e, o₁, _, _, _, _, hrun, -⟩⟩ :=
    runSpecification_cases g o iri
  · simp [hrun] at h
  · obtain ⟨rfl, rfl⟩ : l.map Artefact.iri = iris ∧ o₁ = o' := by simpa [hrun] using h
    exact ⟨s, l, w, hplan, rfl, hw⟩
  · simp [hrun] at h

end Turn

/-! ## Documents by path -/

variable {g : Generator MemoryOutput} {w : Workspace} {s : DataSpecification}
  {o o₁ o' : MemoryOutput} {iri : Iri} {a : Artefact} {as : List Artefact} {e : ModelError}

/-- An artefact is written by adding its document at a path where there is none. -/
theorem write_eq_ok (h : g.write w s o a = (.ok (), o')) :
    ∃ text, w.Describes s a text ∧ o.documents.contains a.outputPath = false ∧
      o'.documents = o.documents.insert a.outputPath text := by
  unfold write at h
  split at h
  · simp at h
  split at h
  · simp at h
  rename_i f hf
  split at h
  · simp at h
  rename_i text htext
  replace h : o.write a.outputPath text = (.ok (), o') := h
  unfold MemoryOutput.write at h
  split at h
  · simp at h
  split at h
  · simp at h
  · rename_i hfresh
    exact ⟨text, ⟨f, hf, htext⟩, Bool.eq_false_iff.mpr hfresh, by rw [← (Prod.mk.inj h).2]⟩

/-- An artefact that fails leaves the output as it was. -/
theorem eq_of_write_eq_error (h : g.write w s o a = (.error e, o')) : o' = o := by
  unfold write at h
  split at h
  · exact (Prod.mk.inj h).2.symm
  split at h
  · exact (Prod.mk.inj h).2.symm
  split at h
  · exact (Prod.mk.inj h).2.symm
  rename_i text htext
  replace h : o.write a.outputPath text = (.error e, o') := h
  unfold MemoryOutput.write at h
  split at h
  · exact (Prod.mk.inj h).2.symm
  split at h
  · exact (Prod.mk.inj h).2.symm
  · simp at h

/-- The documents of artefacts were added to an output : each at its own path, where there
was none, and nothing else changed. -/
structure Added (w : Workspace) (s : DataSpecification) (as : List Artefact)
    (o o' : MemoryOutput) : Prop where
  nodup : (as.map Artefact.outputPath).Nodup
  fresh : ∀ a ∈ as, o.documents.get? a.outputPath = none
  own : ∀ a ∈ as, ∃ text, w.Describes s a text ∧ o'.documents.get? a.outputPath = some text
  kept : ∀ path ∉ as.map Artefact.outputPath, o'.documents.get? path = o.documents.get? path

theorem Added.nil (w : Workspace) (s : DataSpecification) (o : MemoryOutput) :
    Added w s [] o o :=
  ⟨List.nodup_nil, nofun, nofun, fun _ _ => rfl⟩

theorem Added.cons {text : String} (hdesc : w.Describes s a text)
    (hfresh : o.documents.contains a.outputPath = false)
    (hinsert : o₁.documents = o.documents.insert a.outputPath text) (h : Added w s as o₁ o') :
    Added w s (a :: as) o o' := by
  have hget : ∀ path, o₁.documents.get? path =
      if path = a.outputPath then some text else o.documents.get? path := fun path => by
    rw [hinsert, SortedMap.get?_insert]
  have hne : ∀ b ∈ as, b.outputPath ≠ a.outputPath := fun b hb heq => by
    have hb := h.fresh b hb
    rw [hget, if_pos heq] at hb
    simp at hb
  have hnot : a.outputPath ∉ as.map Artefact.outputPath := fun hmem => by
    obtain ⟨b, hb, heq⟩ := List.mem_map.mp hmem
    exact hne b hb heq
  refine ⟨List.nodup_cons.mpr ⟨hnot, h.nodup⟩, fun b hb => ?_, fun b hb => ?_, fun path hp => ?_⟩
  · rcases List.mem_cons.mp hb with rfl | hb
    · exact SortedMap.contains_eq_false_iff.mp hfresh
    · simpa [hget, hne b hb] using h.fresh b hb
  · rcases List.mem_cons.mp hb with rfl | hb
    · exact ⟨text, hdesc, by rw [h.kept _ hnot, hget, if_pos rfl]⟩
    · exact h.own b hb
  · rw [List.map_cons, List.mem_cons, not_or] at hp
    rw [h.kept path hp.2, hget, if_neg hp.1]

theorem added_of_writes (h : g.Writes w s o as o') : Added w s as o o' := by
  induction h with
  | nil o => exact .nil w s o
  | cons head _ ih =>
    obtain ⟨text, hdesc, hfresh, hinsert⟩ := write_eq_ok head
    exact .cons hdesc hfresh hinsert ih

/-- Nothing was added only if there was nothing to add. -/
theorem Added.eq_iff (h : Added w s as o o') : o' = o ↔ as = [] := by
  constructor
  · rintro rfl
    refine List.eq_nil_iff_forall_not_mem.mpr fun a ha => ?_
    obtain ⟨text, -, htext⟩ := h.own a ha
    rw [h.fresh a ha] at htext
    simp at htext
  · rintro rfl
    have hdocuments : o'.documents = o.documents :=
      SortedMap.ext_get? fun path => h.kept path List.not_mem_nil
    cases o
    cases o'
    exact congrArg _ hdocuments

/-- What is added to the empty output is all that it has. -/
theorem Added.keys_perm (h : Added w s as .empty o') :
    o'.documents.keys.Perm (as.map Artefact.outputPath) := by
  refine (List.perm_ext_iff_of_nodup (SortedMap.nodup_keys _) h.nodup).mpr fun path => ?_
  rw [SortedMap.mem_keys_iff, SortedMap.contains_iff]
  constructor
  · rintro ⟨text, htext⟩
    by_contra hp
    rw [h.kept path hp] at htext
    simp [MemoryOutput.empty] at htext
  · intro hp
    obtain ⟨a, ha, rfl⟩ := List.mem_map.mp hp
    obtain ⟨text, -, htext⟩ := h.own a ha
    exact ⟨text, htext⟩

/-! ## Complete runs -/

/-- If the identifiers of the artefacts differ there is an order of them exactly when all
dependencies are artefacts of the specification and none depends on itself. It has each
artefact once, after all that it depends on. A run from the empty output that succeeds names
the artefacts in this order, and the output has their documents and no others, each at its
own path. -/
theorem order_and_documents_of_run (hs : s.Distinct) :
    ((∃ l, s.order = .ok l) ↔ s.Supplied ∧ s.Acyclic) ∧
    (∀ l, s.order = .ok l → s.IsOrder l) ∧
    ∀ (g : Generator MemoryOutput) (iri : Iri) (iris : List Iri) (o : MemoryOutput),
      g.specifications.get? iri = some s → g.runSpecification .empty iri = (.ok iris, o) →
      ∃ l w, s.order = .ok l ∧ g.workspace .empty = .ok w ∧ iris = l.map Artefact.iri ∧
        o.documents.keys.Perm (s.artefacts.map Artefact.outputPath) ∧
        ∀ a ∈ s.artefacts, ∃ text, w.Describes s a text ∧
          o.documents.get? a.outputPath = some text := by
  refine ⟨DataSpecification.exists_order_iff,
    fun l hl => DataSpecification.isOrder_of_order hs hl, ?_⟩
  intro g iri iris o hget hrun
  obtain ⟨s', l, w, hplan, hiris, hwrites⟩ := runSpecification_eq_ok hrun
  obtain ⟨hget', hl, hw⟩ := plan_eq_ok.mp hplan
  obtain rfl : s = s' := Option.some.inj (hget.symm.trans hget')
  have hperm : l.Perm s.artefacts := (DataSpecification.isOrder_of_order hs hl).perm
  have hadded := added_of_writes hwrites
  exact ⟨l, w, hl, hw, hiris, hadded.keys_perm.trans (hperm.map _),
    fun a ha => hadded.own a (hperm.mem_iff.mpr ha)⟩

/-- A page about a specification. -/
def page (iri path : String) (dependsOn : List Iri) : Artefact :=
  ⟨iri, "documentation", path, "", none, dependsOn, .null⟩

/-- A specification with notes and a main page that depends on them. -/
def pages : DataSpecification :=
  ⟨"spec", .empty, none, [], [], [page "main" "index.md" ["notes"], page "notes" "notes.md" []]⟩

/-- A generator for one specification, without resources. -/
def generatorOf (s : DataSpecification) : Generator MemoryOutput :=
  ⟨.empty, .ofList [s], .default, .pretty, fun _ => false⟩

theorem order_pages :
    pages.order = .ok [page "notes" "notes.md" [], page "main" "index.md" ["notes"]] :=
  DataSpecification.order_pair rfl rfl rfl (by decide)

/-- The notes come before the page that depends on them, and both are written at their paths. -/
theorem order_and_documents_of_run_pages : pages.Distinct ∧
    ∃ o, (generatorOf pages).runSpecification .empty "spec" = (.ok ["notes", "main"], o) ∧
      (pages.Supplied ∧ pages.Acyclic) ∧
      o.documents.keys.Perm ["index.md", "notes.md"] ∧
      ∃ text, o.documents.get? "index.md" = some text := by
  have hs : pages.Distinct := by
    unfold DataSpecification.Distinct
    decide
  have hget : (generatorOf pages).specifications.get? "spec" = some pages := rfl
  have hplan : (generatorOf pages).plan .empty "spec" = .ok (pages,
      [page "notes" "notes.md" [], page "main" "index.md" ["notes"]], _) :=
    plan_eq_ok.mpr ⟨hget, order_pages, rfl⟩
  have hrun : ((generatorOf pages).runSpecification .empty "spec").1 =
      .ok ["notes", "main"] := by
    unfold runSpecification
    rw [hplan]
    decide
  obtain ⟨hiff, -, hdocuments⟩ := order_and_documents_of_run hs
  obtain ⟨l, w, -, -, -, hkeys, hown⟩ := hdocuments (generatorOf pages) "spec" _ _ hget
    (Prod.ext hrun rfl)
  obtain ⟨text, -, htext⟩ := hown (page "main" "index.md" ["notes"]) List.mem_cons_self
  exact ⟨hs, _, Prod.ext hrun rfl, hiff.mp ⟨_, order_pages⟩, hkeys, text, htext⟩

/-! ## Runs that fail -/

/-- A run that fails before it writes leaves the output as it was. Otherwise the output has got
the documents of the artefacts before the one that failed, so it is as it was if and only if
that was the first. -/
theorem documents_of_failed_run (h : g.runSpecification o iri = (.error e, o')) :
    (g.plan o iri = .error e ∧ o' = o) ∨
    ∃ s done a rest w, g.plan o iri = .ok (s, done ++ a :: rest, w) ∧
      g.write w s o' a = (.error e, o') ∧ Added w s done o o' ∧ (o' = o ↔ done = []) := by
  obtain ⟨e', hplan, hrun⟩ | ⟨s, l, w, hplan, ⟨o₁, hrun, -⟩ |
    ⟨e', o₁, done, a, rest, o₂, hrun, rfl, hwrites, ha⟩⟩ := runSpecification_cases g o iri
  · obtain ⟨rfl, rfl⟩ : e' = e ∧ o = o' := by simpa [hrun] using h
    exact .inl ⟨hplan, rfl⟩
  · simp [hrun] at h
  · obtain ⟨rfl, rfl⟩ : e' = e ∧ o₁ = o' := by simpa [hrun] using h
    obtain rfl := eq_of_write_eq_error ha
    have hadded := added_of_writes hwrites
    exact .inr ⟨s, done, a, rest, w, hplan, ha, hadded, hadded.eq_iff⟩

/-- A page, and a document in a format that there is not, which depends on it. -/
def unknownShapes : DataSpecification :=
  ⟨"spec", .empty, none, [], [],
    [{ page "shapes" "shapes.ttl" ["main"] with generator := "rdf-shapes" },
      page "main" "index.md" []]⟩

theorem runSpecification_unknownShapes :
    ((generatorOf unknownShapes).runSpecification .empty "spec").1 =
      .error (.unknownGenerator "rdf-shapes") ∧
    ((generatorOf unknownShapes).runSpecification .empty "spec").2.documents.get? "index.md" =
      some "# spec\n" := by
  have hplan : (generatorOf unknownShapes).plan .empty "spec" = .ok (unknownShapes, _, _) :=
    plan_eq_ok.mpr ⟨rfl, DataSpecification.order_pair rfl rfl rfl (by decide), rfl⟩
  unfold runSpecification
  rw [hplan]
  exact ⟨by decide, by decide⟩

/-- The page is written before the run fails for want of a generator, and it stays. -/
theorem documents_of_failed_run_unknownShapes :
    ∃ e o', (generatorOf unknownShapes).runSpecification .empty "spec" = (.error e, o') ∧
      ∃ s done a rest w, (generatorOf unknownShapes).plan .empty "spec" =
          .ok (s, done ++ a :: rest, w) ∧
        Added w s done .empty o' ∧ done ≠ [] := by
  obtain ⟨hrun, hindex⟩ := runSpecification_unknownShapes
  have hchanged : ((generatorOf unknownShapes).runSpecification .empty "spec").2 ≠ .empty :=
    fun hempty => by
      rw [hempty] at hindex
      simp [MemoryOutput.empty] at hindex
  refine ⟨_, _, Prod.ext hrun rfl, ?_⟩
  obtain ⟨-, hsame⟩ | ⟨s, done, a, rest, w, hplan, -, hadded, hiff⟩ :=
    documents_of_failed_run (Prod.ext hrun rfl)
  · exact absurd hsame hchanged
  · exact ⟨s, done, a, rest, w, hplan, hadded, fun hdone => hchanged (hiff.mpr hdone)⟩

/-- A run that fails may have written documents. -/
theorem not_unchanged_of_failed_run :
    ¬ ∀ (g : Generator MemoryOutput) (o o' : MemoryOutput) (iri : Iri) (e : ModelError),
      g.runSpecification o iri = (.error e, o') → o'.documents = o.documents := by
  intro h
  obtain ⟨hrun, hindex⟩ := runSpecification_unknownShapes
  rw [h _ _ _ _ _ (Prod.ext hrun rfl)] at hindex
  simp [MemoryOutput.empty] at hindex

end Generator

end DataSpec
