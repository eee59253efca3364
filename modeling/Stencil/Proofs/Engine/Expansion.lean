import Mathlib
import Stencil.Proofs.Engine.Confinement
import Stencil.Proofs.Render.Expanding

/-!
# Static views in memory expand

An engine over static views in memory renders each of them as it expands. It fails only for a
view from which a chain of includes comes back on itself or gets too deep. Views that were
rendered before make no difference, as long as they have not been replaced since: the cache
of an engine keeps the views as they are read.
-/

namespace Stencil

/-! # Paths of views in memory -/

theorem ViewPath.points_ne_nil {path : ViewPath.Normal} (hinside : path.isInside = true)
    (hlast : ViewPath.hasExtension (path.parts.getLast?.getD []) = true) : path.points ≠ [] := by
  rcases path with ⟨slashes, parts⟩
  intro hnil
  rw [Normal.points, List.append_eq_nil_iff, List.replicate_eq_nil_iff] at hnil
  rcases hnil with ⟨hslashes, hparts⟩
  cases parts with
  | nil =>
      dsimp only at hslashes
      subst hslashes
      cases hinside
  | cons first rest =>
      cases rest with
      | nil =>
          rw [List.intercalate_singleton] at hparts
          rw [hparts] at hlast
          cases hlast
      | cons second more =>
          rw [List.intercalate_cons_cons] at hparts
          simp at hparts

theorem ViewPath.isEmpty_of_resolve? {viewsType name path : Text} {relativeTo : Option Text}
    (h : resolve? viewsType name relativeTo = some path) : path.isEmpty = false := by
  unfold resolve? at h
  dsimp only at h
  split at h
  next hinside =>
      cases h
      rw [Text.isEmpty, List.isEmpty_eq_false_iff, withExtension]
      dsimp only
      split
      next hlast => exact points_ne_nil hinside hlast
      · simp
  · cases h

namespace MemoryViews

theorem mem_of_text? {views : MemoryViews} {path : Text} {text : String}
    (h : views.text? path = some text) : (path, text) ∈ views := by
  rcases Option.map_eq_some_iff.mp h with ⟨view, hview, rfl⟩
  have hpath : view.1 = path := by simpa using List.find?_some hview
  rw [← hpath]
  exact List.mem_of_find?_eq_some hview

theorem mem_set {views : MemoryViews} {path : Text} {text : String} {view : Text × String}
    (h : view ∈ views.set path text) : view.1 = path ∨ view ∈ views := by
  induction views with
  | nil =>
      cases List.mem_singleton.mp h
      exact .inl rfl
  | cons first rest ih =>
      rw [set] at h
      split at h
      · rcases List.mem_cons.mp h with rfl | hrest
        · exact .inl rfl
        · exact .inr (List.mem_cons_of_mem _ hrest)
      · rcases List.mem_cons.mp h with rfl | hrest
        · exact .inr List.mem_cons_self
        · exact (ih hrest).imp_right (List.mem_cons_of_mem _)

/-- Whether every view has a path to which a name resolves. -/
def IsNamed (viewsType : Text) (views : MemoryViews) : Prop :=
  ∀ view ∈ views, ∃ name, ViewPath.resolve? viewsType name none = some view.1

theorem IsNamed.add {viewsType name path : Text} {text : String} {views after : MemoryViews}
    (h : views.IsNamed viewsType) (hadd : views.add viewsType name text = .ok (path, after)) :
    after.IsNamed viewsType := by
  unfold MemoryViews.add ViewPath.resolve at hadd
  cases hpath : ViewPath.resolve? viewsType name none with
  | none =>
      rw [hpath] at hadd
      cases hadd
  | some found =>
      rw [hpath] at hadd
      cases hadd
      intro view hview
      rcases mem_set hview with hnew | hold
      · exact ⟨name, hpath.trans (congrArg some hnew.symm)⟩
      · exact h view hold

theorem isNamed_of_ofList {viewsType : Text} {named : List (String × String)}
    {views : MemoryViews} (h : ofList viewsType named = .ok views) : views.IsNamed viewsType := by
  have hfold : ∀ before : MemoryViews, before.IsNamed viewsType →
      named.foldlM (fun views view => do return (← add views viewsType view.1 view.2).2) before =
        .ok views → views.IsNamed viewsType := by
    clear h
    induction named with
    | nil =>
        intro before hbefore hok
        cases hok
        exact hbefore
    | cons first rest ih =>
        intro before hbefore hok
        rw [List.foldlM_cons] at hok
        rcases bind_eq_ok_iff.mp hok with ⟨next, hnext, hrest⟩
        rcases bind_eq_ok_iff.mp hnext with ⟨⟨path, after⟩, hadd, hafter⟩
        cases hafter
        exact ih after (hbefore.add hadd) hrest
  exact hfold [] (by simp [IsNamed]) h

end MemoryViews

namespace Engine

/-! # Engines whose cache is current -/

/-- Whether an engine keeps the views in its cache as they are read now. -/
def IsCurrent (engine : Engine) : Prop :=
  CacheCurrent engine.source engine.cache

theorem IsCurrent.perform {engine : Engine} (h : engine.IsCurrent) (host : Host)
    (request : Request) (hsource : (engine.perform host request).2.source = engine.source) :
    (engine.perform host request).2.IsCurrent := by
  unfold IsCurrent
  rw [hsource]
  exact holds_perform h host request (fun _ _ hparsed => hparsed)
    (fun _ _ => engine.source.allRead_of_parsed)

/-- Engines that have started and whose views no request has changed since. -/
inductive Untouched : Engine → Prop where
  | start {engine : Engine} {ownLog : Bool} {logging : LogSection} {given : Entries Value}
      {memory : Option GivenViews} {files : FileTree} {store : Store} {helpers : Entries Value}
      (h : Engine.start ownLog logging given memory files store helpers = .ok engine) :
      Untouched engine
  | perform {engine : Engine} (h : Untouched engine) (host : Host) (request : Request)
      (hsource : (engine.perform host request).2.source = engine.source) :
      Untouched (engine.perform host request).2

theorem Untouched.isCurrent {engine : Engine} (h : engine.Untouched) : engine.IsCurrent := by
  induction h with
  | start h => exact (isFresh_of_start h).holds
  | perform _ host request hsource ih => exact ih.perform host request hsource

/-! # Renders of static views -/

section Static

variable {engine : Engine} {views : MemoryViews} {named : List (String × String)} {path : Text}
  {text : String} {data : Value} (h : engine.IsCurrent) (hshelf : engine.shelf = .memory views)
  (hviews : MemoryViews.ofList engine.viewsType named = .ok views)
  (hstatic : ∀ view ∈ views, View.isStatic view.2 = true)
  (htext : views.text? path = some text)
  (hdata : data = .null ∨ engine.store.isMapping data = true)

include h hshelf hviews hstatic htext hdata

theorem renderSource_cases_of_static (host : Host) :
    (∃ nodes rendered, View.parse text = .ok nodes ∧
      (engine.renderSource host text (some path) data).1 = .ok rendered ∧
      views.Expands engine.viewsType path nodes rendered.output rendered.includes ∧
      ¬ views.IsEndless engine.viewsType engine.settings.views.maxIncludeDepth path) ∨
    ((∃ e, (engine.renderSource host text (some path) data).1 = .error (.view e) ∧
        e.code = "INCLUDE_CYCLE") ∧
      views.IsEndless engine.viewsType engine.settings.views.maxIncludeDepth path) := by
  have hall : ∀ path text, views.text? path = some text → View.isStatic text = true :=
    fun path text htext => hstatic (path, text) (MemoryViews.mem_of_text? htext)
  rcases MemoryViews.isNamed_of_ofList hviews _ (MemoryViews.mem_of_text? htext) with ⟨name, hname⟩
  rcases View.exists_parse_of_isStatic (hall path text htext) with ⟨nodes, hparse, hnodes⟩
  rw [MemoryViews.isEndless_iff htext hparse]
  cases hentries : renderData engine.store data with
  | error trouble => exact absurd hentries (renderData_ne_error hdata trouble)
  | ok entries =>
      have hexpanding := @expanding_view views engine.viewsType path
        ⟨engine.store.restart entries engine.helpers, engine.cache, [.renderStarted], []⟩
        (engine.setup host) (source_of_memory hshelf) hall (ViewPath.isEmpty_of_resolve? hname)
        nodes hnodes h
      rw [renderSource_fst hparse hentries]
      generalize renderView (engine.setup host) (some path) nodes _ = run at hexpanding ⊢
      rcases run with ⟨trouble | output, after⟩
      · rcases hexpanding with ⟨⟨e, rfl, hcode⟩, haway⟩
        exact .inr ⟨⟨_, rfl, hcode⟩, haway⟩
      · rcases hexpanding with ⟨⟨paths, hexpands, hafter⟩, hnone⟩
        refine .inl ⟨nodes, _, hparse, rfl, ?_, ?_⟩
        · dsimp only
          rw [hafter.includes, List.append_nil, List.reverse_reverse]
          exact hexpands
        · rintro ⟨target, htarget, haway⟩
          exact hnone target htarget haway

end Static

/--
A static view in memory is rendered as it expands, and the views that are put in are listed,
each before those inside it. It fails if and only if a row of includes that begins with it
comes back on itself or gets too deep; the failure then says so.
-/
theorem IsCurrent.renderSource_expands {engine : Engine} {views : MemoryViews}
    {named : List (String × String)} {path : Text} {text : String} {data : Value}
    (h : engine.IsCurrent) (hshelf : engine.shelf = .memory views)
    (hviews : MemoryViews.ofList engine.viewsType named = .ok views)
    (hstatic : ∀ view ∈ views, View.isStatic view.2 = true)
    (htext : views.text? path = some text)
    (hdata : data = .null ∨ engine.store.isMapping data = true) (host : Host) :
    let result := (engine.renderSource host text (some path) data).1
    let most := engine.settings.views.maxIncludeDepth
    ((∃ e, result = .error (.view e) ∧ e.code = "INCLUDE_CYCLE") ↔
        views.IsEndless engine.viewsType most path) ∧
      (¬ views.IsEndless engine.viewsType most path →
        ∃ nodes rendered, View.parse text = .ok nodes ∧ result = .ok rendered ∧
          ∀ output paths, views.Expands engine.viewsType path nodes output paths ↔
            rendered.output = output ∧ rendered.includes = paths) := by
  intro result most
  rcases renderSource_cases_of_static h hshelf hviews hstatic htext hdata host with
    ⟨nodes, rendered, hparse, hok, hexpands, hnot⟩ | ⟨herror, hendless⟩
  · refine ⟨⟨?_, fun hendless => absurd hendless hnot⟩, fun _ => ⟨nodes, rendered, hparse, hok, ?_⟩⟩
    · rintro ⟨e, herror, _⟩
      cases hok.symm.trans herror
    · intro output paths
      constructor
      · exact hexpands.unique
      · rintro ⟨rfl, rfl⟩
        exact hexpands
  · exact ⟨⟨fun _ => hendless, fun _ => herror⟩, fun hnot => absurd hendless hnot⟩

def diamond : MemoryViews :=
  [ ("page.html", "1@include('parts/one')2@include('parts/two')3@include('gone')"),
    ("parts/one.html", "<@include('./shared')>"),
    ("parts/two.html", "[@include('./shared')]"),
    ("parts/shared.html", "s") ]

def diamondEngine : Engine where
  settings := ⟨.standard, .standard⟩
  viewsType := "html"
  shelf := .memory diamond
  files := ⟨[], []⟩
  cache := some .empty
  helpers := builtinHelpers
  store := .ofData [] []
  journal := []

theorem IsCurrent.renderSource_expands_diamond :
    ∃ text nodes rendered, diamondEngine.IsCurrent ∧
      (∃ named, MemoryViews.ofList "html" named = .ok diamond) ∧
      (∀ view ∈ diamond, View.isStatic view.2 = true) ∧
      diamond.text? "page.html" = some text ∧ View.parse text = .ok nodes ∧
      (diamondEngine.renderSource .none text (some "page.html") .null).1 = .ok rendered ∧
      diamond.Expands "html" "page.html" nodes rendered.output rendered.includes := by
  have hcurrent : diamondEngine.IsCurrent := CacheHolds.empty
  have hviews : MemoryViews.ofList "html"
      [ ("page", "1@include('parts/one')2@include('parts/two')3@include('gone')"),
        ("parts/one", "<@include('./shared')>"),
        ("parts/two", "[@include('./shared')]"),
        ("parts/shared", "s") ] = .ok diamond :=
    rfl
  have hstatic : ∀ view ∈ diamond, View.isStatic view.2 = true := by
    decide +kernel
  have htext : diamond.text? "page.html" =
      some "1@include('parts/one')2@include('parts/two')3@include('gone')" := rfl
  have hok : (diamondEngine.renderSource .none
      "1@include('parts/one')2@include('parts/two')3@include('gone')" (some "page.html")
      .null).1.isOk = true := by
    decide +kernel
  rcases exists_of_isOk hok with ⟨first, hfirst⟩
  have hexpands := hcurrent.renderSource_expands rfl hviews hstatic htext (.inl rfl) .none
  have hnot : ¬ diamond.IsEndless "html" diamondEngine.settings.views.maxIncludeDepth
      "page.html" := by
    intro hendless
    rcases hexpands.1.mpr hendless with ⟨e, he, _⟩
    cases hfirst.symm.trans he
  rcases hexpands.2 hnot with ⟨nodes, rendered, hparse, hrendered, hall⟩
  exact ⟨_, nodes, rendered, hcurrent, ⟨_, hviews⟩, hstatic, htext, hparse, hrendered,
    (hall _ _).mpr ⟨rfl, rfl⟩⟩

end Engine
end Stencil
